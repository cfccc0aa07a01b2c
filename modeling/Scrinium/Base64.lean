import Scrinium.HexText

/-! Base64 text of a byte string, in the standard alphabet and with padding. -/
namespace Base64
open List
open HexText (Bytes)

-- Code points: 'A' is 65, 'a' is 97, '0' is 48.
def digit (n : Nat) : Char :=
  if n < 26 then Char.ofNat (65 + n)
  else if n < 52 then Char.ofNat (71 + n)
  else if n < 62 then Char.ofNat (n - 4)
  else if n = 62 then '+' else '/'

def value (c : Char) : Option Nat :=
  if 65 ≤ c.toNat ∧ c.toNat ≤ 90 then some (c.toNat - 65)
  else if 97 ≤ c.toNat ∧ c.toNat ≤ 122 then some (c.toNat - 71)
  else if 48 ≤ c.toNat ∧ c.toNat ≤ 57 then some (c.toNat + 4)
  else if c = '+' then some 62
  else if c = '/' then some 63
  else none

def encodeChars : Bytes → List Char
  | [] => []
  | [a] => [digit (a.toNat / 4),digit (a.toNat % 4 * 16),'=','=']
  | [a,b] => [digit (a.toNat / 4),digit (a.toNat % 4 * 16 + b.toNat / 16),digit (b.toNat % 16 * 4),'=']
  | a::b::c::rest =>
    digit (a.toNat / 4)::digit (a.toNat % 4 * 16 + b.toNat / 16)::digit (b.toNat % 16 * 4 + c.toNat / 64)::
      digit (c.toNat % 64)::encodeChars rest

def decodeChars : List Char → Option Bytes
  | [] => some []
  | p::q::r::s::rest => do
    let p ← value p
    let q ← value q
    let first := UInt8.ofNat (4 * p + q / 16)
    if rest = [] ∧ s = '=' ∧ r = '=' then some [first]
    else
      let r ← value r
      let second := UInt8.ofNat (q % 16 * 16 + r / 4)
      if rest = [] ∧ s = '=' then some [first,second]
      else
        let s ← value s
        let tail ← decodeChars rest
        some (first::second::UInt8.ofNat (r % 4 * 64 + s)::tail)
  | _ => none

def encode (bytes : Bytes) : String := String.ofList (encodeChars bytes)
def decode (text : String) : Option Bytes := decodeChars text.toList

def size (n : Nat) : Nat := 4 * ((n + 2) / 3)

theorem sizeGrows (n : Nat) : n ≤ size n := by
  unfold size
  omega

theorem encodeLength (bytes : Bytes) : (encodeChars bytes).length = size bytes.length := by
  fun_induction encodeChars bytes with
  | case1 => rfl
  | case2 a => simp [size]
  | case3 a b => simp [size]
  | case4 a b c rest ih =>
    simp only [length_cons,ih,size]
    omega

variable {n bytes}

theorem valueDigit (small : n < 64) : value (digit n) = some n := by
  interval_cases n <;> rfl

theorem digitNotPad (small : n < 64) : digit n ≠ '=' := by
  interval_cases n <;> decide

theorem joinFirst (a b : UInt8) : UInt8.ofNat (4 * (a.toNat / 4) + (a.toNat % 4 * 16 + b.toNat / 16) / 16) = a := by
  have bound := b.toNat_lt
  have whole : 4 * (a.toNat / 4) + (a.toNat % 4 * 16 + b.toNat / 16) / 16 = a.toNat := by omega
  rw [whole,UInt8.ofNat_toNat]

theorem joinSecond (a b c : UInt8) :
    UInt8.ofNat ((a.toNat % 4 * 16 + b.toNat / 16) % 16 * 16 + (b.toNat % 16 * 4 + c.toNat / 64) / 4) = b := by
  have boundB := b.toNat_lt
  have boundC := c.toNat_lt
  have whole : (a.toNat % 4 * 16 + b.toNat / 16) % 16 * 16 + (b.toNat % 16 * 4 + c.toNat / 64) / 4 = b.toNat := by omega
  rw [whole,UInt8.ofNat_toNat]

theorem joinThird (b c : UInt8) : UInt8.ofNat ((b.toNat % 16 * 4 + c.toNat / 64) % 4 * 64 + c.toNat % 64) = c := by
  have bound := c.toNat_lt
  have whole : (b.toNat % 16 * 4 + c.toNat / 64) % 4 * 64 + c.toNat % 64 = c.toNat := by omega
  rw [whole,UInt8.ofNat_toNat]

theorem decodeEncodeChars (bytes : Bytes) : decodeChars (encodeChars bytes) = some bytes := by
  fun_induction encodeChars bytes with
  | case1 => rfl
  | case2 a =>
    have bound := a.toNat_lt
    have first := joinFirst a 0
    simp only [UInt8.toNat_zero,Nat.zero_div,Nat.add_zero] at first
    rw [decodeChars,valueDigit (by omega),valueDigit (by omega)]
    simp only [bind,Option.bind,and_self,if_true,first]
  | case3 a b =>
    have boundA := a.toNat_lt
    have boundB := b.toNat_lt
    have second := joinSecond a b 0
    simp only [UInt8.toNat_zero,Nat.zero_div,Nat.add_zero] at second
    have digits : digit (b.toNat % 16 * 4) ≠ '=' := digitNotPad (by omega)
    rw [decodeChars,valueDigit (by omega),valueDigit (by omega),valueDigit (by omega)]
    simp only [bind,Option.bind,digits,and_self,and_false,if_true,if_false,joinFirst,second]
  | case4 a b c rest ih =>
    have boundA := a.toNat_lt
    have boundB := b.toNat_lt
    have boundC := c.toNat_lt
    have digits : digit (c.toNat % 64) ≠ '=' := digitNotPad (by omega)
    rw [decodeChars,valueDigit (by omega),valueDigit (by omega),valueDigit (by omega),valueDigit (by omega),ih]
    simp only [bind,Option.bind,digits,and_false,false_and,if_false,joinFirst,joinSecond,joinThird]

theorem decodeEncode (bytes : Bytes) : decode (encode bytes) = some bytes := by
  rw [decode,encode,String.toList_ofList,decodeEncodeChars]

theorem encodeEmpty : encode bytes = "" ↔ bytes = [] := by
  constructor
  · intro empty
    have back := decodeEncode bytes
    rw [empty] at back
    exact (Option.some.inj back).symm
  · rintro rfl
    rfl

theorem encodeAlphabet {c} (mem : c ∈ encodeChars bytes) : c = '=' ∨ ∃ n < 64, c = digit n := by
  fun_induction encodeChars bytes with
  | case1 => cases mem
  | case2 a =>
    have bound := a.toNat_lt
    simp only [mem_cons,not_mem_nil,or_false] at mem
    rcases mem with rfl | rfl | rfl | rfl
    · exact .inr ⟨_,by omega,rfl⟩
    · exact .inr ⟨_,by omega,rfl⟩
    · exact .inl rfl
    · exact .inl rfl
  | case3 a b =>
    have boundA := a.toNat_lt
    have boundB := b.toNat_lt
    simp only [mem_cons,not_mem_nil,or_false] at mem
    rcases mem with rfl | rfl | rfl | rfl
    · exact .inr ⟨_,by omega,rfl⟩
    · exact .inr ⟨_,by omega,rfl⟩
    · exact .inr ⟨_,by omega,rfl⟩
    · exact .inl rfl
  | case4 a b c rest ih =>
    have boundA := a.toNat_lt
    have boundB := b.toNat_lt
    have boundC := c.toNat_lt
    simp only [mem_cons] at mem
    rcases mem with rfl | rfl | rfl | rfl | later
    · exact .inr ⟨_,by omega,rfl⟩
    · exact .inr ⟨_,by omega,rfl⟩
    · exact .inr ⟨_,by omega,rfl⟩
    · exact .inr ⟨_,by omega,rfl⟩
    · exact ih later

end Base64
