import Mathlib.Data.List.Basic
import Mathlib.Tactic.IntervalCases

/-! Hexadecimal text of a byte string, written in lower case and read in both; an odd length or a character that is no
digit is refused. -/
namespace HexText
open Option

abbrev Bytes := List UInt8

-- Code points: '0' is 48, 'A' is 65, 'a' is 97.
def value (c : Char) : Option Nat :=
  if 48 ≤ c.toNat ∧ c.toNat ≤ 57 then some (c.toNat - 48)
  else if 97 ≤ c.toNat ∧ c.toNat ≤ 102 then some (c.toNat - 87)
  else if 65 ≤ c.toNat ∧ c.toNat ≤ 70 then some (c.toNat - 55)
  else none

def lowerDigit (c : Char) : Bool := (48 ≤ c.toNat && c.toNat ≤ 57) || (97 ≤ c.toNat && c.toNat ≤ 102)

def encodeChars : Bytes → List Char
  | [] => []
  | b::rest => Nat.digitChar (b.toNat / 16)::Nat.digitChar (b.toNat % 16)::encodeChars rest

def decodeChars : List Char → Option Bytes
  | [] => some []
  | [_] => none
  | high::low::rest => do
    let h ← value high
    let l ← value low
    let tail ← decodeChars rest
    some (UInt8.ofNat (16 * h + l)::tail)

def encode (bytes : Bytes) : String := String.ofList (encodeChars bytes)
def decode (text : String) : Option Bytes := decodeChars text.toList

variable {n text}

theorem valueDigit (small : n < 16) : value (Nat.digitChar n) = some n := by
  interval_cases n <;> rfl

theorem lowerDigitChar (small : n < 16) : lowerDigit (Nat.digitChar n) = true := by
  interval_cases n <;> rfl

theorem digitValue {c} (lower : lowerDigit c = true) : ∃ n, n < 16 ∧ value c = some n ∧ Nat.digitChar n = c := by
  have range : (48 ≤ c.toNat ∧ c.toNat ≤ 57) ∨ (97 ≤ c.toNat ∧ c.toNat ≤ 102) := by
    simpa [lowerDigit] using lower
  have same : c = Char.ofNat c.toNat := (Char.ofNat_toNat c).symm
  generalize c.toNat = code at range same
  subst same
  rcases range with ⟨low, high⟩ | ⟨low, high⟩ <;> interval_cases code <;>
    exact ⟨_, by decide, rfl, rfl⟩

theorem decodeEncodeChars (bytes : Bytes) : decodeChars (encodeChars bytes) = some bytes := by
  induction bytes with
  | nil => rfl
  | cons b rest ih =>
    have bound := b.toNat_lt
    have whole : 16 * (b.toNat / 16) + b.toNat % 16 = b.toNat := by omega
    have high := valueDigit (show b.toNat / 16 < 16 by omega)
    have low := valueDigit (show b.toNat % 16 < 16 by omega)
    simp only [encodeChars,decodeChars,high,low,ih,bind,bind_some,whole,
      UInt8.ofNat_toNat]

theorem decodeEncode (bytes : Bytes) : decode (encode bytes) = some bytes := by
  simp [decode,encode,decodeEncodeChars]

theorem decodeEmpty (decoded : decode text = some []) : text = "" := by
  have chars : ∀ {chars : List Char}, decodeChars chars = some [] → chars = [] := by
    intro chars read
    match chars with
    | [] => rfl
    | [_] => cases read
    | high::low::rest =>
      simp only [decodeChars,bind,bind_eq_some_iff] at read
      obtain ⟨_,_,_,_,_,_,last⟩ := read
      cases last
  exact String.toList_eq_nil_iff.mp (chars decoded)

theorem encodeInjective {a b} (same : encode a = encode b) : a = b := by
  have back := decodeEncode a
  rw [same,decodeEncode b] at back
  exact (some.inj back).symm

theorem encodeCharsLower (bytes : Bytes) : (encodeChars bytes).all lowerDigit = true := by
  induction bytes with
  | nil => rfl
  | cons b rest ih =>
    have bound := b.toNat_lt
    simp only [encodeChars,List.all_cons,ih,Bool.and_true,Bool.and_eq_true]
    exact ⟨lowerDigitChar (by omega), lowerDigitChar (by omega)⟩

theorem encodeLower (bytes : Bytes) : (encode bytes).toList.all lowerDigit = true := by
  simpa [encode] using encodeCharsLower bytes

theorem encodeLength (bytes : Bytes) : (encode bytes).toList.length = 2 * bytes.length := by
  have chars : (encodeChars bytes).length = 2 * bytes.length := by
    induction bytes with
    | nil => rfl
    | cons b rest ih => simp only [encodeChars,List.length_cons,ih]; omega
  simpa [encode] using chars

theorem encodeDecodeChars : ∀ {chars : List Char} {bytes : Bytes},
    decodeChars chars = some bytes → chars.all lowerDigit = true → encodeChars bytes = chars
  | [], bytes, h, _ => by
    cases h
    rfl
  | [_], _, h, _ => by contradiction
  | high::low::rest, bytes, h, lower => by
    simp only [List.all_cons,Bool.and_eq_true] at lower
    obtain ⟨x, xSmall, xValue, xChar⟩ := digitValue lower.1
    obtain ⟨y, ySmall, yValue, yChar⟩ := digitValue lower.2.1
    simp only [decodeChars,bind,bind_eq_some_iff,xValue,yValue,some.injEq,
      exists_eq_left'] at h
    obtain ⟨tail, decoded, last⟩ := h
    subst last
    have byte : (UInt8.ofNat (16 * x + y)).toNat = 16 * x + y := by
      rw [UInt8.toNat_ofNat']
      omega
    have top : (16 * x + y) / 16 = x := by omega
    have bottom : (16 * x + y) % 16 = y := by omega
    rw [encodeChars,byte,top,bottom,xChar,yChar,encodeDecodeChars decoded lower.2.2]

theorem encodeDecode {bytes} (decoded : decode text = some bytes) (lower : text.toList.all lowerDigit = true) :
    encode bytes = text := by
  rw [encode,encodeDecodeChars decoded lower]
  exact String.ofList_toList

end HexText
