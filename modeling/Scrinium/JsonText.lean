import Scrinium.HexText
import Mathlib.Algebra.Order.BigOperators.Group.List

/-! JSON text as an encoder without layout writes it, with the characters escaped that are special in HTML, and the length of
such a text in terms of what it is made of. -/
namespace JsonText
open List
open HexText (Bytes)

-- Code points: quote 34, comma 44, colon 58, brackets 91 and 93, backslash 92, 'u' 117, braces 123 and 125.
def hexDigit (n : Nat) : UInt8 := (Nat.digitChar (n % 16)).toNat.toUInt8
def unicodeEscape (n : Nat) : Bytes := [92,117,hexDigit (n / 4096),hexDigit (n / 256),hexDigit (n / 16),hexDigit n]

def shortEscape (n : Nat) : Option UInt8 :=
  if n = 8 then some 98 else if n = 9 then some 116 else if n = 10 then some 110
  else if n = 12 then some 102 else if n = 13 then some 114 else none

def longEscape (n : Nat) : Bool := n < 32 || n = 38 || n = 60 || n = 62 || n = 8232 || n = 8233

def escaped (c : Char) : Bytes :=
  if c.toNat = 34 ∨ c.toNat = 92 then [92,c.toNat.toUInt8]
  else match shortEscape c.toNat with
    | some letter => [92,letter]
    | none => if longEscape c.toNat then unicodeEscape c.toNat else String.utf8EncodeChar c

def escapedSize (c : Char) : Nat :=
  if c.toNat = 34 ∨ c.toNat = 92 ∨ shortEscape c.toNat ≠ none then 2
  else if longEscape c.toNat then 6 else c.utf8Size

def quoted (text : String) : Bytes := 34::(text.toList.flatMap escaped ++ [34])
def quotedSize (text : String) : Nat := 2 + (text.toList.map escapedSize).sum
def number (n : Int) : Bytes := (toString n).toList.map fun c => c.toNat.toUInt8

def joined : List Bytes → Bytes
  | [] => []
  | [item] => item
  | item::next::rest => item ++ 44::joined (next::rest)

def joinedSize (sizes : List Nat) : Nat := sizes.sum + (sizes.length - 1)
def array (items : List Bytes) : Bytes := 91::(joined items ++ [93])
def arraySize (sizes : List Nat) : Nat := 2 + joinedSize sizes
def object (fields : List (String × Bytes)) : Bytes := 123::(joined (fields.map fun f => quoted f.1 ++ 58::f.2) ++ [125])
def objectSize (fields : List (String × Nat)) : Nat := 2 + joinedSize (fields.map fun f => quotedSize f.1 + 1 + f.2)

theorem escapedLength (c : Char) : (escaped c).length = escapedSize c := by
  unfold escaped escapedSize
  by_cases mark : c.toNat = 34 ∨ c.toNat = 92
  · rw [if_pos mark,if_pos (mark.imp_right .inl)]
    rfl
  rw [if_neg mark]
  cases short : shortEscape c.toNat with
  | some letter => simp
  | none =>
    by_cases long : longEscape c.toNat = true
    · simp [mark,long,unicodeEscape]
    · simp [mark,long]

theorem quotedLength (text : String) : (quoted text).length = quotedSize text := by
  have chars : ((fun b : Bytes => b.length) ∘ escaped) = escapedSize := funext escapedLength
  simp only [quoted,quotedSize,length_cons,length_append,length_flatMap,length_nil]
  simp only [← chars,Function.comp_def]
  omega

theorem joinedLength (items : List Bytes) : (joined items).length = joinedSize (items.map List.length) := by
  fun_induction joined items with
  | case1 => rfl
  | case2 item => simp [joinedSize]
  | case3 item next rest ih =>
    simp only [length_append,length_cons,ih,joinedSize,map_cons,sum_cons]
    omega

theorem arrayLength (items : List Bytes) : (array items).length = arraySize (items.map List.length) := by
  simp only [array,arraySize,length_cons,length_append,length_nil,joinedLength]
  omega

theorem objectLength (fields : List (String × Bytes)) :
    (object fields).length = objectSize (fields.map fun f => (f.1,f.2.length)) := by
  simp only [object,objectSize,length_cons,length_append,length_nil,joinedLength,map_map]
  have each : (List.length ∘ fun f : String × Bytes => quoted f.1 ++ 58::f.2) =
      ((fun f : String × Nat => quotedSize f.1 + 1 + f.2) ∘ fun f : String × Bytes => (f.1,f.2.length)) := by
    funext f
    simp only [Function.comp_apply,length_append,length_cons,quotedLength]
    omega
  rw [each]
  omega

theorem memberShorter {fields} (name : String) {size} (mem : (name,size) ∈ fields) : size < objectSize fields := by
  have part : quotedSize name + 1 + size ∈ fields.map fun f => quotedSize f.1 + 1 + f.2 := mem_map.mpr ⟨_,mem,rfl⟩
  have below := le_sum_of_mem part
  unfold objectSize joinedSize
  omega

end JsonText
