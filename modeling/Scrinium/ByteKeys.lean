import Mathlib.Data.List.Sort
import Mathlib.Data.List.Lex
import Mathlib.Order.Lattice

/-! Byte strings as ordered keys: the lexicographic order, the range that holds exactly the keys of one prefix, keys joined by a
zero byte and their order, and the bytes of a text. -/
namespace ByteKeys
open List Option

abbrev Bytes := List UInt8

scoped instance byteOrder : LinearOrder UInt8 where
  le_refl a := UInt8.le_refl a
  le_trans _ _ _ := UInt8.le_trans
  lt_iff_le_not_ge a b := by simp only [UInt8.lt_iff_toNat_lt,UInt8.le_iff_toNat_le]; omega
  le_antisymm _ _ := UInt8.le_antisymm
  le_total a b := UInt8.le_total a b
  toDecidableLE := inferInstance

theorem consLt {a b : UInt8} {x y : Bytes} : a::x < b::y ↔ a < b ∨ a = b ∧ x < y := cons_lt_cons_iff

/- The least string above every string that starts with the given one; none when that is all 0xFF. -/
def upperBound : Bytes → Option Bytes
  | [] => none
  | b::rest =>
    match upperBound rest with
    | some u => some (b::u)
    | none => if b < 255 then some [b + 1] else none

/- low ≤ key < upperBound low -/
def inRange (low key : Bytes) : Bool := !decide (key < low) && (upperBound low).all fun high => decide (key < high)

theorem belowNext {b c : UInt8} (small : b < 255) : c < b + 1 ↔ ¬ b < c := by
  simp only [UInt8.lt_iff_toNat_lt,UInt8.toNat_add,UInt8.toNat_one] at small ⊢
  have top : (255 : UInt8).toNat = 255 := rfl
  omega

theorem inRangeIff (low key : Bytes) : inRange low key = true ↔ low <+: key := by
  induction low generalizing key with
  | nil => simp [inRange,upperBound]
  | cons b rest ih =>
    cases key with
    | nil => simp [inRange]
    | cons c tail =>
      have below : ¬ c::tail < b::rest ↔ b < c ∨ b = c ∧ ¬ tail < rest := by
        rw [consLt]
        rcases lt_trichotomy b c with less | rfl | more
        · simp [less,less.asymm,less.ne']
        · simp
        · simp [more,more.asymm,more.ne']
      have same := ih tail
      simp only [inRange,Bool.and_eq_true,Bool.not_eq_true',decide_eq_false_iff_not] at same ⊢
      rw [below,cons_prefix_cons,← same,upperBound]
      cases upperBound rest with
      | some u =>
        simp only [all_some,decide_eq_true_eq,consLt]
        constructor
        · rintro ⟨less | ⟨rfl,high⟩,more | ⟨same,under⟩⟩
          · exact absurd less more.asymm
          · exact absurd (same ▸ less) (lt_irrefl _)
          · exact absurd more (lt_irrefl _)
          · exact ⟨rfl,high,under⟩
        · rintro ⟨rfl,high,under⟩
          exact ⟨.inr ⟨rfl,high⟩,.inr ⟨rfl,under⟩⟩
      | none =>
        simp only [all_none,and_true]
        split
        · next small =>
          have none : ¬ tail < [] := not_lt_nil tail
          simp only [all_some,decide_eq_true_eq,consLt,belowNext small,none,and_false,or_false]
          constructor
          · rintro ⟨less | ok,under⟩
            · exact absurd less under
            · exact ok
          · rintro ⟨rfl,high⟩
            exact ⟨.inr ⟨rfl,high⟩,lt_irrefl _⟩
        · next large =>
          have top : ¬ b < c := by
            simp only [UInt8.lt_iff_toNat_lt] at large ⊢
            have last : (255 : UInt8).toNat = 255 := rfl
            have bound := c.toNat_lt
            omega
          simp [top]

section

def join (a b : Bytes) : Bytes := a ++ 0::b

def cut : Bytes → Option (Bytes × Bytes)
  | [] => none
  | c::rest => if c = 0 then some ([],rest) else (cut rest).map fun parts => (c::parts.1,parts.2)

variable {a b a' b' value p}

theorem cutJoin (plain : 0 ∉ a) (b : Bytes) : cut (join a b) = some (a,b) := by
  induction a with
  | nil => simp [join,cut]
  | cons c rest ih =>
    have other : c ≠ 0 := (ne_of_not_mem_cons plain).symm
    have inner := ih (not_mem_of_not_mem_cons plain)
    rw [join] at inner
    simp [join,cut,other,inner]

theorem joinInj (plain : 0 ∉ a) (plain' : 0 ∉ a') (same : join a b = join a' b') : a = a' ∧ b = b' := by
  have parts := cutJoin plain b
  rw [same,cutJoin plain'] at parts
  cases parts
  exact ⟨rfl,rfl⟩

theorem joinCut (at' : cut value = some (a,b)) : value = join a b := by
  induction value generalizing a with
  | nil => cases at'
  | cons c rest ih =>
    rw [cut] at at'
    split at at'
    · next zero =>
      cases at'
      simp only [join,zero,nil_append]
    · obtain ⟨⟨a',b'⟩,inner,last⟩ := map_eq_some_iff.mp at'
      cases last
      rw [ih inner]
      rfl

theorem cutPlain (at' : cut value = some (a,b)) : 0 ∉ a := by
  induction value generalizing a with
  | nil => cases at'
  | cons c rest ih =>
    rw [cut] at at'
    split at at'
    · cases at'
      exact not_mem_nil
    · next other =>
      obtain ⟨⟨a',b'⟩,inner,last⟩ := map_eq_some_iff.mp at'
      cases last
      exact fun zero => (mem_cons.mp zero).elim (fun here => other here.symm) (ih inner)

theorem cutSome (a b : Bytes) : ∃ parts, cut (join a b) = some parts := by
  induction a with
  | nil => exact ⟨_,rfl⟩
  | cons c rest ih =>
    obtain ⟨parts,inner⟩ := ih
    unfold join at inner ⊢
    rw [cons_append,cut,inner]
    split
    · exact ⟨_,rfl⟩
    · exact ⟨_,rfl⟩

theorem zeroLt {c : UInt8} (nonzero : c ≠ 0) : 0 < c := by
  rw [UInt8.lt_iff_toNat_lt]
  exact Nat.pos_of_ne_zero fun zero => nonzero (UInt8.toNat_inj.mp zero)

theorem joinLt (plain : 0 ∉ a) (plain' : 0 ∉ a') : join a b < join a' b' ↔ a < a' ∨ a = a' ∧ b < b' := by
  induction a generalizing a' with
  | nil =>
    cases a' with
    | nil => simp [join]
    | cons c rest =>
      have low := zeroLt (ne_of_not_mem_cons plain').symm
      simp [join,consLt,low]
  | cons c rest ih =>
    have low := zeroLt (ne_of_not_mem_cons plain).symm
    cases a' with
    | nil => simp [join,consLt,low.asymm,low.ne']
    | cons d tail =>
      have inner := ih (not_mem_of_not_mem_cons plain) (not_mem_of_not_mem_cons plain')
      simp only [join,cons_append,consLt] at inner ⊢
      rw [inner]
      constructor
      · rintro (less | ⟨rfl,less | ⟨rfl,second⟩⟩)
        · exact .inl (.inl less)
        · exact .inl (.inr ⟨rfl,less⟩)
        · exact .inr ⟨rfl,second⟩
      · rintro ((less | ⟨rfl,less⟩) | ⟨same,second⟩)
        · exact .inl less
        · exact .inr ⟨rfl,.inl less⟩
        · cases same
          exact .inr ⟨rfl,.inr ⟨rfl,second⟩⟩

theorem joinPrefix (plain : 0 ∉ a) (plain' : 0 ∉ b) : p ++ [0] <+: join a b ↔ p = a := by
  constructor
  · rintro ⟨rest,whole⟩
    have spelled : join p rest = join a b := by rw [join,← whole,append_assoc,singleton_append]
    by_cases inside : 0 ∈ p
    · -- two zero bytes are more than a joined key has
      have count := congrArg (List.count 0) spelled
      simp only [join,count_append,count_cons_self,count_eq_zero_of_not_mem plain,
        count_eq_zero_of_not_mem plain'] at count
      have some' := count_pos_iff.mpr inside
      omega
    · exact (joinInj inside plain spelled).1
  · rintro rfl
    exact ⟨b,by simp [join]⟩

theorem joinPrefixPlain (plain : 0 ∉ p) : p <+: join a b ↔ p <+: a := by
  constructor
  · intro starts
    rcases prefix_or_prefix_of_prefix starts (prefix_append a (0::b)) with inside | ⟨rest,rfl⟩
    · exact inside
    cases rest with
    | nil => simp
    | cons c tail =>
      obtain ⟨rfl,_⟩ := cons_prefix_cons.mp ((prefix_append_right_inj a).mp starts)
      exact absurd (mem_append_right a mem_cons_self) plain
  · exact fun starts => starts.trans (prefix_append a _)

end

def utf8 (text : String) : Bytes := text.toList.flatMap String.utf8EncodeChar

theorem utf8Injective : Function.Injective utf8 := by
  intro a b same
  have bytes : a.toList.utf8Encode = b.toList.utf8Encode := by
    rw [List.utf8Encode,List.utf8Encode]
    exact congrArg _ same
  rw [← String.ofList_toList (s := a),← String.ofList_toList (s := b)]
  exact String.toByteArray_inj.mp (by rw [String.toByteArray_ofList,String.toByteArray_ofList,bytes])

theorem byteNonzero {n} (low : n % 256 ≠ 0) : 0 ≠ UInt8.ofNat n := by
  intro zero
  have value := congrArg UInt8.toNat zero
  rw [UInt8.toNat_zero,UInt8.toNat_ofNat'] at value
  exact low value.symm

theorem charPlain {c} (nonzero : c ≠ '\x00') : 0 ∉ String.utf8EncodeChar c := by
  have value : c.val.toNat ≠ 0 := fun none => nonzero (Char.ext (UInt32.toNat_inj.mp none))
  unfold String.utf8EncodeChar
  simp only
  split
  · simp only [mem_singleton]
    exact byteNonzero (by omega)
  split
  · simp only [mem_cons,not_mem_nil,or_false,not_or]
    exact ⟨byteNonzero (by omega),byteNonzero (by omega)⟩
  split
  · simp only [mem_cons,not_mem_nil,or_false,not_or]
    exact ⟨byteNonzero (by omega),byteNonzero (by omega),byteNonzero (by omega)⟩
  · simp only [mem_cons,not_mem_nil,or_false,not_or]
    exact ⟨byteNonzero (by omega),byteNonzero (by omega),byteNonzero (by omega),byteNonzero (by omega)⟩

theorem utf8Plain {text} (plain : '\x00' ∉ text.toList) : 0 ∉ utf8 text := by
  intro mem
  obtain ⟨c,inside,zero⟩ := mem_flatMap.mp mem
  exact charPlain (fun same => plain (same ▸ inside)) zero

end ByteKeys
