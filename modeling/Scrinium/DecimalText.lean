import Mathlib.Algebra.Group.Nat.Defs
import Mathlib.Data.List.Basic

/-! Numbers as decimal text of a fixed width: padded with zeros on the left, and read back only at exactly that width. -/
namespace DecimalText
open List

def padded (width n : Nat) : List Char := (Nat.toDigits 10 n).leftpad width '0'

def read (width : Nat) (chars : List Char) : Option Nat :=
  if chars.length = width ∧ chars.all Char.isDigit then some (Nat.ofDigitChars 10 chars 0) else none

variable {width n} {c : Char} {chars}

theorem paddedDigit (mem : c ∈ padded width n) : c.isDigit = true := by
  rcases mem_append.mp mem with zero | digit
  · rw [eq_of_mem_replicate zero]
    rfl
  · exact Nat.isDigit_of_mem_toDigits (by decide) (by decide) digit

theorem paddedLength (some' : 0 < width) (small : n < 10 ^ width) : (padded width n).length = width := by
  have short := (Nat.length_toDigits_le_iff (by decide) some').mpr small
  simp [padded,List.leftpad]
  omega

theorem paddedValue (width n : Nat) : Nat.ofDigitChars 10 (padded width n) 0 = n := by
  rw [padded,List.leftpad,Nat.ofDigitChars_append,Nat.ofDigitChars_replicate_zero,Nat.mul_zero,
    Nat.ofDigitChars_ten_toDigits]

theorem digitValueLt (digit : c.isDigit = true) : c.toNat - '0'.toNat < 10 := by
  simp only [Char.isDigit,Bool.and_eq_true,decide_eq_true_eq] at digit
  have low : c.toNat ≤ 57 := digit.2
  have zero : '0'.toNat = 48 := rfl
  omega

theorem digitInjective {a b : Char} (digitA : a.isDigit = true) (digitB : b.isDigit = true)
    (same : a.toNat - '0'.toNat = b.toNat - '0'.toNat) : a = b := by
  simp only [Char.isDigit,Bool.and_eq_true,decide_eq_true_eq] at digitA digitB
  have lowA : 48 ≤ a.toNat := digitA.1
  have lowB : 48 ≤ b.toNat := digitB.1
  have zero : '0'.toNat = 48 := rfl
  exact Char.toNat_inj.mp (by omega)

theorem valueLt (digits : chars.all Char.isDigit = true) : Nat.ofDigitChars 10 chars 0 < 10 ^ chars.length := by
  induction chars with
  | nil => decide
  | cons c rest ih =>
    rw [all_cons,Bool.and_eq_true] at digits
    have head := digitValueLt digits.1
    have tail := ih digits.2
    rw [Nat.ofDigitChars_cons,Nat.ofDigitChars_eq_ofDigitChars_zero,length_cons,Nat.pow_succ,Nat.mul_zero,
      Nat.zero_add]
    have scaled := Nat.mul_le_mul_left (10 ^ rest.length) (Nat.le_of_lt_succ head)
    omega

theorem valueInjective {a b : List Char} (sameLength : a.length = b.length)
    (digitsA : a.all Char.isDigit = true) (digitsB : b.all Char.isDigit = true)
    (same : Nat.ofDigitChars 10 a 0 = Nat.ofDigitChars 10 b 0) : a = b := by
  induction a generalizing b with
  | nil => exact (length_eq_zero_iff.mp sameLength.symm).symm
  | cons c restA ih =>
    cases b with
    | nil => cases sameLength
    | cons d restB =>
      rw [all_cons,Bool.and_eq_true] at digitsA digitsB
      have lengths : restA.length = restB.length := Nat.succ.inj sameLength
      have smallA := valueLt digitsA.2
      have smallB := valueLt digitsB.2
      rw [Nat.ofDigitChars_cons,Nat.ofDigitChars_cons,Nat.ofDigitChars_eq_ofDigitChars_zero,
        Nat.ofDigitChars_eq_ofDigitChars_zero (l := restB),lengths] at same
      rw [lengths] at smallA
      -- the leading digit is the quotient by the weight of its place, the rest is the remainder
      have weight : 0 < 10 ^ restB.length := Nat.pow_pos (by decide)
      have quotients := congrArg (· / 10 ^ restB.length) same
      have remainders := congrArg (· % 10 ^ restB.length) same
      simp only [Nat.mul_add_div weight,Nat.div_eq_of_lt smallA,Nat.div_eq_of_lt smallB] at quotients
      simp only [Nat.mul_add_mod,Nat.mod_eq_of_lt smallA,Nat.mod_eq_of_lt smallB] at remainders
      rw [digitInjective digitsA.1 digitsB.1 (by omega),ih lengths digitsA.2 digitsB.2 remainders]

theorem readPadded (some' : 0 < width) (small : n < 10 ^ width) : read width (padded width n) = some n := by
  have digits : (padded width n).all Char.isDigit = true := all_eq_true.mpr fun _ mem => paddedDigit mem
  rw [read,if_pos ⟨paddedLength some' small,digits⟩,paddedValue]

theorem readSource (some' : 0 < width) (ok : read width chars = some n) : chars = padded width n ∧ n < 10 ^ width := by
  unfold read at ok
  split at ok
  · next form =>
    obtain ⟨length,digits⟩ := form
    cases ok
    have small := valueLt digits
    rw [length] at small
    refine ⟨valueInjective ?_ digits ?_ ?_,small⟩
    · rw [paddedLength some' small,length]
    · exact all_eq_true.mpr fun _ mem => paddedDigit mem
    · rw [paddedValue]
  · cases ok

end DecimalText
