import Mathlib.Data.List.Infix
import Mathlib.Data.List.Sort
import Mathlib.Logic.Function.Basic

/-! Hierarchies given by their entries alone. A path is a list of names with the entry's own name first, so that the
directories above an entry are the suffixes of its path. -/
namespace Hierarchy
open List hiding after
open Function

section
variable {α : Type} [LinearOrder α]
def insertSorted (name : α) : List α → List α
  | [] => [name]
  | first::rest =>
    if name = first then first::rest
    else if name < first then name::first::rest
    else first::insertSorted name rest

variable {name other} {names : List α}

theorem memInsertSorted : other ∈ insertSorted name names ↔ other = name ∨ other ∈ names := by
  induction names with
  | nil => simp [insertSorted]
  | cons first rest ih =>
    unfold insertSorted
    split
    · next same =>
      subst same
      simp
    · split
      · simp
      · rw [mem_cons,ih,mem_cons]
        tauto

theorem sortedInsert (sorted : names.Pairwise (· < ·)) : (insertSorted name names).Pairwise (· < ·) := by
  induction names with
  | nil => exact pairwise_singleton _ _
  | cons first rest ih =>
    obtain ⟨least,tail⟩ := pairwise_cons.mp sorted
    unfold insertSorted
    split
    · exact sorted
    next differ =>
    split
    · next before =>
      refine pairwise_cons.mpr ⟨fun other mem => ?_,sorted⟩
      rcases mem_cons.mp mem with rfl | later
      · exact before
      · exact before.trans (least other later)
    · next after =>
      refine pairwise_cons.mpr ⟨fun other mem => ?_,ih tail⟩
      rcases memInsertSorted.mp mem with rfl | later
      · exact lt_of_le_of_ne (not_lt.mp after) (Ne.symm differ)
      · exact least other later

theorem memEraseSorted (sorted : names.Pairwise (· < ·)) : other ∈ names.erase name ↔ other ≠ name ∧ other ∈ names := by
  have once : names.Nodup := sorted.imp fun before => before.ne
  exact once.mem_erase_iff

theorem sortedUnique {others} (sorted : names.Pairwise (· < ·)) (sortedOthers : others.Pairwise (· < ·))
    (same : ∀ name, name ∈ names ↔ name ∈ others) : names = others := by
  have once : names.Nodup := sorted.imp fun before => before.ne
  have onceOthers : others.Nodup := sortedOthers.imp fun before => before.ne
  exact ((perm_ext_iff_of_nodup once onceOthers).mpr same).eq_of_pairwise
    (fun _ _ _ _ before after => absurd after (not_lt.mpr before.le)) sorted sortedOthers

end

section
variable {α β : Type} {own : List α → Option β} {path dir} {leaf : List α} {name : α}
def Inner (own : List α → Option β) (path : List α) : Prop := ∃ leaf, own leaf ≠ none ∧ path <:+ leaf ∧ path ≠ leaf
def Occupied (own : List α → Option β) (path : List α) : Prop := path = [] ∨ ∃ leaf, own leaf ≠ none ∧ path <:+ leaf

theorem occupiedIff : Occupied own path ↔ path = [] ∨ own path ≠ none ∨ Inner own path := by
  refine or_congr_right ⟨?_,?_⟩
  · rintro ⟨leaf,held,below⟩
    by_cases same : path = leaf
    · exact .inl (same ▸ held)
    · exact .inr ⟨leaf,held,below,same⟩
  · rintro (held | ⟨leaf,held,below,_⟩)
    · exact ⟨path,held,suffix_refl path⟩
    · exact ⟨leaf,held,below⟩

theorem childNotAbove : ¬ name::dir <:+ dir := fun under => absurd under.length_le (by simp)

theorem childApart : dir ≠ name::dir := fun same => absurd (congrArg List.length same) (by simp)

theorem strictlyBelow : dir <:+ leaf ∧ dir ≠ leaf ↔ ∃ name, name::dir <:+ leaf := by
  constructor
  · rintro ⟨⟨front,rfl⟩,differ⟩
    rcases eq_nil_or_concat front with rfl | ⟨init,name,rfl⟩
    · exact absurd rfl differ
    · exact ⟨name,init,by simp⟩
  · rintro ⟨name,below⟩
    refine ⟨(suffix_cons name dir).trans below,?_⟩
    rintro rfl
    exact childNotAbove below

theorem innerIff : Inner own dir ↔ ∃ name, Occupied own (name::dir) := by
  constructor
  · rintro ⟨leaf,held,below⟩
    obtain ⟨name,child⟩ := strictlyBelow.mp below
    exact ⟨name,.inr ⟨leaf,held,child⟩⟩
  · rintro ⟨name,root | ⟨leaf,held,child⟩⟩
    · cases root
    · exact ⟨leaf,held,strictlyBelow.mpr ⟨name,child⟩⟩

theorem occupiedParent (occupied : Occupied own (name::dir)) : Occupied own dir := by
  rw [occupiedIff]
  exact .inr (.inr (innerIff.mpr ⟨name,occupied⟩))

variable [DecidableEq α]

variable {b}

theorem occupiedInsert : Occupied (update own leaf (some b)) path ↔ Occupied own path ∨ path <:+ leaf := by
  constructor
  · rintro (root | ⟨other,held,below⟩)
    · exact .inl (.inl root)
    by_cases same : other = leaf
    · exact .inr (same ▸ below)
    · rw [update_of_ne same] at held
      exact .inl (.inr ⟨other,held,below⟩)
  · rintro ((root | ⟨other,held,below⟩) | above)
    · exact .inl root
    · refine .inr ⟨other,?_,below⟩
      by_cases same : other = leaf
      · rw [same,update_self]
        exact Option.some_ne_none b
      · rw [update_of_ne same]
        exact held
    · refine .inr ⟨leaf,?_,above⟩
      rw [update_self]
      exact Option.some_ne_none b

theorem innerInsert : Inner (update own leaf (some b)) path ↔ Inner own path ∨ path <:+ leaf ∧ path ≠ leaf := by
  simp only [innerIff,strictlyBelow,occupiedInsert,exists_or]

end

theorem updateSome {α β : Type} [DecidableEq α] {t : α → Option β} {p q : α} {v : Option β} {n : β} :
    Function.update t p v q = some n ↔ q = p ∧ v = some n ∨ q ≠ p ∧ t q = some n := by
  by_cases here : q = p
  · simp [here]
  · simp [here]

end Hierarchy
