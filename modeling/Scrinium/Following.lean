import Mathlib.Data.List.Basic

/-! Following a table whose rows carry numbers from one clock. A reader holds a set of keys and a cursor. -/
namespace Following
open List
variable {K : Type}

structure Table (K : Type) where
  live : K → Nat → Prop
  shown : K → Prop
  clock : Nat
  pruned : Nat

def Visible (t : Table K) (key : K) : Prop := (∃ n, t.live key n) ∧ t.shown key

/-- What changes may do: a row is as it was or has a number above the clock, and unless the watermark has
passed the clock every row is still there. -/
structure Evolves (t t' : Table K) : Prop where
  clock : t.clock ≤ t'.clock
  pruned : t.pruned ≤ t'.pruned
  rows : ∀ key n, t'.live key n → t.live key n ∧ (t'.shown key ↔ t.shown key) ∨ t.clock < n
  kept : t.clock < t'.pruned ∨ ∀ key n, t.live key n → (∃ n', t'.live key n') ∧ (t'.shown key ↔ t.shown key)

/-- Every shown row up to the cursor is in the set, and what the set has in excess was deleted later. -/
structure Follows (t : Table K) (set : List K) (cursor : Nat) : Prop where
  bounded : cursor ≤ t.clock
  complete : ∀ key n, t.live key n → t.shown key → n ≤ cursor → key ∈ set
  sound : cursor < t.pruned ∨ ∀ key ∈ set, Visible t key

structure Pulled (t : Table K) (cursor next : Nat) (changes : List K) : Prop where
  ordered : cursor ≤ next
  bounded : next ≤ t.clock
  complete : ∀ key n, t.live key n → cursor < n → n ≤ next → key ∈ changes
  sound : next < t.pruned ∨ ∀ key ∈ changes, ∃ n, t.live key n

structure Applying (t : Table K) (set : List K) (next : Nat) (rest : List K) : Prop where
  bounded : next ≤ t.clock
  complete : ∀ key n, t.live key n → t.shown key → n ≤ next → key ∈ set ∨ key ∈ rest
  sound : next < t.pruned ∨ (∀ key ∈ set, Visible t key) ∧ ∀ key ∈ rest, ∃ n, t.live key n

section
variable {t'} {t : Table K} {set rest changes cursor next}

variable {key n}

theorem visibleEvolves (kept : ∀ key n, t.live key n → (∃ n', t'.live key n') ∧ (t'.shown key ↔ t.shown key))
    (live : t.live key n) (shown : t.shown key) : Visible t' key := by
  obtain ⟨still,same⟩ := kept key n live
  exact ⟨still,same.mpr shown⟩

variable (e : Evolves t t')
include e

theorem rowBefore (live : t'.live key n) (within : n ≤ t.clock) : t.live key n ∧ (t'.shown key ↔ t.shown key) :=
  (e.rows key n live).resolve_right (Nat.not_lt.mpr within)

theorem followsEvolves (follows : Follows t set cursor) : Follows t' set cursor where
  bounded := Nat.le_trans follows.bounded e.clock
  complete := by
    intro key n live shown below
    obtain ⟨before,same⟩ := rowBefore e live (Nat.le_trans below follows.bounded)
    exact follows.complete key n before (same.mp shown) below
  sound := by
    rcases follows.sound with gap | all
    · exact .inl (Nat.lt_of_lt_of_le gap e.pruned)
    rcases e.kept with gap | kept
    · exact .inl (Nat.lt_of_le_of_lt follows.bounded gap)
    · refine .inr fun key mem => ?_
      obtain ⟨⟨n,live⟩,shown⟩ := all key mem
      exact visibleEvolves kept live shown

theorem pulledEvolves (pulled : Pulled t cursor next changes) : Pulled t' cursor next changes where
  ordered := pulled.ordered
  bounded := Nat.le_trans pulled.bounded e.clock
  complete := by
    intro key n live above below
    exact pulled.complete key n (rowBefore e live (Nat.le_trans below pulled.bounded)).1 above below
  sound := by
    rcases pulled.sound with gap | all
    · exact .inl (Nat.lt_of_lt_of_le gap e.pruned)
    rcases e.kept with gap | kept
    · exact .inl (Nat.lt_of_le_of_lt pulled.bounded gap)
    · refine .inr fun key mem => ?_
      obtain ⟨n,live⟩ := all key mem
      exact (kept key n live).1

theorem applyingEvolves (applying : Applying t set next rest) : Applying t' set next rest where
  bounded := Nat.le_trans applying.bounded e.clock
  complete := by
    intro key n live shown below
    obtain ⟨before,same⟩ := rowBefore e live (Nat.le_trans below applying.bounded)
    exact applying.complete key n before (same.mp shown) below
  sound := by
    rcases applying.sound with gap | ⟨all,some'⟩
    · exact .inl (Nat.lt_of_lt_of_le gap e.pruned)
    rcases e.kept with gap | kept
    · exact .inl (Nat.lt_of_le_of_lt applying.bounded gap)
    refine .inr ⟨fun key mem => ?_,fun key mem => ?_⟩
    · obtain ⟨⟨n,live⟩,shown⟩ := all key mem
      exact visibleEvolves kept live shown
    · obtain ⟨n,live⟩ := some' key mem
      exact (kept key n live).1

end

section
variable {t : Table K} {set rest changes cursor next}
theorem followsStart (numbered : ∀ key n, t.live key n → 0 < n) : Follows t [] 0 where
  bounded := Nat.zero_le _
  complete key n live _ zero := absurd (numbered key n live) (Nat.not_lt.mpr zero)
  sound := .inr nofun

theorem applyingStart (follows : Follows t set cursor) (pulled : Pulled t cursor next changes) (whole : t.pruned ≤ cursor) :
    Applying t set next changes where
  bounded := pulled.bounded
  complete := by
    intro key n live shown below
    by_cases old : n ≤ cursor
    · exact .inl (follows.complete key n live shown old)
    · exact .inr (pulled.complete key n live (Nat.lt_of_not_le old) below)
  sound := by
    have set' := follows.sound.resolve_left (Nat.not_lt.mpr whole)
    have changes' := pulled.sound.resolve_left (Nat.not_lt.mpr (Nat.le_trans whole pulled.ordered))
    exact .inr ⟨set',changes'⟩

theorem applyingAdmit {key admits} (applying : Applying t set next (key::rest))
    (takes : Visible t key → admits = true) (shows : ∀ n, t.live key n → admits = true → t.shown key) :
    Applying t (if admits then key::set else set) next rest where
  bounded := applying.bounded
  complete := by
    intro other n live shown below
    rcases applying.complete other n live shown below with held | pending
    · exact .inl (by split <;> simp [held])
    rcases mem_cons.mp pending with rfl | later
    · rw [takes ⟨⟨n,live⟩,shown⟩]
      exact .inl mem_cons_self
    · exact .inr later
  sound := by
    rcases applying.sound with gap | ⟨all,some'⟩
    · exact .inl gap
    refine .inr ⟨fun other mem => ?_,fun other mem => some' other (mem_cons_of_mem _ mem)⟩
    split at mem
    · next taken =>
      rcases mem_cons.mp mem with rfl | held
      · obtain ⟨n,live⟩ := some' other mem_cons_self
        exact ⟨⟨n,live⟩,shows n live taken⟩
      · exact all other held
    · exact all other mem

theorem followsApplied (applying : Applying t set next []) : Follows t set next where
  bounded := applying.bounded
  complete key n live shown below := (applying.complete key n live shown below).resolve_right (not_mem_nil)
  sound := applying.sound.imp id And.left

theorem followsWalk (walked : ∀ key, key ∈ set ↔ Visible t key) (before : cursor ≤ t.clock) : Follows t set cursor where
  bounded := before
  complete key n live shown _ := (walked key).mpr ⟨⟨n,live⟩,shown⟩
  sound := .inr fun key mem => (walked key).mp mem

/-- A follower that has reached every row and the watermark holds exactly what is visible. -/
theorem followsExactly (follows : Follows t set cursor) (top : ∀ key n, t.live key n → n ≤ cursor) (whole : t.pruned ≤ cursor)
    (key : K) : key ∈ set ↔ Visible t key := by
  constructor
  · exact (follows.sound.resolve_left (Nat.not_lt.mpr whole)) key
  · rintro ⟨⟨n,live⟩,shown⟩
    exact follows.complete key n live shown (top key n live)

end

end Following
