import Scrinium.Keyed

/-! Tables whose rows may belong to a group and carry distinct stamps, and the removal of a group's newest rows. -/
namespace Stamped
open Keyed List Option
variable {α β γ : Type} [DecidableEq α] [DecidableEq γ] {group : β → Option γ} {stamp : β → Nat}

def Distinct (stamp : β → Nat) (table : Table α β) : Prop :=
  ∀ {key key' row row'}, table.lookup key = some row → table.lookup key' = some row' → stamp row = stamp row' →
    key = key'

def newer (group : β → Option γ) (stamp : β → Nat) (table : Table α β) (g : γ) (t : Nat) : Nat :=
  countWhere (fun _ row => group row = some g && t < stamp row) table

structure Newest (group : β → Option γ) (stamp : β → Nat) (table : Table α β) (g : γ) (key : α) (row : β) : Prop where
  found : table.lookup key = some row
  member : group row = some g
  top : ∀ {other row'}, table.lookup other = some row' → group row' = some g → stamp row' ≤ stamp row

variable {table last : Table α β} {gs : List γ} {g : γ} {key : α} {row : β}

omit [DecidableEq γ] in
theorem newestUnique {key' row'} (distinct : Distinct stamp table)
    (first : Newest group stamp table g key row) (second : Newest group stamp table g key' row') : key = key' :=
  distinct first.found second.found
    (Nat.le_antisymm (second.top first.found first.member) (first.top second.found second.member))

inductive Popped (group : β → Option γ) (stamp : β → Nat) : Table α β → List γ → Table α β → Prop where
  | done (table : Table α β) : Popped group stamp table [] table
  | pop {table last : Table α β} {g : γ} {rest : List γ} {key : α} {row : β}
      (newest : Newest group stamp table g key row) (next : Popped group stamp (table.erase key) rest last) :
      Popped group stamp table (g::rest) last

theorem countErase (select : α → β → Bool) (found : table.lookup key = some row) :
    countWhere select table = countWhere select (table.erase key) + (select key row).toNat := by
  have mem : key ∈ table.entries.keys := memLookup.mpr ⟨row,found⟩
  obtain ⟨held,before,after,_,split,erased⟩ := exists_of_kerase mem
  have same : held = row := by
    have entry : (⟨key,held⟩ : Sigma fun _ : α => β) ∈ table.entries := by rw [split]; simp
    exact some.inj ((lookupEntry.mpr entry).symm.trans found)
  subst same
  have rest : (table.erase key).entries = before ++ after := erased
  unfold countWhere
  rw [rest,split,countP_append,countP_append,countP_cons]
  cases select key held with
  | false => simp
  | true => simp; omega

theorem distinctErase (distinct : Distinct stamp table) (key : α) : Distinct stamp (table.erase key) := by
  intro first second row row' found found' same
  exact distinct (lookupErased _ found).2 (lookupErased _ found').2 same

theorem newerTop (newest : Newest group stamp table g key row) : newer group stamp table g (stamp row) = 0 := by
  refine countP_eq_zero.mpr fun entry mem => ?_
  simp only [Bool.and_eq_true,decide_eq_true_eq,not_and,Nat.not_lt]
  exact fun member => newest.top (lookupEntry.mpr mem) member

theorem newerErase {h other row'} (distinct : Distinct stamp table)
    (newest : Newest group stamp table g key row) (found : table.lookup other = some row') (away : other ≠ key)
    (member : group row' = some h) :
    newer group stamp table h (stamp row') =
      newer group stamp (table.erase key) h (stamp row') + if h = g then 1 else 0 := by
  unfold newer
  rw [countErase _ newest.found]
  congr 1
  by_cases same : h = g
  · subst same
    have below : stamp row' < stamp row :=
      Nat.lt_of_le_of_ne (newest.top found member) fun equal => away (distinct found newest.found equal)
    simp [newest.member,below]
  · have apart : group row ≠ some h := fun equal => same (some.inj (equal.symm.trans newest.member))
    simp [apart,same]

/-- A row survives exactly when its group was named no more often than the group has newer rows. -/
theorem survives (distinct : Distinct stamp table) (popped : Popped group stamp table gs last) (key : α) (row : β) :
    last.lookup key = some row ↔
      table.lookup key = some row ∧ ∀ g, group row = some g → gs.count g ≤ newer group stamp table g (stamp row) := by
  induction popped with
  | done table => simp
  | @pop table last g rest top newestRow newest next ih =>
    rw [ih (distinctErase distinct top),lookupErase]
    by_cases same : key = top
    · -- the removed row is named once and has no newer one
      subst same
      rw [if_pos rfl]
      refine ⟨fun h => by simp at h,fun h => ?_⟩
      obtain ⟨found,bound⟩ := h
      cases some.inj (newest.found.symm.trans found)
      have zero := bound g newest.member
      rw [newerTop newest,count_cons_self] at zero
      omega
    · rw [if_neg same]
      refine and_congr_right fun found => forall₂_congr fun h member => ?_
      rw [newerErase distinct newest found same member,count_cons]
      by_cases named : h = g
      · subst named; simp
      · simp [named,Ne.symm named]

def NewestKind (group : β → Option γ) (stamp : β → Nat) (kind : β → Bool) (table : Table α β) : Prop :=
  ∀ key row other row' g, table.lookup key = some row → table.lookup other = some row' → group row = some g →
    group row' = some g → kind row = true → kind row' = false → stamp row' < stamp row

theorem countMono {p q} (le : ∀ key row, table.lookup key = some row → p key row = true → q key row = true) :
    countWhere p table ≤ countWhere q table :=
  countP_mono_left fun entry mem => le entry.1 entry.2 (lookupEntry.mpr mem)

theorem newerAntitone {a b} (le : a ≤ b) : newer group stamp table g b ≤ newer group stamp table g a := by
  refine countMono fun _ _ _ counted => ?_
  simp only [Bool.and_eq_true,decide_eq_true_eq] at counted ⊢
  exact ⟨counted.1,by omega⟩

theorem newerOfKind {kind}
    (order : NewestKind group stamp kind table) (found : table.lookup key = some row) (member : group row = some g)
    (mine : kind row = true) :
    newer group stamp table g (stamp row) + 1 ≤ countWhere (fun _ r => kind r && decide (group r = some g)) table := by
  have inside : newer group stamp table g (stamp row) ≤
      countWhere (fun _ r => kind r && decide (group r = some g) && decide (stamp row < stamp r)) table := by
    refine countMono fun k r held counted => ?_
    simp only [Bool.and_eq_true,decide_eq_true_eq] at counted ⊢
    refine ⟨⟨?_,counted.1⟩,counted.2⟩
    by_contra other
    have older := order key row k r g found held member counted.1 mine (Bool.eq_false_iff.mpr other)
    omega
  have fewer : countWhere (fun _ r => kind r && decide (group r = some g) && decide (stamp row < stamp r)) table
      + 1 ≤ countWhere (fun _ r => kind r && decide (group r = some g)) table :=
    countNarrowed (fun x narrow => (Bool.and_eq_true _ _ ▸ narrow).1) (lookupEntry.mp found) (by simp [mine,member])
      (by simp)
  omega

omit [DecidableEq α] in
theorem groupParts (group : β → Option γ) (table : Table α β) (kind : β → Bool) (g : γ) :
    countWhere (fun _ r => decide (group r = some g)) table =
      countWhere (fun _ r => kind r && decide (group r = some g)) table +
        countWhere (fun _ r => decide (group r = some g) && !kind r) table := by
  unfold countWhere
  rw [countP_eq_countP_filter_add _ _ fun entry => kind entry.2]
  simp only [countP_filter]
  congr 1
  refine countP_congr fun entry _ => ?_
  rw [Bool.and_comm]

/-- If each group is named once per row of a kind, the rows removed are those of the kind exactly when
these are the newest of their groups. -/
theorem removesKind (kind : β → Bool) (distinct : Distinct stamp table) (popped : Popped group stamp table gs last)
    (named : ∀ g, gs.count g = countWhere (fun _ row => kind row && decide (group row = some g)) table) :
    (∀ key row g, table.lookup key = some row → group row = some g → (last.lookup key = some row ↔ kind row = false)) ↔
      NewestKind group stamp kind table := by
  have removed : ∀ {key row g}, table.lookup key = some row → group row = some g →
      (last.lookup key = some row ↔ gs.count g ≤ newer group stamp table g (stamp row)) := by
    intro key row g found member
    rw [survives distinct popped,and_iff_right found]
    refine ⟨fun all => all g member,fun le h same => ?_⟩
    cases some.inj (member.symm.trans same)
    exact le
  constructor
  · intro exact key row other row' g found found' member member' mine foreign
    -- a foreign row that is newer would have fewer rows above it than a removed one
    by_contra above
    have gone : ¬ gs.count g ≤ newer group stamp table g (stamp row) := by
      rw [← removed found member,exact key row g found member,mine]
      decide
    have kept : gs.count g ≤ newer group stamp table g (stamp row') :=
      (removed found' member').mp ((exact other row' g found' member').mpr foreign)
    have fewer : newer group stamp table g (stamp row') ≤ newer group stamp table g (stamp row) :=
      newerAntitone (Nat.not_lt.mp above)
    omega
  · intro order key row g found member
    rw [removed found member,named]
    constructor
    · intro le
      cases mine : kind row with
      | false => rfl
      | true =>
        have above := newerOfKind order found member mine
        omega
    · intro foreign
      refine countMono fun k r held counted => ?_
      simp only [Bool.and_eq_true,decide_eq_true_eq] at counted ⊢
      exact ⟨counted.2,order k r key row g held found counted.2 member counted.1 foreign⟩

theorem poppedCount {p : β → Bool} (popped : Popped group stamp table gs last) (inside : ∀ row, p row = true → group row = some g) :
    countWhere (fun _ row => p row) table ≤ countWhere (fun _ row => p row) last + gs.count g := by
  induction popped with
  | done table => exact Nat.le_add_right _ _
  | @pop table last h rest key row newest next ih =>
    rw [countErase _ newest.found,count_cons]
    by_cases same : h = g
    · have bit := Bool.toNat_le (p row)
      simp only [same,beq_self_eq_true,if_true]
      omega
    · have apart : p row = false := by
        by_contra held
        exact same (some.inj (newest.member.symm.trans (inside row (Bool.not_eq_false _ ▸ held))))
      simp only [apart,Bool.toNat_false]
      omega

theorem poppedExactly (popped : Popped group stamp table gs last) (g : γ) :
    countWhere (fun _ row => decide (group row = some g)) table =
      countWhere (fun _ row => decide (group row = some g)) last + gs.count g := by
  induction popped with
  | done table => rfl
  | @pop table last h rest key row newest next ih =>
    rw [countErase _ newest.found,count_cons,ih,newest.member]
    by_cases same : h = g
    · simp [same]; omega
    · simp [same]

omit [DecidableEq γ] in
theorem poppedRows (popped : Popped group stamp table gs last) : last.entries.Sublist table.entries := by
  induction popped with
  | done table => exact .refl _
  | @pop table last h rest key row newest next ih => exact ih.trans (kerase_sublist key table.entries)

/-- If each group is named once per row of a kind, no row of the kind survives exactly when these rows
are the newest of their groups. -/
theorem clearsKind (kind : β → Bool) (distinct : Distinct stamp table) (popped : Popped group stamp table gs last)
    (named : ∀ g, gs.count g = countWhere (fun _ row => kind row && decide (group row = some g)) table) :
    (∀ key row g, last.lookup key = some row → group row = some g → kind row = false) ↔
      NewestKind group stamp kind table := by
  constructor
  · intro clean key row other row' g found found' member member' mine foreign
    by_contra above
    have removed : ∀ {k r}, table.lookup k = some r → group r = some g → stamp row ≤ stamp r → last.lookup k ≠ some r := by
      -- the row is removed, and a newer row of its group has fewer rows above it
      intro k r held same higher survivor
      have gone : ¬ last.lookup key = some row := fun still => by
        rw [clean key row g still member] at mine
        cases mine
      have kept := ((survives distinct popped k r).mp survivor).2 g same
      refine gone ((survives distinct popped key row).mpr ⟨found,fun h equal => ?_⟩)
      cases some.inj (member.symm.trans equal)
      exact Nat.le_trans kept (newerAntitone higher)
    -- so of the group only rows of another kind are left, and one of these is missing as well
    have left : countWhere (fun _ r => decide (group r = some g)) last ≤
        countWhere (fun k r => decide (group r = some g) && !kind r && decide (k ≠ other)) table := by
      have within : ∀ entry ∈ last.entries, decide (group entry.2 = some g) = true →
          (decide (group entry.2 = some g) && !kind entry.2 && decide (entry.1 ≠ other)) = true := by
        intro entry mem same
        have here := lookupEntry.mpr mem
        simp only [Bool.and_eq_true,Bool.not_eq_true',decide_eq_true_eq] at same ⊢
        refine ⟨⟨same,clean entry.1 entry.2 g here same⟩,?_⟩
        intro equal
        have before := ((survives distinct popped entry.1 entry.2).mp here).1
        rw [equal,found'] at before
        have row'' : row' = entry.2 := some.inj before
        rw [equal,← row''] at here
        exact removed found' member' (by omega) here
      exact Nat.le_trans (countP_mono_left within) ((poppedRows popped).countP_le)
    have fewer : countWhere (fun k r => decide (group r = some g) && !kind r && decide (k ≠ other)) table + 1 ≤
        countWhere (fun _ r => decide (group r = some g) && !kind r) table :=
      countNarrowed (fun x narrow => (Bool.and_eq_true _ _ ▸ narrow).1) (lookupEntry.mp found')
        (by simp [member',foreign]) (by simp)
    have parts := groupParts group table kind g
    have total := poppedExactly popped g
    rw [parts,named g] at total
    omega
  · intro order key row g survivor member
    have found := ((survives distinct popped key row).mp survivor).1
    exact (((removesKind kind distinct popped named).mpr order) key row g found member).mp survivor

section
variable {α : Type} {there there' : α → Nat → Prop} {xs : List α} {a : α}

/-- The list holds what is there, the greatest stamp first. -/
structure Ranked (there : α → Nat → Prop) (xs : List α) : Prop where
  listed : ∀ a, a ∈ xs ↔ ∃ n, there a n
  falling : xs.Pairwise fun a b => ∀ n k, there a n → there b k → k < n

theorem Ranked.first (ranked : Ranked there xs) {p : α → Bool} (found : xs.find? p = some a) :
    p a = true ∧ ∃ n, there a n ∧ ∀ b k, there b k → p b = true → b = a ∨ k < n := by
  obtain ⟨picked,before,after,rfl,none'⟩ := find?_eq_some_iff_append.mp found
  obtain ⟨n,here⟩ := (ranked.listed a).mp (by simp)
  refine ⟨picked,n,here,fun b k other kind => ?_⟩
  rcases mem_append.mp ((ranked.listed b).mpr ⟨k,other⟩) with early | late
  · have unpicked := none' b early
    rw [kind] at unpicked
    cases unpicked
  · refine (mem_cons.mp late).imp_right fun later => ?_
    exact rel_of_pairwise_cons (pairwise_append.mp ranked.falling).2.1 later n k here other

section
variable (ranked : Ranked there xs) {keep : α → Bool}
include ranked
theorem Ranked.filter (left : ∀ a n, there' a n ↔ keep a = true ∧ there a n) : Ranked there' (xs.filter keep) where
  listed a := by rw [mem_filter,ranked.listed,and_comm]; simp only [left,exists_and_left]
  falling := (ranked.falling.filter _).imp fun below n k first second =>
    below n k ((left _ _).mp first).2 ((left _ _).mp second).2

theorem Ranked.push {t} (added : ∀ b n, there' b n ↔ b = a ∧ n = t ∨ keep b = true ∧ there b n) (new : keep a = false)
    (above : ∀ b n, there b n → n < t) : Ranked there' (a::xs.filter keep) where
  listed b := by rw [mem_cons,mem_filter,ranked.listed,and_comm]; simp [added,exists_or]
  falling := by
    have old : ∀ {b n}, b ∈ xs.filter keep → there' b n → there b n := by
      intro b n mem held
      refine (((added b n).mp held).resolve_left fun both => ?_).2
      rw [both.1,mem_filter,new] at mem
      cases mem.2
    refine pairwise_cons.mpr ⟨fun b mem n k first second => ?_,?_⟩
    · rcases (added a n).mp first with ⟨_,rfl⟩ | ⟨kept,_⟩
      · exact above b k (old mem second)
      · cases new.symm.trans kept
    · exact (ranked.falling.filter _).imp_of_mem fun memB memC below n k first second =>
        below n k (old memB first) (old memC second)

end

end

end Stamped
