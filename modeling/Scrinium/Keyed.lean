import Mathlib.Data.List.AList

/-! Tables with a primary key, over association lists whose keys are distinct by construction. -/
namespace Keyed
open List
variable {α β : Type} [DecidableEq α]

abbrev Table (α β : Type) := AList (fun _ : α => β)
def insertNew (key : α) (row : β) (table : Table α β) : Table α β := if key ∈ table then table else table.insert key row

def update (key : α) (change : β → β) (table : Table α β) : Table α β :=
  match table.lookup key with
  | some row => table.insert key (change row)
  | none => table

def deleteWhere (select : α → β → Bool) (table : Table α β) : Table α β :=
  ⟨table.entries.filter fun entry => !select entry.1 entry.2,
    table.nodupKeys.sublist List.filter_sublist⟩

def updateAll (change : α → β → β) (table : Table α β) : Table α β :=
  ⟨table.entries.map (Sigma.map id change),List.NodupKeys.map₂ change table.entries table.nodupKeys⟩

def countWhere (select : α → β → Bool) (table : Table α β) : Nat :=
  table.entries.countP fun entry => select entry.1 entry.2

variable {table : Table α β} {key row}

theorem memLookup : key ∈ table ↔ ∃ row, table.lookup key = some row := by
  rw [← AList.lookup_isSome,Option.isSome_iff_exists]

theorem keyIn {keys value} (all : table.keys = keys) (held : table.lookup key = some value) : key ∈ keys :=
  all ▸ memLookup.mpr ⟨value,held⟩

theorem lookupEntry : table.lookup key = some row ↔ (⟨key, row⟩ : Sigma fun _ : α => β) ∈ table.entries :=
  AList.mem_lookup_iff

section
variable (table : Table α β)
theorem lookupInsert (key other : α) (row : β) :
    (table.insert key row).lookup other = if other = key then some row else table.lookup other := by
  split
  · next same => subst same; exact AList.lookup_insert table
  · next differ => exact AList.lookup_insert_ne differ

theorem lookupErase (key other : α) :
    (table.erase key).lookup other = if other = key then none else table.lookup other := by
  split
  · next same => subst same; exact AList.lookup_erase other table
  · next differ => exact AList.lookup_erase_ne differ

theorem lookupErased {other} (found : (table.erase key).lookup other = some row) :
    other ≠ key ∧ table.lookup other = some row := by
  rw [lookupErase] at found
  split at found
  · cases found
  · next away => exact ⟨away,found⟩

theorem lookupInsertNew (key other : α) (row : β) :
    (insertNew key row table).lookup other =
      if other = key then some ((table.lookup key).getD row) else table.lookup other := by
  unfold insertNew
  split
  · next taken =>
    obtain ⟨old, found⟩ := memLookup.mp taken
    split
    · next same => subst same; simp [found]
    · rfl
  · next free =>
    rw [lookupInsert,AList.lookup_eq_none.mpr free]
    rfl

theorem memInsertNew (key : α) (row : β) : key ∈ insertNew key row table := by
  rw [memLookup,lookupInsertNew]
  exact ⟨_, if_pos rfl⟩

theorem lookupUpdate (key other : α) (change : β → β) :
    (update key change table).lookup other =
      if other = key then (table.lookup key).map change else table.lookup other := by
  unfold update
  split
  · next row found => rw [lookupInsert,found]; rfl
  · next missing =>
    split
    · next same => rw [same,missing]; rfl
    · rfl

theorem lookupUpdateAll (change : α → β → β) (key : α) :
    (updateAll change table).lookup key = (table.lookup key).map (change key) :=
  dlookup_map₂ key

theorem lookupDeleteWhere (select : α → β → Bool) (key : α) :
    (deleteWhere select table).lookup key = (table.lookup key).filter fun row => !select key row := by
  apply Option.ext
  intro row
  rw [lookupEntry,Option.filter_eq_some_iff,lookupEntry]
  exact mem_filter

end

theorem countInsertFree (select : α → β → Bool) (row : β) (free : key ∉ table) :
    countWhere select (table.insert key row) = countWhere select table + (select key row).toNat := by
  unfold countWhere
  rw [AList.entries_insert_of_notMem free,countP_cons]
  cases select key row <;> rfl

theorem countInsertNewLe (table : Table α β) (select : α → β → Bool) (key : α) (row : β) :
    countWhere select (insertNew key row table) ≤ countWhere select table + (select key row).toNat := by
  unfold insertNew
  split
  · exact Nat.le_add_right _ _
  · next free => exact Nat.le_of_eq (countInsertFree select row free)

omit [DecidableEq α] in
theorem countDeleteWhere (table : Table α β) (select remove : α → β → Bool) :
    countWhere select table =
      countWhere select (deleteWhere remove table) +
        countWhere (fun key row => select key row && remove key row) table := by
  simp only [countWhere,deleteWhere,countP_filter]
  induction table.entries with
  | nil => rfl
  | cons entry rest ih =>
    simp only [countP_cons,ih]
    cases select entry.1 entry.2 <;> cases remove entry.1 entry.2 <;> simp <;> omega

theorem countPos {select} (found : table.lookup key = some row) (selected : select key row = true) :
    0 < countWhere select table :=
  countP_pos_iff.mpr ⟨_, lookupEntry.mp found, selected⟩

theorem countNarrowed {γ : Type} {p q} {items : List γ} (narrower : ∀ x, q x = true → p x = true)
    {item} (mem : item ∈ items) (counted : p item = true) (dropped : q item = false) :
    items.countP q + 1 ≤ items.countP p := by
  induction items with
  | nil => contradiction
  | cons first rest ih =>
    rw [countP_cons,countP_cons]
    rcases mem_cons.mp mem with rfl | later
    · have tail : rest.countP q ≤ rest.countP p := countP_mono_left fun x _ => narrower x
      simp only [counted,dropped]
      simpa using tail
    · have head : (if q first = true then 1 else 0) ≤ if p first = true then 1 else 0 := by
        split
        · next yes => rw [if_pos (narrower first yes)]
        · exact Nat.zero_le _
      have tail := ih later
      omega

def insertAll (source table : Table α β) : Table α β := source.entries.foldl (fun table entry => table.insert entry.1 entry.2) table

theorem lookupInsertAll (source table : Table α β) (key : α) :
    (insertAll source table).lookup key = (source.lookup key).or (table.lookup key) := by
  have rows : ∀ entries : List (Sigma fun _ : α => β), entries.NodupKeys → ∀ table : Table α β,
      (entries.foldl (fun table entry => table.insert entry.1 entry.2) table).lookup key =
        (entries.dlookup key).or (table.lookup key) := by
    intro entries
    induction entries with
    | nil => intro _ table; rfl
    | cons entry rest ih =>
      intro nodup table
      obtain ⟨fresh,tail⟩ := nodupKeys_cons.mp nodup
      rw [foldl_cons,ih tail,lookupInsert]
      by_cases same : key = entry.1
      · subst same
        rw [dlookup_eq_none.mpr fresh,dlookup_cons_eq]
        simp
      · rw [dlookup_cons_ne rest entry same,if_neg same]
  exact rows source.entries source.nodupKeys table

end Keyed
