import Scrinium.ByteKeys
import Scrinium.Keyed

/-! The tables a custom index keeps of its own (engine/customindex over index/sqlite/customindex.go): the ext_data rows of
one extension, by table and key. -/
namespace Scrinium.Substrate
open Keyed ByteKeys List

abbrev Tables := Table (String × Bytes) Bytes

section
variable (t : Tables) (table : String)
def put (key value : Bytes) : Tables := t.insert (table,key) value
def get (key : Bytes) : Option Bytes := t.lookup (table,key)
def delete (key : Bytes) : Tables := t.erase (table,key)

def scan (low : Bytes) : List (Bytes × Bytes) :=
  ((t.entries.filter fun row => row.1.1 = table && inRange low row.1.2).map fun row => (row.1.2,row.2)).insertionSort
    fun a b => a.1 ≤ b.1

def errEmptyPrefix : String := "scrinium/index: empty prefix in DeletePrefix"

def deletePrefix (low : Bytes) : Except String Tables :=
  if low = [] then .error errEmptyPrefix else .ok (deleteWhere (fun row _ => row.1 = table && inRange low row.2) t)

end

section
variable {t table low key value}

@[simp] theorem getPut (name : String) (other : Bytes) :
    get (put t table key value) name other = if name = table ∧ other = key then some value else get t name other := by
  rw [get,put,lookupInsert]
  simp only [Prod.mk.injEq,get]

@[simp] theorem getDelete (name : String) (other : Bytes) :
    get (delete t table key) name other = if name = table ∧ other = key then none else get t name other := by
  rw [get,delete,lookupErase]
  simp only [Prod.mk.injEq,get]

theorem scanMem : (key,value) ∈ scan t table low ↔ get t table key = some value ∧ low <+: key := by
  rw [scan,mem_insertionSort,mem_map,get,lookupEntry]
  constructor
  · rintro ⟨row,mem,same⟩
    obtain ⟨held,picked⟩ := mem_filter.mp mem
    obtain ⟨rfl,inside⟩ := (Bool.and_eq_true_iff.mp picked).imp of_decide_eq_true id
    cases same
    exact ⟨held,(inRangeIff _ _).mp inside⟩
  · rintro ⟨held,starts⟩
    refine ⟨⟨(table,key),value⟩,mem_filter.mpr ⟨held,?_⟩,rfl⟩
    rw [decide_eq_true rfl,Bool.true_and]
    exact (inRangeIff _ _).mpr starts

theorem scanAscending : (scan t table low).Pairwise fun a b => a.1 < b.1 := by
  have sorted : (scan t table low).Pairwise fun a b => a.1 ≤ b.1 := by
    have total : Std.Total fun a b : Bytes × Bytes => a.1 ≤ b.1 := ⟨fun a b => le_total a.1 b.1⟩
    have trans : IsTrans (Bytes × Bytes) fun a b => a.1 ≤ b.1 := ⟨fun _ _ _ => le_trans⟩
    exact pairwise_insertionSort _ _
  have apart : (scan t table low).Pairwise fun a b => a.1 ≠ b.1 := by
    refine ((perm_insertionSort _ _).pairwise_iff (fun h => Ne.symm h)).mpr (pairwise_map.mpr ?_)
    have keys := (nodupKeys_iff_pairwise.mp t.nodupKeys).filter fun row => row.1.1 = table && inRange low row.1.2
    refine keys.imp_of_mem fun {a b} left right other same => other ?_
    have first := (Bool.and_eq_true_iff.mp (mem_filter.mp left).2).1
    have second := (Bool.and_eq_true_iff.mp (mem_filter.mp right).2).1
    exact Prod.ext ((of_decide_eq_true first).trans (of_decide_eq_true second).symm) same
  exact (sorted.and apart).imp fun both => lt_of_le_of_ne both.1 both.2

/-- The range holds exactly the keys that start with the prefix. A scan visits exactly these, once each and in ascending
order. DeletePrefix refuses the empty prefix and removes exactly these for any other. -/
theorem prefixExactly (t : Tables) (table : String) (low : Bytes) :
    (∀ key, inRange low key = true ↔ low <+: key) ∧
    (∀ key value, (key,value) ∈ scan t table low ↔ get t table key = some value ∧ low <+: key) ∧
    ((scan t table low).Pairwise fun a b => a.1 < b.1) ∧
    if low = [] then deletePrefix t table low = .error errEmptyPrefix
    else ∃ t', deletePrefix t table low = .ok t' ∧
      ∀ name key, get t' name key = if name = table ∧ low <+: key then none else get t name key := by
  refine ⟨inRangeIff low,fun key value => scanMem,scanAscending,?_⟩
  split
  · next empty => exact if_pos empty
  next filled =>
  refine ⟨_,if_neg filled,fun name key => ?_⟩
  rw [get,lookupDeleteWhere]
  by_cases gone : name = table ∧ low <+: key
  · simp [gone,(inRangeIff low key).mpr gone.2]
  have kept : (decide (name = table) && inRange low key) = false := by
    rw [Bool.and_eq_false_iff,decide_eq_false_iff_not,← Bool.not_eq_true,inRangeIff]
    exact not_and_or.mp gone
  rw [if_neg gone,get]
  cases t.lookup (name,key) <;> simp [kept]

theorem emptyPrefixRefused : [] <+: [(1 : UInt8)] ∧ deletePrefix (put ∅ "t" [1] [2]) "t" [] = .error errEmptyPrefix := by decide

end

end Scrinium.Substrate
