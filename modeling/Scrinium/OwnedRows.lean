import Scrinium.Keyed

/-! A table that is filled by items, each with rows of its own: an item writes its rows over what is there and takes its
keys out again. -/
namespace OwnedRows
open Keyed List
variable {κ υ ι : Type} [DecidableEq κ]

section

def puts (t : Table κ υ) (rows : List (κ × υ)) : Table κ υ := rows.foldl (fun t row => t.insert row.1 row.2) t
def drops (t : Table κ υ) (keys : List κ) : Table κ υ := keys.foldl (fun t key => t.erase key) t

def valueIn (rows : List (κ × υ)) (key : κ) : Option υ :=
  rows.foldl (fun found row => if row.1 = key then some row.2 else found) none

theorem valueCons (row : κ × υ) (rest : List (κ × υ)) (key : κ) :
    valueIn (row::rest) key = (valueIn rest key).or (if row.1 = key then some row.2 else none) := by
  suffices from' : ∀ found, rest.foldl (fun found row => if row.1 = key then some row.2 else found) found =
      (valueIn rest key).or found from from' _
  induction rest with
  | nil => exact fun _ => rfl
  | cons next rest ih =>
    intro found
    rw [valueIn,foldl_cons,foldl_cons,ih,ih,Option.or_assoc]
    split <;> rfl

theorem lookupPuts (t : Table κ υ) (rows : List (κ × υ)) (key : κ) :
    (puts t rows).lookup key = (valueIn rows key).or (t.lookup key) := by
  unfold puts
  induction rows generalizing t with
  | nil => rfl
  | cons row rest ih =>
    rw [foldl_cons,ih,lookupInsert,valueCons,Option.or_assoc]
    by_cases same : key = row.1
    · simp [same]
    · simp [same,Ne.symm same]

theorem lookupDrops (t : Table κ υ) (keys : List κ) (key : κ) :
    (drops t keys).lookup key = if key ∈ keys then none else t.lookup key := by
  unfold drops
  induction keys generalizing t with
  | nil => simp
  | cons first rest ih =>
    rw [foldl_cons,ih,lookupErase]
    by_cases same : key = first <;> simp [same]

variable {rows : List (κ × υ)} {key value}

theorem valueMem (found : valueIn rows key = some value) : (key,value) ∈ rows := by
  induction rows with
  | nil => cases found
  | cons row rest ih =>
    rw [valueCons,Option.or_eq_some_iff] at found
    rcases found with later | ⟨_,here⟩
    · exact mem_cons_of_mem row (ih later)
    split at here
    · next same =>
      cases here
      exact same ▸ mem_cons_self
    · cases here

theorem valueSome : (∃ value, valueIn rows key = some value) ↔ key ∈ rows.map Prod.fst := by
  constructor
  · rintro ⟨value,found⟩
    exact mem_map.mpr ⟨_,valueMem found,rfl⟩
  · intro mem
    induction rows with
    | nil => cases mem
    | cons row rest ih =>
      rw [valueCons]
      rcases mem_cons.mp mem with rfl | inside
      · cases later : valueIn rest row.1 <;> simp
      · obtain ⟨value,later⟩ := ih inside
        exact ⟨value,by rw [later,Option.some_or]⟩

theorem valueOnly (mem : (key,value) ∈ rows) (only : ∀ other, (key,other) ∈ rows → other = value) :
    valueIn rows key = some value := by
  obtain ⟨other,found⟩ := valueSome.mpr (mem_map.mpr ⟨_,mem,rfl⟩)
  rw [found,only other (valueMem found)]

end

section
variable {live live'} {rows : ι → List (κ × υ)} {t t'}
def Holds (live : ι → Prop) (rows : ι → List (κ × υ)) (t : Table κ υ) : Prop :=
  ∀ key value, t.lookup key = some value ↔ ∃ i, live i ∧ valueIn (rows i) key = some value

def Apart (live : ι → Prop) (rows : ι → List (κ × υ)) : Prop :=
  ∀ i j, live i → live j → ∀ key, key ∈ (rows i).map Prod.fst → key ∈ (rows j).map Prod.fst → i = j

theorem holdsSame (holds : Holds live rows t) (holds' : Holds live rows t') (key : κ) : t.lookup key = t'.lookup key := by
  refine Option.ext fun value => ?_
  rw [holds,holds']

theorem holdsEmpty (none : ∀ i, ¬ live i) : Holds live rows ∅ := by
  intro key value
  constructor
  · intro found
    rw [AList.lookup_empty] at found
    cases found
  · rintro ⟨i,alive,_⟩
    exact absurd alive (none i)

variable {on}

section
variable (on : κ → Prop) (live : ι → Prop) (rows : ι → List (κ × υ))
def HoldsOn (t : Table κ υ) : Prop :=
  ∀ key, on key → ∀ value, t.lookup key = some value ↔ ∃ i, live i ∧ valueIn (rows i) key = some value

def ApartOn : Prop :=
  ∀ i j, live i → live j → ∀ key, on key → key ∈ (rows i).map Prod.fst → key ∈ (rows j).map Prod.fst → i = j

end

theorem holdsOn (holds : Holds live rows t) : HoldsOn on live rows t := fun key _ => holds key

variable {i keys}

theorem holdsOnPuts (holds : HoldsOn on live rows t) (apart : ApartOn on live' rows) (gained : ∀ k, live' k ↔ live k ∨ k = i) :
    HoldsOn on live' rows (puts t (rows i)) := by
  intro key among value
  rw [lookupPuts,Option.or_eq_some_iff,holds key among]
  constructor
  · rintro (own | ⟨_,k,alive,found⟩)
    · exact ⟨i,(gained i).mpr (.inr rfl),own⟩
    · exact ⟨k,(gained k).mpr (.inl alive),found⟩
  · rintro ⟨k,alive,found⟩
    cases own : valueIn (rows i) key with
    | none =>
      refine .inr ⟨rfl,k,((gained k).mp alive).resolve_right fun same => ?_,found⟩
      rw [same,own] at found
      cases found
    | some mine =>
      have same := apart k i alive ((gained i).mpr (.inr rfl)) key among (valueSome.mp ⟨_,found⟩) (valueSome.mp ⟨_,own⟩)
      rw [same,own] at found
      exact .inl found

theorem holdsOnDrops (holds : HoldsOn on live rows t) (apart : ApartOn on live rows) (alive : live i)
    (lost : ∀ k, live' k ↔ live k ∧ k ≠ i) (own : ∀ key, on key → (key ∈ keys ↔ key ∈ (rows i).map Prod.fst)) :
    HoldsOn on live' rows (drops t keys) := by
  intro key among value
  rw [lookupDrops]
  constructor
  · intro found
    split at found
    · cases found
    next away =>
    obtain ⟨k,there,held⟩ := (holds key among value).mp found
    refine ⟨k,(lost k).mpr ⟨there,fun same => away ((own key among).mpr ?_)⟩,held⟩
    exact same ▸ valueSome.mp ⟨_,held⟩
  · rintro ⟨k,there,held⟩
    obtain ⟨before,other⟩ := (lost k).mp there
    rw [if_neg,(holds key among value).mpr ⟨k,before,held⟩]
    exact fun mine => other (apart k i before alive key among (valueSome.mp ⟨_,held⟩) ((own key among).mp mine))

theorem holdsPuts (holds : Holds live rows t) (apart : Apart live' rows) (gained : ∀ k, live' k ↔ live k ∨ k = i) :
    Holds live' rows (puts t (rows i)) := by
  have everywhere : HoldsOn (fun _ => True) live' rows (puts t (rows i)) :=
    holdsOnPuts (holdsOn holds) (fun a b left right key _ => apart a b left right key) gained
  exact fun key => everywhere key trivial

theorem holdsWritten (apart : Apart live rows) (order : List ι) (members : ∀ i, i ∈ order ↔ live i) :
    Holds live rows (order.foldl (fun t i => puts t (rows i)) ∅) := by
  suffices grows : ∀ (rest : List ι) (done : ι → Prop) (t : Table κ υ), Holds done rows t → (∀ i, done i → live i) →
      (∀ i ∈ rest, live i) → Holds (fun i => done i ∨ i ∈ rest) rows (rest.foldl (fun t i => puts t (rows i)) t) by
    have whole := grows order (fun _ => False) ∅ (holdsEmpty fun _ => id) (fun _ => False.elim) fun i mem => (members i).mp mem
    intro key value
    rw [whole key value]
    simp only [false_or,members]
  intro rest
  induction rest with
  | nil =>
    intro done t holds _ _
    simpa [Holds] using holds
  | cons i rest ih =>
    intro done t holds inside all
    have next := ih (fun k => done k ∨ k = i) (puts t (rows i))
      (holdsPuts holds (fun a b left right => apart a b
        (left.elim (inside a) fun same => same ▸ all i mem_cons_self)
        (right.elim (inside b) fun same => same ▸ all i mem_cons_self)) fun _ => Iff.rfl)
      (fun k alive => alive.elim (inside k) fun same => same ▸ all i mem_cons_self)
      fun k mem => all k (mem_cons_of_mem i mem)
    intro key value
    rw [foldl_cons,next key value]
    simp only [mem_cons,or_assoc]

end

end OwnedRows
