import Scrinium.BreadthFirst
import Scrinium.ProvenanceRuns

/-! The two breadth-first walks along the edges of the provenance index (query.go). -/
namespace Scrinium.Provenance
open Keyed Domain SqliteIndex Substrate CustomIndexes Trace OwnedRows List
open ByteKeys (utf8 join cut)
open BreadthFirst (walk Exact walked)
open scoped ByteKeys

section

def split3 (key : Bytes) : Option (Bytes × Bytes × Bytes) := do
  let (a,rest) ← cut key
  let (b,c) ← cut rest
  if 0 ∈ c then none else return (a,b,c)

variable (t : Tables)

def scanChildren (id rel : Bytes) : List Bytes :=
  (scan t tableByParent (if rel = [] then id ++ [0] else join id rel ++ [0])).filterMap fun row =>
    (split3 row.1).map fun parts => parts.2.2

end

theorem split3Some {key a b c} : split3 key = some (a,b,c) ↔ key = join a (join b c) ∧ 0 ∉ a ∧ 0 ∉ b ∧ 0 ∉ c := by
  constructor
  · intro parts
    obtain ⟨⟨a',rest⟩,first,parts⟩ := Option.bind_eq_some_iff.mp parts
    obtain ⟨⟨b',c'⟩,second,parts⟩ := Option.bind_eq_some_iff.mp parts
    simp only at parts
    split at parts
    · cases parts
    next plain =>
    cases parts
    rw [ByteKeys.joinCut first,ByteKeys.joinCut second]
    exact ⟨rfl,ByteKeys.cutPlain first,ByteKeys.cutPlain second,plain⟩
  · rintro ⟨rfl,plainA,plainB,plainC⟩
    simp only [split3,ByteKeys.cutJoin plainA,ByteKeys.cutJoin plainB,Option.bind_eq_bind,Option.bind_some,if_neg plainC]
    rfl

section
variable (t : Tables)

def parents (id : Bytes) : List Bytes := (edgesOf t id).map fun edge => edge.2.1

def walkUp (id : Bytes) (depth : Int) (fuel : Nat) : Option (List (Bytes × Nat)) :=
  walk (parents t) depth fuel 1 ⟨[id],[id],[]⟩

def walkDown (id : Bytes) (depth : Int) (fuel : Nat) : Option (List (Bytes × Nat)) :=
  walk (fun cur => scanChildren t cur []) depth fuel 1 ⟨[id],[id],[]⟩

end

section
variable {t : Tables} {id n}

theorem parentEdge :
    n ∈ parents t id ↔ ∃ pos rel, 0 ∉ n ∧ get t tableByChild (join id pos) = some (join n rel) := by
  simp only [parents,edgesOf,mem_map,mem_filterMap]
  constructor
  · rintro ⟨⟨pos,parent,rel⟩,⟨⟨key,value⟩,mem,edge⟩,rfl⟩
    obtain ⟨⟨child,pos'⟩,cutKey,edge⟩ := Option.bind_eq_some_iff.mp edge
    obtain ⟨⟨parent',rel'⟩,cutValue,edge⟩ := Option.bind_eq_some_iff.mp edge
    cases edge
    obtain ⟨held,rest,rfl⟩ := scanMem.mp mem
    refine ⟨rest,rel',ByteKeys.cutPlain cutValue,?_⟩
    rw [← ByteKeys.joinCut cutValue,← held]
    simp [join]
  · rintro ⟨pos,rel,plain,held⟩
    obtain ⟨parts,cutKey⟩ := ByteKeys.cutSome id pos
    refine ⟨(parts.2,n,rel),⟨(join id pos,join n rel),scanMem.mpr ⟨held,pos,?_⟩,?_⟩,rfl⟩
    · simp [join]
    · simp [cutKey,ByteKeys.cutJoin plain]

theorem childEdge (plain : 0 ∉ id) :
    n ∈ scanChildren t id [] ↔
      ∃ rel value, 0 ∉ rel ∧ 0 ∉ n ∧ get t tableByParent (join id (join rel n)) = some value := by
  simp only [scanChildren,if_true,mem_filterMap]
  constructor
  · rintro ⟨⟨key,value⟩,mem,third⟩
    obtain ⟨⟨a,rel,child⟩,parts,rfl⟩ := Option.map_eq_some_iff.mp third
    obtain ⟨rfl,plainA,plainRel,plainChild⟩ := split3Some.mp parts
    obtain ⟨held,rest,same⟩ := scanMem.mp mem
    have own : join id rest = join a (join rel child) := by simpa [join] using same
    obtain ⟨rfl,_⟩ := ByteKeys.joinInj plain plainA own
    exact ⟨rel,value,plainRel,plainChild,held⟩
  · rintro ⟨rel,value,plainRel,plainChild,held⟩
    refine ⟨(_,value),scanMem.mpr ⟨held,join rel n,by simp [join]⟩,?_⟩
    rw [split3Some.mpr ⟨rfl,plain,plainRel,plainChild⟩]
    rfl

theorem scanInside {table low} {α : Type} (g : Bytes × Bytes → Option α) :
    (scan t table low).filterMap g ⊆ (scan t table []).filterMap g := by
  intro n mem
  obtain ⟨⟨key,value⟩,row,out⟩ := mem_filterMap.mp mem
  exact mem_filterMap.mpr ⟨(key,value),scanMem.mpr ⟨(scanMem.mp row).1, nil_prefix⟩,out⟩

end

theorem walksExact (t : Tables) (id : Bytes) (depth : Int) :
    (∃ enough calls, Exact (parents t) id depth calls ∧ ∀ fuel, enough ≤ fuel → walkUp t id depth fuel = some calls) ∧
    (∃ enough calls, Exact (fun cur => scanChildren t cur []) id depth calls ∧
      ∀ fuel, enough ≤ fuel → walkDown t id depth fuel = some calls) ∧
    (∀ cur n, n ∈ parents t cur ↔ ∃ pos rel, 0 ∉ n ∧ get t tableByChild (join cur pos) = some (join n rel)) ∧
    ∀ cur n, 0 ∉ cur → (n ∈ scanChildren t cur [] ↔
      ∃ rel value, 0 ∉ rel ∧ 0 ∉ n ∧ get t tableByParent (join cur (join rel n)) = some value) :=
  ⟨walked (fun _ => map_subset _ (scanInside _)) depth id,walked (fun _ => scanInside _) depth id,
    fun _ _ => parentEdge,fun _ _ plain => childEdge plain⟩

end Scrinium.Provenance
