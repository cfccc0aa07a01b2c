import Scrinium.CustomIndexes
import Scrinium.Vfsmeta

/-! The path index (x/fspath/fspathindex.go): the filesystem blocks of the manifests by artifact id, and their ids by
path. -/
namespace Scrinium.PathIndex
open List hiding after
open Keyed Domain SqliteIndex Substrate CustomIndexes Vfsmeta Trace
open ByteKeys (utf8 join cut)
open scoped ByteKeys

section
variable (j : Json) (t : Tables)
def tableByID : String := "byID"
def tableByPath : String := "byPath"

def index (m : Manifest) : Except Error Tables :=
  match decode j m.ext with
  | .error _ => .error (.other "fspathindex: decode ext")
  | .ok none => .ok t
  | .ok (some fs) =>
    .ok (put (put t tableByID (utf8 m.artifactID) m.ext) tableByPath (join (utf8 fs.path) (utf8 m.artifactID)) (utf8 m.artifactID))

def unindex (artifactID : String) : Tables :=
  match get t tableByID (utf8 artifactID) with
  | none => t
  | some raw =>
    match decode j raw with
    | .ok (some fs) => delete (delete t tableByID (utf8 artifactID)) tableByPath (join (utf8 fs.path) (utf8 artifactID))
    | _ => delete t tableByID (utf8 artifactID)

def lookup (p : Bytes) : List Bytes := (scan t tableByPath (p ++ [0])).map Prod.snd
def getByID (id : Bytes) : Option Bytes := get t tableByID id

structure Groups (α β : Type) where
  flushed : List (α × List β)
  current : Option (α × List β)

def collect {α β : Type} [DecidableEq α] (g : Groups α β) (row : α × β) : Groups α β :=
  match g.current with
  | none => {g with current := some (row.1,[row.2])}
  | some (path,ids) =>
    if row.1 ≠ path then ⟨g.flushed ++ [(path,ids)],some (row.1,[row.2])⟩ else {g with current := some (row.1,ids ++ [row.2])}

def Groups.all {α β : Type} (g : Groups α β) : List (α × List β) := g.flushed ++ g.current.toList

def scanPrefix (low : Bytes) : List (Bytes × List Bytes) :=
  (((scan t tableByPath low).filterMap fun row => (cut row.1).map fun parts => (parts.1,row.2)).foldl collect ⟨[],none⟩).all

end

section
variable {α β : Type} [LinearOrder α] [DecidableEq α]
def Groups.rows (g : Groups α β) : List (α × β) := g.all.flatMap fun group => group.2.map fun id => (group.1,id)

omit [LinearOrder α] in
theorem collectRows (g : Groups α β) (row : α × β) : (collect g row).rows = g.rows ++ [row] := by
  obtain ⟨flushed,current⟩ := g
  cases current with
  | none => simp [collect,Groups.rows,Groups.all]
  | some group =>
    obtain ⟨path,ids⟩ := group
    by_cases same : row.1 = path
    · subst same
      simp [collect,Groups.rows,Groups.all]
    · simp [collect,Groups.rows,Groups.all,same]

structure Ordered (g : Groups α β) : Prop where
  ascending : g.all.Pairwise fun a b => a.1 < b.1
  filled : ∀ group ∈ g.all, group.2 ≠ []
  started : g.current = none → g.flushed = []

variable {g : Groups α β} {rows : List (α × β)}

theorem collectOrdered (o : Ordered g) {row} (later : ∀ group ∈ g.all, group.1 ≤ row.1) : Ordered (collect g row) := by
  obtain ⟨flushed,current⟩ := g
  cases current with
  | none =>
    obtain rfl : flushed = [] := o.started rfl
    exact ⟨by simp [collect,Groups.all],by simp [collect,Groups.all],nofun⟩
  | some group =>
    obtain ⟨path,ids⟩ := group
    have ascending := o.ascending
    have filled := o.filled
    simp only [Groups.all,Option.toList_some] at ascending filled later
    by_cases same : row.1 = path
    · subst same
      simp only [collect,ne_eq,not_true_eq_false,if_false]
      refine ⟨?_,?_,nofun⟩
      · simpa [Groups.all,pairwise_append] using ascending
      intro group mem
      rcases mem_append.mp mem with old | new
      · exact filled group (mem_append_left _ old)
      · obtain rfl := mem_singleton.mp new
        simp
    · simp only [collect,ne_eq,same,not_false_eq_true,if_true]
      refine ⟨pairwise_append.mpr ⟨ascending,pairwise_singleton _ _,fun group mem other last => ?_⟩,?_,nofun⟩
      · obtain rfl := mem_singleton.mp last
        have top : path < row.1 := lt_of_le_of_ne (later (path,ids) (by simp)) (Ne.symm same)
        rcases mem_append.mp mem with old | new
        · exact ((pairwise_append.mp ascending).2.2 group old _ mem_cons_self).trans top
        · obtain rfl := mem_singleton.mp new
          exact top
      · intro group mem
        rcases mem_append.mp mem with old | new
        · exact filled group old
        · obtain rfl := mem_singleton.mp new
          simp

omit [LinearOrder α] [DecidableEq α] in
theorem rowsOfGroup {path id} : (path,id) ∈ g.rows ↔ ∃ ids, (path,ids) ∈ g.all ∧ id ∈ ids := by
  simp only [Groups.rows,mem_flatMap,mem_map]
  constructor
  · rintro ⟨group,mem,other,inside,same⟩
    cases same
    exact ⟨group.2,mem,inside⟩
  · rintro ⟨ids,mem,inside⟩
    exact ⟨(path,ids),mem,id,inside,rfl⟩

theorem collectedOrdered (o : Ordered g) (sorted : (g.rows ++ rows).Pairwise fun a b => a.1 ≤ b.1) :
    Ordered (rows.foldl collect g) ∧ (rows.foldl collect g).rows = g.rows ++ rows := by
  induction rows generalizing g with
  | nil => exact ⟨o,by simp⟩
  | cons row rest ih =>
    have later : ∀ group ∈ g.all, group.1 ≤ row.1 := fun group mem => by
      obtain ⟨id,inside⟩ := exists_mem_of_ne_nil _ (o.filled group mem)
      exact (pairwise_append.mp sorted).2.2 (group.1,id) (rowsOfGroup.mpr ⟨group.2,mem,inside⟩) row mem_cons_self
    have next := ih (collectOrdered o later) (by rw [collectRows,append_assoc]; exact sorted)
    rw [collectRows,append_assoc] at next
    exact next

omit [DecidableEq α] in
theorem oneGroup {groups : List (α × List β)} (ascending : groups.Pairwise fun a b => a.1 < b.1) {a b}
    (left : a ∈ groups) (right : b ∈ groups) (same : a.1 = b.1) : a = b := by
  have symm : Std.Symm fun a b : α × List β => a.1 ≠ b.1 := ⟨fun _ _ apart => apart.symm⟩
  have apart : groups.Pairwise fun a b => a.1 ≠ b.1 := ascending.imp ne_of_lt
  by_contra other
  exact apart.forall left right other same

theorem grouped [LinearOrder β] (sorted : rows.Pairwise fun a b => a.1 < b.1 ∨ a.1 = b.1 ∧ a.2 < b.2) :
    let groups := (rows.foldl collect ⟨[],none⟩).all
    groups.Pairwise (fun a b => a.1 < b.1) ∧ (∀ group ∈ groups, group.2 ≠ [] ∧ group.2.Pairwise (· < ·)) ∧
      ∀ path id, (path,id) ∈ rows ↔ ∃ ids, (path,ids) ∈ groups ∧ id ∈ ids := by
  have start : Ordered (⟨[],none⟩ : Groups α β) := ⟨List.Pairwise.nil,nofun,fun _ => rfl⟩
  have named : ((⟨[],none⟩ : Groups α β).rows ++ rows).Pairwise fun a b => a.1 ≤ b.1 :=
    sorted.imp fun before => before.elim le_of_lt fun same => same.1.le
  obtain ⟨o,same⟩ := collectedOrdered start named
  have flat : (rows.foldl collect ⟨[],none⟩).rows = rows := same
  refine ⟨o.ascending,fun group mem => ⟨o.filled group mem,?_⟩,fun path id => by rw [← rowsOfGroup,flat]⟩
  rw [← flat] at sorted
  have inside := (pairwise_flatMap.mp sorted).1 group mem
  exact (pairwise_map.mp inside).imp fun before => before.elim (fun less => absurd less (lt_irrefl _)) And.right

end

def indexer (j : Json) : Indexer := ⟨index j,unindex j⟩
def shown (j : Json) (m : Manifest) : Option FileSystem := if m.isContainer then none else block j m.ext

section
variable (j : Json) (σ : Live)
def Names (live : Table Key Manifest) (p id : Bytes) : Prop :=
  ∃ key m fs, live.lookup key = some m ∧ shown j m = some fs ∧ utf8 fs.path = p ∧ utf8 m.artifactID = id

structure Mirrors : Prop where
  lookups : ∀ p, (lookup σ.tables p).Pairwise (· < ·) ∧ ∀ id, id ∈ lookup σ.tables p ↔ Names j σ.manifests p id
  scans : ∀ q, 0 ∉ q → (scanPrefix σ.tables q).Pairwise (fun a b => a.1 < b.1) ∧
    (∀ p, (∃ ids, (p,ids) ∈ scanPrefix σ.tables q) ↔ q <+: p ∧ ∃ id, Names j σ.manifests p id) ∧
    ∀ p ids, (p,ids) ∈ scanPrefix σ.tables q → ids.Pairwise (· < ·) ∧ ∀ id, id ∈ ids ↔ Names j σ.manifests p id
  ids : ∀ id, (getByID σ.tables id).isSome ↔ ∃ p, Names j σ.manifests p id

end

section
variable {j live t}
structure Filed (j : Json) (live : Table Key Manifest) (t : Tables) : Prop where
  plain : ∀ {key m}, live.lookup key = some m → '\x00' ∉ m.artifactID.toList
  byPath : ∀ key value, get t tableByPath key = some value ↔ ∃ p, key = join p value ∧ Names j live p value
  byID : ∀ {id raw}, get t tableByID id = some raw → ∃ fs, decode j raw = .ok (some fs) ∧ Names j live (utf8 fs.path) id
  found : ∀ {p id}, Names j live p id → ∃ raw, get t tableByID id = some raw

variable {fs p id}

theorem pathPlain {ext} (found : block j ext = some fs) : 0 ∉ utf8 fs.path := by
  refine ByteKeys.utf8Plain fun nul => ?_
  have valid := blockValid found
  unfold Pathx.validatePath at valid
  split at valid
  · cases valid
  split at valid
  · cases valid
  · next none => exact none (contains_iff_mem.mpr nul)

theorem shownBlock {m} (found : shown j m = some fs) :
    m.isContainer = false ∧ block j m.ext = some fs ∧ decode j m.ext = .ok (some fs) := by
  unfold shown at found
  split at found
  · cases found
  next plain =>
  refine ⟨Bool.eq_false_iff.mpr plain,found,?_⟩
  unfold block at found
  split at found
  · next decoded => rw [decoded,found]
  · cases found

theorem namesPlain (c : Filed j live t) (n : Names j live p id) : 0 ∉ p ∧ 0 ∉ id := by
  obtain ⟨key,m,fs,live,block,rfl,rfl⟩ := n
  exact ⟨pathPlain (shownBlock block).2.1,ByteKeys.utf8Plain (c.plain live)⟩

theorem noneNamed : ¬ Names j ∅ p id := by
  rintro ⟨_,_,_,live,_⟩
  rw [AList.lookup_empty] at live
  cases live

theorem filedEmpty : Filed j ∅ ∅ where
  plain live := by simp at live
  byPath key value := by
    constructor
    · intro row
      simp [Substrate.get] at row
    · rintro ⟨_,_,names⟩
      exact absurd names noneNamed
  byID row := by simp [Substrate.get] at row
  found names := absurd names noneNamed

theorem lookupsExact (c : Filed j live t) (p : Bytes) :
    (lookup t p).Pairwise (· < ·) ∧ ∀ id, id ∈ lookup t p ↔ Names j live p id := by
  have key : ∀ {k v}, (k,v) ∈ scan t tableByPath (p ++ [0]) ↔ k = join p v ∧ Names j live p v := by
    intro k v
    rw [scanMem,c.byPath]
    constructor
    · rintro ⟨⟨p',rfl,names⟩,starts⟩
      obtain ⟨plain,plainId⟩ := namesPlain c names
      obtain rfl := (ByteKeys.joinPrefix plain plainId).mp starts
      exact ⟨rfl,names⟩
    · rintro ⟨rfl,names⟩
      obtain ⟨plain,plainId⟩ := namesPlain c names
      exact ⟨⟨p,rfl,names⟩,(ByteKeys.joinPrefix plain plainId).mpr rfl⟩
  constructor
  · refine pairwise_map.mpr (scanAscending.imp_of_mem fun {a b} left right less => ?_)
    obtain ⟨same,names⟩ := key.mp (show (a.1,a.2) ∈ _ from left)
    obtain ⟨same',_⟩ := key.mp (show (b.1,b.2) ∈ _ from right)
    obtain ⟨plain,_⟩ := namesPlain c names
    rw [same,same',ByteKeys.joinLt plain plain] at less
    exact less.elim (fun less => absurd less (lt_irrefl _)) And.right
  · intro id
    rw [lookup,mem_map]
    constructor
    · rintro ⟨⟨k,v⟩,mem,rfl⟩
      exact (key.mp mem).2
    · exact fun names => ⟨(join p id,id),key.mpr ⟨rfl,names⟩,rfl⟩

theorem scansExact (c : Filed j live t) (q : Bytes) (plainQ : 0 ∉ q) :
    (scanPrefix t q).Pairwise (fun a b => a.1 < b.1) ∧
    (∀ p, (∃ ids, (p,ids) ∈ scanPrefix t q) ↔ q <+: p ∧ ∃ id, Names j live p id) ∧
    ∀ p ids, (p,ids) ∈ scanPrefix t q → ids.Pairwise (· < ·) ∧ ∀ id, id ∈ ids ↔ Names j live p id := by
  have key : ∀ {k v}, (k,v) ∈ scan t tableByPath q ↔ ∃ p, k = join p v ∧ q <+: p ∧ Names j live p v := by
    intro k v
    rw [scanMem,c.byPath]
    constructor
    · rintro ⟨⟨p,rfl,names⟩,starts⟩
      exact ⟨p,rfl,(ByteKeys.joinPrefixPlain plainQ).mp starts,names⟩
    · rintro ⟨p,rfl,starts,names⟩
      exact ⟨⟨p,rfl,names⟩,(ByteKeys.joinPrefixPlain plainQ).mpr starts⟩
  generalize rows : ((scan t tableByPath q).filterMap fun row => (cut row.1).map fun parts => (parts.1,row.2)) = pairs
  have mem : ∀ p id, (p,id) ∈ pairs ↔ q <+: p ∧ Names j live p id := by
    intro p id
    rw [← rows,mem_filterMap]
    constructor
    · rintro ⟨⟨k,v⟩,inside,split⟩
      obtain ⟨p',rfl,starts,names⟩ := key.mp inside
      rw [ByteKeys.cutJoin (namesPlain c names).1] at split
      cases split
      exact ⟨starts,names⟩
    · rintro ⟨starts,names⟩
      exact ⟨(join p id,id),key.mpr ⟨p,rfl,starts,names⟩,by rw [ByteKeys.cutJoin (namesPlain c names).1]; rfl⟩
  have sorted : pairs.Pairwise fun a b => a.1 < b.1 ∨ a.1 = b.1 ∧ a.2 < b.2 := by
    rw [← rows]
    refine pairwise_filterMap.mpr (scanAscending.imp_of_mem fun {a b} left right less => ?_)
    obtain ⟨p,same,_,names⟩ := key.mp (show (a.1,a.2) ∈ _ from left)
    obtain ⟨p',same',_,names'⟩ := key.mp (show (b.1,b.2) ∈ _ from right)
    intro x first y second
    rw [same,ByteKeys.cutJoin (namesPlain c names).1] at first
    rw [same',ByteKeys.cutJoin (namesPlain c names').1] at second
    cases first
    cases second
    rwa [same,same',ByteKeys.joinLt (namesPlain c names).1 (namesPlain c names').1] at less
  obtain ⟨ascending,filled,content⟩ := grouped sorted
  rw [← rows] at ascending filled content
  refine ⟨ascending,fun p => ⟨?_,?_⟩,fun p ids inside => ⟨(filled _ inside).2,fun id => ?_⟩⟩
  · rintro ⟨ids,inside⟩
    obtain ⟨id,member⟩ := exists_mem_of_ne_nil _ (filled _ inside).1
    have row := (content p id).mpr ⟨ids,inside,member⟩
    rw [rows,mem] at row
    exact ⟨row.1,id,row.2⟩
  · rintro ⟨starts,id,names⟩
    obtain ⟨ids,inside,_⟩ := (content p id).mp (by rw [rows,mem]; exact ⟨starts,names⟩)
    exact ⟨ids,inside⟩
  · constructor
    · intro member
      have row := (content p id).mpr ⟨ids,inside,member⟩
      rw [rows,mem] at row
      exact row.2
    · intro names
      obtain ⟨first,member⟩ := exists_mem_of_ne_nil _ (filled _ inside).1
      have row := (content p first).mpr ⟨ids,inside,member⟩
      rw [rows,mem] at row
      obtain ⟨other,inside',member'⟩ := (content p id).mp (by rw [rows,mem]; exact ⟨row.1,names⟩)
      rwa [(Prod.mk.inj (oneGroup ascending inside inside' rfl)).2]

theorem filedMirrors {σ} (c : Filed j σ.manifests σ.tables) : Mirrors j σ where
  lookups := lookupsExact c
  scans := scansExact c
  ids id := by
    rw [getByID,Option.isSome_iff_exists]
    constructor
    · rintro ⟨raw,row⟩
      obtain ⟨fs,_,names⟩ := c.byID row
      exact ⟨_,names⟩
    · rintro ⟨p,names⟩
      exact c.found names

end

section
variable {j σ} {live live' : Table Key Manifest} {t t' key m}
def Spared (j : Json) (σ : Live) : Op → Prop
  | .index _ _ _ => True
  | .delete digest => ∀ key m, hexKey digest = .ok (some key) → σ.manifests.lookup key = some m →
    if m.artifactID = "" then
      ∀ fs, shown j m = some fs → ∃ other m' fs', other ≠ key ∧ σ.manifests.lookup other = some m' ∧ m'.artifactID = "" ∧
        shown j m' = some fs' ∧ fs'.path = fs.path
    else ∀ other m', other ≠ key → σ.manifests.lookup other = some m' → m'.artifactID = m.artifactID → shown j m' = none

def entered (j : Json) (t : Tables) (m : Manifest) : Tables :=
  match shown j m with
  | none => t
  | some fs => put (put t tableByID (utf8 m.artifactID) m.ext) tableByPath (join (utf8 fs.path) (utf8 m.artifactID)) (utf8 m.artifactID)

theorem appliedShown (ok : applyOwnIndexer (indexer j) t m = .ok t') : t' = entered j t m := by
  unfold applyOwnIndexer at ok
  unfold entered shown
  split at ok
  · next container =>
    rw [if_pos container]
    exact (Except.ok.inj ok).symm
  next plain =>
  rw [if_neg plain]
  simp only [indexer,index,block] at ok ⊢
  cases decoded : decode j m.ext with
  | error fault =>
    rw [decoded] at ok
    cases ok
  | ok found =>
    rw [decoded] at ok
    cases found <;> exact (Except.ok.inj ok).symm

section
variable (added : ∀ d, live'.lookup d = if d = key then some m else live.lookup d)
  (same : ∀ m', live.lookup key = some m' → m' = m)
include added same
theorem namesAdded {p id} : Names j live' p id ↔
    Names j live p id ∨ ∃ fs, shown j m = some fs ∧ utf8 fs.path = p ∧ utf8 m.artifactID = id := by
  constructor
  · rintro ⟨d,m',fs,found,block,path,handle⟩
    rw [added] at found
    split at found
    · cases found
      exact .inr ⟨fs,block,path,handle⟩
    · exact .inl ⟨d,m',fs,found,block,path,handle⟩
  · rintro (⟨d,m',fs,found,block,path,handle⟩ | ⟨fs,block,path,handle⟩)
    · refine ⟨d,m',fs,?_,block,path,handle⟩
      rw [added]
      split
      · next here => rw [same m' (here ▸ found)]
      · exact found
    · exact ⟨key,m,fs,by rw [added,if_pos rfl],block,path,handle⟩

theorem pathAdded (c : Filed j live t) (k value : Bytes) :
    get (entered j t m) tableByPath k = some value ↔ ∃ p, k = join p value ∧ Names j live' p value := by
  have apart : tableByPath ≠ tableByID := by decide
  simp only [namesAdded added same,entered]
  cases block : shown j m with
  | none => simpa using c.byPath k value
  | some fs =>
    simp only [getPut,apart,false_and,if_false,true_and]
    by_cases mine : k = join (utf8 fs.path) (utf8 m.artifactID)
    · rw [if_pos mine]
      constructor
      · rintro ⟨rfl⟩
        exact ⟨utf8 fs.path,mine,.inr ⟨fs,rfl,rfl,rfl⟩⟩
      · rintro ⟨p,spelled,old | ⟨fs',_,_,rfl⟩⟩
        · rw [(ByteKeys.joinInj (namesPlain c old).1 (pathPlain (shownBlock block).2.1) (spelled.symm.trans mine)).2]
        · rfl
    · rw [if_neg mine,c.byPath]
      constructor
      · rintro ⟨p,spelled,old⟩
        exact ⟨p,spelled,.inl old⟩
      · rintro ⟨p,spelled,old | ⟨fs',block',rfl,rfl⟩⟩
        · exact ⟨p,spelled,old⟩
        · cases block'
          exact absurd spelled mine

theorem idAdded (c : Filed j live t) {id raw} (row : get (entered j t m) tableByID id = some raw) :
    ∃ fs, decode j raw = .ok (some fs) ∧ Names j live' (utf8 fs.path) id := by
  have apart : tableByID ≠ tableByPath := by decide
  simp only [namesAdded added same]
  unfold entered at row
  cases block : shown j m with
  | none =>
    rw [block] at row
    obtain ⟨fs,decoded,old⟩ := c.byID row
    exact ⟨fs,decoded,.inl old⟩
  | some fs =>
    rw [block] at row
    simp only [getPut,apart,false_and,if_false,true_and] at row
    split at row
    · next mine =>
      cases row
      exact ⟨fs,(shownBlock block).2.2,.inr ⟨fs,rfl,rfl,mine.symm⟩⟩
    · obtain ⟨fs',decoded,old⟩ := c.byID row
      exact ⟨fs',decoded,.inl old⟩

theorem foundAdded (c : Filed j live t) {p id} (named : Names j live' p id) : ∃ raw, get (entered j t m) tableByID id = some raw := by
  have apart : tableByID ≠ tableByPath := by decide
  unfold entered
  rcases (namesAdded added same).mp named with old | ⟨fs,block,_,rfl⟩
  · obtain ⟨raw,row⟩ := c.found old
    cases block : shown j m with
    | none => exact ⟨raw,row⟩
    | some fs =>
      simp only [getPut,apart,false_and,if_false,true_and]
      split
      · exact ⟨_,rfl⟩
      · exact ⟨raw,row⟩
  · simp only [block,getPut,apart,false_and,if_false,true_and,if_true]
    exact ⟨_,rfl⟩

theorem filedAdded (c : Filed j live t) (plain : '\x00' ∉ m.artifactID.toList) (applied : applyOwnIndexer (indexer j) t m = .ok t') :
    Filed j live' t' := by
  rw [appliedShown applied]
  refine ⟨fun {d m'} found => ?_,pathAdded added same c,idAdded added same c,foundAdded added same c⟩
  rw [added] at found
  split at found
  · cases found
    exact plain
  · exact c.plain found

end

section
variable (c : Filed j live t) (removed : ∀ d, live'.lookup d = if d = key then none else live.lookup d)
  (found : live.lookup key = some m)
include c removed found

omit c found in
theorem namesRemoved {p id} : Names j live' p id ↔
    ∃ other m' fs, other ≠ key ∧ live.lookup other = some m' ∧ shown j m' = some fs ∧ utf8 fs.path = p ∧ utf8 m'.artifactID = id := by
  constructor
  · rintro ⟨d,m',fs,held,block,path,handle⟩
    rw [removed] at held
    split at held
    · cases held
    · next away => exact ⟨d,m',fs,away,held,block,path,handle⟩
  · rintro ⟨d,m',fs,away,held,block,path,handle⟩
    exact ⟨d,m',fs,by rw [removed,if_neg away,held],block,path,handle⟩

omit found in
theorem plainRemoved {d m'} (held : live'.lookup d = some m') : '\x00' ∉ m'.artifactID.toList := by
  rw [removed] at held
  split at held
  · cases held
  · exact c.plain held

theorem filedKept (named : ∀ fs, shown j m = some fs → ∃ other m' fs', other ≠ key ∧ live.lookup other = some m' ∧
    m'.artifactID = m.artifactID ∧ shown j m' = some fs' ∧ fs'.path = fs.path) : Filed j live' t := by
  have names : ∀ {p id}, Names j live' p id ↔ Names j live p id := by
    intro p id
    rw [namesRemoved removed]
    constructor
    · rintro ⟨d,m',fs,_,held,rest⟩
      exact ⟨d,m',fs,held,rest⟩
    · rintro ⟨d,m',fs,held,block,rfl,rfl⟩
      by_cases here : d = key
      · subst here
        cases someSame found held
        obtain ⟨other,m'',fs',away,held',handle,block',path⟩ := named fs block
        exact ⟨other,m'',fs',away,held',block',by rw [path],by rw [handle]⟩
      · exact ⟨d,m',fs,here,held,block,rfl,rfl⟩
  exact ⟨plainRemoved c removed,fun k v => by simpa only [names] using c.byPath k v,
    fun row => by simpa only [names] using c.byID row,fun n => c.found (names.mp n)⟩

section
variable (last : ∀ other m', other ≠ key → live.lookup other = some m' → m'.artifactID = m.artifactID → shown j m' = none)
include last

omit c removed in
theorem ownName {p} (named : Names j live p (utf8 m.artifactID)) : ∃ fs, shown j m = some fs ∧ utf8 fs.path = p := by
  obtain ⟨d,m',fs,held,block,rfl,handle⟩ := named
  by_cases here : d = key
  · subst here
    cases someSame found held
    exact ⟨fs,block,rfl⟩
  · have none := last d m' here held (ByteKeys.utf8Injective handle)
    rw [none] at block
    cases block

omit c in
theorem namesLeft {p id} : Names j live' p id ↔ Names j live p id ∧ id ≠ utf8 m.artifactID := by
  rw [namesRemoved removed]
  constructor
  · rintro ⟨d,m',fs,away,held,block,rfl,rfl⟩
    refine ⟨⟨d,m',fs,held,block,rfl,rfl⟩,fun handle => ?_⟩
    have none := last d m' away held (ByteKeys.utf8Injective handle)
    rw [none] at block
    cases block
  · rintro ⟨⟨d,m',fs,held,block,rfl,rfl⟩,other⟩
    refine ⟨d,m',fs,fun here => other ?_,held,block,rfl,rfl⟩
    subst here
    cases someSame found held
    rfl

theorem pathRemoved {fs : FileSystem} (named : Names j live (utf8 fs.path) (utf8 m.artifactID)) (k v : Bytes) :
    get (delete (delete t tableByID (utf8 m.artifactID)) tableByPath (join (utf8 fs.path) (utf8 m.artifactID))) tableByPath k =
      some v ↔ ∃ p, k = join p v ∧ Names j live' p v := by
  have apart : tableByPath ≠ tableByID := by decide
  obtain ⟨fs',block,path⟩ := ownName found last named
  simp only [namesLeft removed found last,getDelete,apart,false_and,if_false,true_and]
  split
  · next mine =>
    constructor
    · exact nofun
    · rintro ⟨p,spelled,n,other⟩
      exact absurd (ByteKeys.joinInj (namesPlain c n).1 (namesPlain c named).1 (spelled.symm.trans mine)).2 other
  · next away =>
    rw [c.byPath]
    constructor
    · rintro ⟨p,spelled,n⟩
      refine ⟨p,spelled,n,fun mine => away ?_⟩
      subst mine
      obtain ⟨fs'',block',path'⟩ := ownName found last n
      cases someSame block block'
      rw [spelled,← path',path]
    · rintro ⟨p,spelled,n,_⟩
      exact ⟨p,spelled,n⟩

theorem filedRemoved : Filed j live' (unindex j t m.artifactID) := by
  have apart : tableByID ≠ tableByPath := by decide
  have names {p id} : Names j live' p id ↔ _ := namesLeft removed found last
  unfold unindex
  split
  · next absent =>
    refine filedKept c removed found fun fs block => ?_
    obtain ⟨raw,row⟩ := c.found ⟨key,m,fs,found,block,rfl,rfl⟩
    rw [absent] at row
    cases row
  · next raw row =>
    obtain ⟨fs,decoded,named⟩ := c.byID row
    simp only [decoded]
    refine ⟨plainRemoved c removed,pathRemoved c removed found last named,fun {id raw'} held => ?_,fun {p id} n => ?_⟩
    · simp only [getDelete,apart,false_and,if_false,true_and] at held
      split at held
      · cases held
      · next other =>
        obtain ⟨fs'',decoded',n⟩ := c.byID held
        exact ⟨fs'',decoded',names.mpr ⟨n,other⟩⟩
    · obtain ⟨old,other⟩ := names.mp n
      simp only [getDelete,apart,false_and,if_false,true_and,other]
      exact c.found old

end

end

end

section
variable {j σ}
structure Coupled (j : Json) (σ : Live) : Prop where
  rowed : Rowed σ
  filed : Filed j σ.manifests σ.tables

theorem coupledEmpty : Coupled j Live.empty := ⟨rowedEmpty,filedEmpty⟩

theorem coupledIndex (c : Coupled j σ) {m path now} (lawful : Lawful σ (.index m path now)) :
    Coupled j (step (indexer j) σ (.index m path now)) := by
  refine ⟨rowedIndex c.rowed (lawfulHandle lawful),?_⟩
  rcases indexMeets (indexer j) σ m path now with same | ⟨tx,t,key,live,m1,next,applied,bound,_,added,known,stands⟩
  · rw [same]
    exact c.filed
  · cases lawfulSame lawful bound stands
    rw [next]
    exact filedAdded added known c.filed lawful.1 applied

variable {digest}

theorem coupledDelete (c : Coupled j σ) (spared : Spared j σ (.delete digest)) :
    Coupled j (step (indexer j) σ (.delete digest)) := by
  refine ⟨rowedDelete c.rowed digest,?_⟩
  rcases deleteMeets (x := indexer j) c.rowed digest with ⟨same,_⟩ | ⟨key,m,bound,found,next⟩
  · rw [same]
    exact c.filed
  rw [next]
  have removed : ∀ d, (σ.manifests.erase key).lookup d = if d = key then none else σ.manifests.lookup d := lookupErase _ _
  have condition := spared key m bound found
  unfold applyOwnUnindexer
  split at condition
  · next headless =>
    rw [if_pos headless]
    refine filedKept c.filed removed found fun fs block => ?_
    obtain ⟨other,m',fs',away,held,empty,rest⟩ := condition fs block
    exact ⟨other,m',fs',away,held,empty.trans headless.symm,rest⟩
  · next handled =>
    rw [if_neg handled]
    exact filedRemoved c.filed removed found condition

theorem sparedMirrors (c : Coupled j σ) (mirrors : Mirrors j (step (indexer j) σ (.delete digest))) :
    Spared j σ (.delete digest) := by
  intro key m bound found
  rcases deleteMeets (x := indexer j) c.rowed digest with ⟨_,absent⟩ | ⟨key',m',bound',found',next⟩
  · rw [absent key bound] at found
    cases found
  cases Option.some.inj (okSame bound bound')
  cases someSame found found'
  rw [next] at mirrors
  have removed : ∀ d, (σ.manifests.erase key).lookup d = if d = key then none else σ.manifests.lookup d := lookupErase _ _
  split
  · next headless =>
    intro fs block
    have before := ((lookupsExact c.filed (utf8 fs.path)).2 (utf8 m.artifactID)).mpr ⟨key,m,fs,found,block,rfl,rfl⟩
    have kept := ((mirrors.lookups (utf8 fs.path)).2 (utf8 m.artifactID)).mp (by simpa [applyOwnUnindexer,headless] using before)
    obtain ⟨other,m',fs',away,held,block',path,handle⟩ := (namesRemoved removed).mp kept
    exact ⟨other,m',fs',away,held,(ByteKeys.utf8Injective handle).trans headless,block',ByteKeys.utf8Injective path⟩
  · next handled =>
    intro other m' away held handle
    by_contra some'
    obtain ⟨fs,block⟩ := Option.ne_none_iff_exists'.mp some'
    have left : Names j (σ.manifests.erase key) (utf8 fs.path) (utf8 m.artifactID) :=
      (namesRemoved removed).mpr ⟨other,m',fs,away,held,block,rfl,by rw [handle]⟩
    have answered := (mirrors.ids (utf8 m.artifactID)).mpr ⟨_,left⟩
    have gone : getByID (applyOwnUnindexer (indexer j) σ.tables m.artifactID) (utf8 m.artifactID) = none := by
      have apart : tableByID ≠ tableByPath := by decide
      simp only [applyOwnUnindexer,if_neg handled,getByID,indexer,unindex]
      split
      · assumption
      · split
        · simp [apart]
        · simp
    rw [gone] at answered
    cases answered

/-- Along every run the queries of the path index answer for the live manifests exactly if every deletion takes the
last block of its handle (or a path that another manifest without handle names too). -/
theorem mirrorsExactly (j : Json) (ops : List Op) (lawful : Along (step (indexer j)) Lawful Live.empty ops) :
    (∀ n, Mirrors j (after (step (indexer j)) Live.empty (ops.take n))) ↔ Along (step (indexer j)) (Spared j) Live.empty ops := by
  have both : ∀ p : Live → Op → Prop, Along (step (indexer j)) p Live.empty ops ↔
      Along (step (indexer j)) (fun σ op => p σ op ∧ Lawful σ op) Live.empty ops := fun p => by
    rw [alongAnd]
    exact ⟨fun h => ⟨h,lawful⟩,And.left⟩
  have keep : ∀ σ op, Coupled j σ → Spared j σ op ∧ Lawful σ op → Coupled j (step (indexer j) σ op) := by
    intro σ op c ok
    cases op with
    | index m path now => exact coupledIndex c ok.2
    | delete digest => exact coupledDelete c ok.1
  rw [everywhereIff (filedMirrors coupledEmpty.filed),both,both (Spared j)]
  refine alongIff keep (fun σ op c => and_congr_left fun fine => ?_) coupledEmpty
  cases op with
  | index m path now => exact ⟨fun _ => trivial,fun _ => filedMirrors (coupledIndex c fine).filed⟩
  | delete digest => exact ⟨sparedMirrors c,fun spared => filedMirrors (coupledDelete c spared).filed⟩

end

def sampleJson : Json :=
  { unmarshalObject := fun raw => some ((∅ : Table String Bytes).insert Vfsmeta.key raw)
    marshalObject := fun obj => obj.lookup Vfsmeta.key
    unmarshalWire := fun raw => match raw with
      | [1] => some ⟨1,"a",0,0,0,none,""⟩
      | [2] => some ⟨1,"b",0,0,0,none,""⟩
      | _ => none
    marshalWire := fun _ => none }

def sampleFile (digest : String) (ext : Bytes) : Manifest :=
  { artifactID := "x", name := "", digest := digest, identityNonce := [], sessionID := "", createdAt := some 10
    contentHash := "00000102", originalSize := 2, hashAlgo := "sha256", blobRefs := [], handleRefs := [], layout := .inline
    pipeline := [], inlineBlob := [1,2], retentionUntil := none, ext := ext, usr := [] }

def sharedHandle : List Op := [.index (sampleFile "01" [1]) "" 10,.index (sampleFile "02" [2]) "" 20,.delete "01"]

theorem deletedPathStays :
    (after (step (indexer sampleJson)) Live.empty sharedHandle).tx.manifests.keys = [[2]] ∧
    (shown sampleJson (sampleFile "02" [2])).map FileSystem.path = some "b" ∧
    lookup (after (step (indexer sampleJson)) Live.empty sharedHandle).tables (utf8 "a") = [utf8 "x"] ∧
    lookup (after (step (indexer sampleJson)) Live.empty sharedHandle).tables (utf8 "b") = [] ∧
    getByID (after (step (indexer sampleJson)) Live.empty sharedHandle).tables (utf8 "x") = none := by
  decide +kernel

def movedHandle : List Op := [.index (sampleFile "01" [1]) "" 10,.delete "01",.index (sampleFile "02" [2]) "" 20]
def movedFirst : Live := step (indexer sampleJson) Live.empty (.index (sampleFile "01" [1]) "" 10)

theorem movedMirrors : (∀ n, Mirrors sampleJson (after (step (indexer sampleJson)) Live.empty (movedHandle.take n))) ∧
    lookup (after (step (indexer sampleJson)) Live.empty movedHandle).tables (utf8 "b") = [utf8 "x"] := by
  have one : movedFirst.manifests.keys = [[1]] := by decide +kernel
  have none : (step (indexer sampleJson) movedFirst (.delete "01")).manifests.keys = [] := by decide +kernel
  refine ⟨(mirrorsExactly sampleJson movedHandle ?_).mpr ?_,by decide +kernel⟩
  · refine alongCons.mpr ⟨⟨by decide,nofun⟩,alongCons.mpr ⟨trivial,alongCons.mpr ⟨⟨by decide,fun key m' _ held => ?_⟩,nofun⟩⟩⟩
    cases keyIn none held
  refine alongCons.mpr ⟨trivial,alongCons.mpr ⟨fun key m _ found => ?_,alongCons.mpr ⟨trivial,nofun⟩⟩⟩
  have here := mem_singleton.mp (keyIn one found)
  split
  · next headless =>
    have named : (movedFirst.manifests.lookup [1]).map Manifest.artifactID = some "x" := by decide +kernel
    rw [← here,movedFirst,found,Option.map_some,headless] at named
    exact absurd (Option.some.inj named) (by decide)
  · intro other m' away held
    exact absurd ((mem_singleton.mp (keyIn one held)).trans here.symm) away

end Scrinium.PathIndex
