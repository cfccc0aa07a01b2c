import Scrinium.Provenance

/-! The tables of the provenance index along runs of registrations and deletions, against those a rebuild writes from the
manifests that are left. -/
namespace Scrinium.Provenance
open List hiding after
open Keyed Domain SqliteIndex Substrate CustomIndexes Trace OwnedRows Function
open ByteKeys (utf8 join cut)
open scoped ByteKeys

section
variable (lib : Library) (cfg : Config)
def shownRecord (m : Manifest) : Option Record :=
  if m.isContainer then none
  else match recordOf lib m with
    | .ok found => found
    | .error _ => none

def Recorded (live : Table Key Manifest) (r : Record) : Prop :=
  ∃ key m, live.lookup key = some m ∧ shownRecord lib m = some r

def indexAll (order : List Manifest) : Tables :=
  order.foldl (fun t m =>
    match applyOwnIndexer (indexer lib cfg) t m with
    | .ok t' => t'
    | .error _ => t) ∅

def Rebuilt (σ : Live) : Prop :=
  ∀ order : List Manifest, order.Perm (σ.manifests.entries.map Sigma.snd) →
    ∀ table key, get σ.tables table key = get (indexAll lib cfg order) table key

def DoneExact (T : Set (List Bytes)) (σ : Live) : Prop :=
  ∀ (pkey : String) (inputs : List String) id, inputs.map utf8 ∈ T →
    (done lib σ.tables pkey inputs = some id ↔ pkey ≠ "" ∧ ∃ r, Recorded lib σ.manifests r ∧ r.outcome = opsOK ∧
      r.pkey = utf8 pkey ∧ r.edges.map Prod.fst = inputs.map utf8 ∧ r.child = id)

def Alike (live : Table Key Manifest) : Prop :=
  ∀ r r', Recorded lib live r → Recorded lib live r' → (r.child = r'.child ∨ SameWork lib r r') → r = r'

def Spared (σ : Live) : Op → Prop
  | .index _ _ _ => True
  | .delete digest => ∀ key m, hexKey digest = .ok (some key) → σ.manifests.lookup key = some m → m.artifactID ≠ "" →
    ∀ other m', other ≠ key → σ.manifests.lookup other = some m' → m'.artifactID = m.artifactID → shownRecord lib m' = none

def Valid (m : Manifest) : Prop :=
  (∀ ref ∈ m.handleRefs, '\x00' ∉ ref.toList) ∧
    ∀ b, decode lib m.ext = .ok (some b) → '\x00' ∉ b.pkey.toList ∧ '\x00' ∉ b.outcome.toList

def Sound (T : Set (List Bytes)) (σ : Live) (op : Op) : Prop :=
  Lawful σ op ∧ match op with
    | .index m _ _ => Valid lib m ∧ ∀ r, shownRecord lib m = some r → r.edges.map Prod.fst ∈ T
    | .delete _ => True

end

variable {m r}

section
variable {lib cfg t t'}

section
variable (shown : shownRecord lib m = some r)
include shown
theorem shownOf : ∃ b, decode lib m.ext = .ok (some b) ∧ b.rel.length = m.handleRefs.length ∧
    m.artifactID ≠ "" ∧ (∀ rel ∈ b.rel, '\x00' ∉ rel.toList) ∧
    r = ⟨utf8 m.artifactID,(m.handleRefs.map utf8).zip (b.rel.map utf8),utf8 b.pkey,utf8 b.outcome,b.repro⟩ := by
  unfold shownRecord at shown
  split at shown
  · cases shown
  split at shown
  · next found ok =>
    subst shown
    unfold recordOf at ok
    split at ok
    · cases ok
    · cases ok
    next b decoded =>
    split at ok
    · cases ok
    next valid =>
    split at ok
    · cases ok
    next named =>
    split at ok
    · cases ok
    next plain =>
    cases ok
    refine ⟨b,decoded,?_,named,fun rel mem nul => plain (any_eq_true.mpr ⟨rel,mem,contains_iff_mem.mpr nul⟩),rfl⟩
    unfold Block.validate at valid
    split at valid
    · cases valid
    split at valid
    · cases valid
    · next same => exact not_not.mp same
  · cases shown

theorem shownChild : r.child = utf8 m.artifactID := by
  obtain ⟨_,_,_,_,_,rfl⟩ := shownOf shown
  rfl

theorem shownPlain (handle : '\x00' ∉ m.artifactID.toList) (valid : Valid lib m) : r.Plain := by
  obtain ⟨b,decoded,_,_,rels,rfl⟩ := shownOf shown
  refine ⟨ByteKeys.utf8Plain handle,fun edge mem => ?_,ByteKeys.utf8Plain (valid.2 b decoded).1,ByteKeys.utf8Plain (valid.2 b decoded).2⟩
  obtain ⟨parent,rel⟩ := of_mem_zip (show (edge.1,edge.2) ∈ _ from mem)
  obtain ⟨ref,listed,refText⟩ := mem_map.mp parent
  obtain ⟨kind,named,kindText⟩ := mem_map.mp rel
  exact ⟨refText ▸ ByteKeys.utf8Plain (valid.1 ref listed),kindText ▸ ByteKeys.utf8Plain (rels kind named)⟩

end

theorem appliedRecord (ok : applyOwnIndexer (indexer lib cfg) t m = .ok t') : t' =
    match shownRecord lib m with
    | none => t
    | some r => puts t (rows lib (utf8 cfg.supersede) r) := by
  unfold applyOwnIndexer at ok
  unfold shownRecord
  split at ok
  · next container =>
    rw [if_pos container]
    exact (Except.ok.inj ok).symm
  next plain =>
  rw [if_neg plain]
  simp only [indexer,index] at ok
  cases read : recordOf lib m with
  | error err =>
    rw [read] at ok
    cases ok
  | ok found =>
    rw [read] at ok
    cases found <;> exact (Except.ok.inj ok).symm

theorem failedRecord {err} (failed : applyOwnIndexer (indexer lib cfg) t m = .error err) : shownRecord lib m = none := by
  unfold applyOwnIndexer at failed
  unfold shownRecord
  split at failed
  · cases failed
  next plain =>
  rw [if_neg plain]
  simp only [indexer,index] at failed
  cases read : recordOf lib m with
  | error err => rfl
  | ok found =>
    rw [read] at failed
    cases found <;> cases failed

theorem indexAllRecords (order : List Manifest) : indexAll lib cfg order =
    (order.filterMap (shownRecord lib)).foldl (fun t r => puts t (rows lib (utf8 cfg.supersede) r)) ∅ := by
  unfold indexAll
  generalize (∅ : Tables) = t
  induction order generalizing t with
  | nil => rfl
  | cons m rest ih =>
    rw [foldl_cons,ih]
    cases applied : applyOwnIndexer (indexer lib cfg) t m with
    | error err => rw [filterMap_cons_none (failedRecord applied)]
    | ok t' =>
      rw [appliedRecord applied]
      cases shown : shownRecord lib m with
      | none => rw [filterMap_cons_none shown]
      | some r => rw [filterMap_cons_some shown,foldl_cons]

end

variable {σ : Live} {live : Table Key Manifest}

section
variable {lib} {cfg : Config}
theorem alikeApart (plain : ∀ r, Recorded lib live r → r.Plain) (alike : Alike lib live) (sup : Bytes) :
    Apart (Recorded lib live) (rows lib sup) := by
  intro r r' left right key own own'
  exact alike r r' left right (sharedKey (plain r left) (plain r' right) (rowsKey.mp own) (rowsKey.mp own'))

theorem holdsRebuilt (plain : ∀ r, Recorded lib σ.manifests r → r.Plain) (alike : Alike lib σ.manifests)
    (holds : Holds (Recorded lib σ.manifests) (rows lib (utf8 cfg.supersede)) σ.tables) : Rebuilt lib cfg σ := by
  intro order same table key
  refine holdsSame holds ?_ (table,key)
  rw [indexAllRecords]
  refine holdsWritten (alikeApart plain alike _) _ fun r => ?_
  rw [mem_filterMap]
  constructor
  · rintro ⟨m,mem,shown⟩
    obtain ⟨entry,inside,rfl⟩ := mem_map.mp (same.mem_iff.mp mem)
    exact ⟨entry.1,entry.2,lookupEntry.mpr inside,shown⟩
  · rintro ⟨key,m,found,shown⟩
    exact ⟨m,same.mem_iff.mpr (mem_map.mpr ⟨⟨key,m⟩,lookupEntry.mp found,rfl⟩),shown⟩

variable {T : Set (List Bytes)}

theorem holdsDone (apart : Set.InjOn (inputsKeyOf lib) T) (listed : ∀ r, Recorded lib σ.manifests r → r.edges.map Prod.fst ∈ T)
    (holds : Holds (Recorded lib σ.manifests) (rows lib (utf8 cfg.supersede)) σ.tables) : DoneExact lib T σ := by
  intro pkey inputs id asked
  unfold done
  split
  · next empty => exact ⟨nofun,fun both => absurd empty both.1⟩
  next named =>
    rw [Substrate.get,holds]
    simp only [inputsKeyOf,workValue (hexPlain _)]
    constructor
    · rintro ⟨r,alive,⟨result,_⟩,pkey',inputs',rfl⟩
      exact ⟨named,r,alive,result,pkey'.symm,(apart asked (listed r alive) inputs').symm,rfl⟩
    · rintro ⟨_,r,alive,result,pkey',inputs',rfl⟩
      refine ⟨r,alive,⟨result,fun empty => named ?_⟩,pkey'.symm,?_,rfl⟩
      · rw [empty] at pkey'
        exact ByteKeys.utf8Injective pkey'.symm
      · rw [Record.inputsKey,inputs',inputsKeyOf]

end

section
variable {lib cfg}
theorem lastTwo {α : Type} {items : List α} {a b : α} (left : a ∈ items) (right : b ∈ items) (apart : a ≠ b) :
    ∃ rest, (rest ++ [a,b]).Perm items := by
  obtain ⟨s,t,rfl⟩ := append_of_mem left
  have inside : b ∈ s ++ t := by
    rcases mem_append.mp right with before | after
    · exact mem_append_left t before
    · exact mem_append_right s ((mem_cons.mp after).resolve_left (Ne.symm apart))
  obtain ⟨u,v,split⟩ := append_of_mem inside
  refine ⟨u ++ v,?_⟩
  calc (u ++ v ++ [a,b]).Perm ([a,b] ++ (u ++ v)) := perm_append_comm
    _ = a::b::(u ++ v) := rfl
    _ |>.Perm (a::(u ++ b::v)) := (perm_middle.symm).cons a
    _ = a::(s ++ t) := by rw [split]
    _ |>.Perm (s ++ a::t) := perm_middle.symm

variable {table key value}

theorem indexAllLast {m} (shown : shownRecord lib m = some r) (before : List Manifest)
    (own : valueIn (rows lib (utf8 cfg.supersede) r) (table,key) = some value) :
    get (indexAll lib cfg (before ++ [m])) table key = some value := by
  rw [indexAllRecords,filterMap_append,filterMap_cons_some shown,filterMap_nil,foldl_append,
    foldl_cons,foldl_nil,Substrate.get,lookupPuts,own,Option.some_or]

theorem rebuiltAgree (rebuilt : Rebuilt lib cfg σ) {r' : Record} (left : Recorded lib σ.manifests r)
    (right : Recorded lib σ.manifests r') {value' : Bytes}
    (own : valueIn (rows lib (utf8 cfg.supersede) r) (table,key) = some value)
    (own' : valueIn (rows lib (utf8 cfg.supersede) r') (table,key) = some value') : value = value' := by
  obtain ⟨d,m,found,shown⟩ := left
  obtain ⟨d',m',found',shown'⟩ := right
  by_cases same : d = d'
  · subst same
    cases someSame found found'
    cases someSame shown shown'
    exact someSame own own'
  have apart : (⟨d,m⟩ : Sigma fun _ : Key => Manifest) ≠ ⟨d',m'⟩ := fun equal => same (congrArg Sigma.fst equal)
  obtain ⟨rest,order⟩ := lastTwo (lookupEntry.mp found) (lookupEntry.mp found') apart
  obtain ⟨rest',order'⟩ := lastTwo (lookupEntry.mp found') (lookupEntry.mp found) apart.symm
  have one := rebuilt ((rest.map Sigma.snd ++ [m]) ++ [m']) (by simpa using order.map Sigma.snd) table key
  have two := rebuilt ((rest'.map Sigma.snd ++ [m']) ++ [m]) (by simpa using order'.map Sigma.snd) table key
  rw [indexAllLast shown' _ own'] at one
  rw [indexAllLast shown _ own,one] at two
  exact (Option.some.inj two).symm

theorem rebuiltAlike {T : Set (List Bytes)} (apart : Set.InjOn (inputsKeyOf lib) T)
    (plain : ∀ r, Recorded lib σ.manifests r → r.Plain ∧ r.edges.map Prod.fst ∈ T) (rebuilt : Rebuilt lib cfg σ) : Alike lib σ.manifests := by
  intro r r' left right shared
  have child : r.child = r'.child := by
    rcases shared with same | work
    · exact same
    have own : valueIn (rows lib (utf8 cfg.supersede) r) (tableOps,okKey r.pkey (r.inputsKey lib)) = some r.child :=
      (workValue (hexPlain _)).mpr ⟨⟨work.result,work.named⟩,rfl,rfl,rfl⟩
    have own' : valueIn (rows lib (utf8 cfg.supersede) r') (tableOps,okKey r.pkey (r.inputsKey lib)) = some r'.child :=
      (workValue (hexPlain _)).mpr ⟨⟨work.result',work.pkey ▸ work.named⟩,work.pkey,work.inputs,rfl⟩
    exact rebuiltAgree rebuilt left right own own'
  have text : recordText lib r = recordText lib r' := rebuiltAgree rebuilt left right recordValue (child ▸ recordValue)
  have parts : (r.pkey,r.outcome,r.inputsKey lib) = (r'.pkey,r'.outcome,r'.inputsKey lib) := by
    rw [← splitText (plain r left).1,← splitText (plain r' right).1,text]
  obtain ⟨pkey,rest⟩ := Prod.mk.inj parts
  obtain ⟨outcome,inputs⟩ := Prod.mk.inj rest
  have repro : r.repro = r'.repro := by
    have flag : boolStr r.repro = boolStr r'.repro := by
      unfold recordText at text
      rw [pkey,outcome,inputs] at text
      exact (List.cons.inj (append_cancel_left (List.cons.inj (append_cancel_left
        (List.cons.inj (append_cancel_left text)).2)).2)).2
    cases h : r.repro <;> cases h' : r'.repro <;> rw [h,h'] at flag <;> first | rfl | exact absurd flag (by decide)
  have parents := apart (plain r left).2 (plain r' right).2 inputs
  have edges : r.edges = r'.edges := by
    refine ext_getElem? fun i => ?_
    have lengths : r.edges.length = r'.edges.length := by simpa using congrArg List.length parents
    cases at' : r.edges[i]? with
    | none =>
      rw [List.getElem?_eq_none_iff,lengths] at at'
      exact (List.getElem?_eq_none at').symm
    | some edge =>
      obtain ⟨inside,_⟩ := List.getElem?_eq_some_iff.mp at'
      obtain ⟨edge',there⟩ : ∃ edge', r'.edges[i]? = some edge' := ⟨_,List.getElem?_eq_getElem (lengths ▸ inside)⟩
      have row : valueIn (rows lib (utf8 cfg.supersede) r) (tableByChild,join r.child (padPos i)) = some (join edge.1 edge.2) :=
        childValue.mpr ⟨i,edge.1,edge.2,at',rfl,rfl⟩
      have row' : valueIn (rows lib (utf8 cfg.supersede) r') (tableByChild,join r.child (padPos i)) = some (join edge'.1 edge'.2) :=
        childValue.mpr ⟨i,edge'.1,edge'.2,there,by rw [child],rfl⟩
      have value := rebuiltAgree rebuilt left right row row'
      have same := ByteKeys.joinInj (edgePlain (plain r left).1 at').1 (edgePlain (plain r' right).1 there).1 value
      rw [there,Prod.ext same.1 same.2]
  cases r
  cases r'
  simp only at child pkey outcome repro edges
  rw [child,pkey,outcome,repro,edges]

end

section
variable {lib cfg}
structure Coupled (lib : Library) (cfg : Config) (T : Set (List Bytes)) (σ : Live) : Prop where
  rowed : Rowed σ
  listed : ∀ r, Recorded lib σ.manifests r → r.Plain ∧ r.edges.map Prod.fst ∈ T
  alike : Alike lib σ.manifests
  holds : Holds (Recorded lib σ.manifests) (rows lib (utf8 cfg.supersede)) σ.tables

variable {T : Set (List Bytes)}

theorem Coupled.plain (c : Coupled lib cfg T σ) (r : Record) (alive : Recorded lib σ.manifests r) : r.Plain := (c.listed r alive).1

theorem noneRecorded (r : Record) : ¬ Recorded lib Live.empty.manifests r := by
  rintro ⟨_,_,found,_⟩
  rw [Live.empty,AList.lookup_empty] at found
  cases found

variable {key digest}

theorem recordedAdded {live'} (added : ∀ d, live'.lookup d = if d = key then some m else live.lookup d)
    (known : ∀ m', live.lookup key = some m' → m' = m) (r : Record) :
    Recorded lib live' r ↔ Recorded lib live r ∨ shownRecord lib m = some r := by
  constructor
  · rintro ⟨d,m',found,shown⟩
    rw [added] at found
    split at found
    · cases found
      exact .inr shown
    · exact .inl ⟨d,m',found,shown⟩
  · rintro (⟨d,m',found,shown⟩ | shown)
    · refine ⟨d,m',?_,shown⟩
      rw [added]
      split
      · next here => rw [known m' (here ▸ found)]
      · exact found
    · exact ⟨key,m,by rw [added,if_pos rfl],shown⟩

theorem recordedErased (r : Record) : Recorded lib (live.erase key) r ↔
    ∃ d m', d ≠ key ∧ live.lookup d = some m' ∧ shownRecord lib m' = some r := by
  constructor
  · rintro ⟨d,m',held,shown⟩
    obtain ⟨away,held⟩ := lookupErased _ held
    exact ⟨d,m',away,held,shown⟩
  · rintro ⟨d,m',away,held,shown⟩
    exact ⟨d,m',by rw [lookupErase,if_neg away,held],shown⟩

theorem coupledEmpty : Coupled lib cfg T Live.empty :=
  ⟨rowedEmpty,fun r live => absurd live (noneRecorded r),fun r _ live => absurd live (noneRecorded r),holdsEmpty noneRecorded⟩

theorem coupledIndex (c : Coupled lib cfg T σ) {path now} (sound : Sound lib T σ (.index m path now)) :
    (∀ r, Recorded lib (step (indexer lib cfg) σ (.index m path now)).manifests r → r.Plain ∧ r.edges.map Prod.fst ∈ T) ∧
      (Alike lib (step (indexer lib cfg) σ (.index m path now)).manifests → Coupled lib cfg T (step (indexer lib cfg) σ (.index m path now))) := by
  obtain ⟨lawful,valid,inputs⟩ := sound
  have rowed : Rowed (step (indexer lib cfg) σ (.index m path now)) := rowedIndex c.rowed (lawfulHandle lawful)
  rcases indexMeets (indexer lib cfg) σ m path now with same | ⟨tx,t,key,live,m1,next,applied,bound,_,added,known,stands⟩
  · rw [same]
    exact ⟨c.listed,fun _ => c⟩
  cases lawfulSame lawful bound stands
  rw [next] at rowed ⊢
  have recorded : ∀ r, Recorded lib live r ↔ Recorded lib σ.manifests r ∨ shownRecord lib m = some r := recordedAdded added known
  have listed : ∀ r, Recorded lib live r → r.Plain ∧ r.edges.map Prod.fst ∈ T := fun r alive =>
    ((recorded r).mp alive).elim (c.listed r) fun shown => ⟨shownPlain shown lawful.1 valid,inputs r shown⟩
  refine ⟨listed,fun alike => ⟨rowed,listed,alike,?_⟩⟩
  simp only [appliedRecord applied]
  cases shown : shownRecord lib m with
  | none =>
    intro k value
    rw [c.holds k value]
    simp only [recorded,shown,reduceCtorEq,or_false]
  | some r =>
    refine holdsPuts c.holds (alikeApart (fun r alive => (listed r alive).1) alike _) fun k => ?_
    rw [recorded,shown,Option.some.injEq,eq_comm (a := r)]

theorem recordedErase {r} (alive : Recorded lib (σ.manifests.erase key) r) : Recorded lib σ.manifests r := by
  obtain ⟨d,m,_,found,shown⟩ := (recordedErased r).mp alive
  exact ⟨d,m,found,shown⟩

section
variable {p t} (found : live.lookup key = some m)
  (last : m.artifactID ≠ "" → ∀ d m', d ≠ key → live.lookup d = some m' → m'.artifactID = m.artifactID → shownRecord lib m' = none)
include found last
theorem erasedRecords (r : Record) :
    Recorded lib (live.erase key) r ↔ Recorded lib live r ∧ shownRecord lib m ≠ some r := by
  rw [recordedErased]
  constructor
  · rintro ⟨d,m',away,held,shown⟩
    refine ⟨⟨d,m',held,shown⟩,fun own => ?_⟩
    obtain ⟨_,_,_,named,_⟩ := shownOf own
    have handle : m'.artifactID = m.artifactID := ByteKeys.utf8Injective ((shownChild shown).symm.trans (shownChild own))
    rw [last named d m' away held handle] at shown
    cases shown
  · rintro ⟨⟨d,m',held,shown⟩,other⟩
    refine ⟨d,m',fun here => other ?_,held,shown⟩
    subst here
    cases someSame found held
    exact shown

theorem deletedHolds (graph : HoldsOn OnGraph (Recorded lib live) (rows lib (utf8 cfg.supersede)) t)
    (holds : HoldsOn p (Recorded lib live) (rows lib (utf8 cfg.supersede)) t)
    (apart : ApartOn p (Recorded lib live) (rows lib (utf8 cfg.supersede)))
    (drops' : ∀ r, shownRecord lib m = some r → ∃ keys, unindex cfg t m.artifactID = drops t keys ∧
      ∀ k, p k → (k ∈ keys ↔ k ∈ (rows lib (utf8 cfg.supersede) r).map Prod.fst)) :
    HoldsOn p (Recorded lib (live.erase key)) (rows lib (utf8 cfg.supersede))
      (applyOwnUnindexer (indexer lib cfg) t m.artifactID) := by
  -- with no record of the handle the tables and the records are as they were
  have still : shownRecord lib m = none →
      HoldsOn p (Recorded lib (live.erase key)) (rows lib (utf8 cfg.supersede)) t := fun none k among value => by
    rw [holds k among value]
    simp only [erasedRecords found last,none,ne_eq,reduceCtorEq,not_false_eq_true,and_true]
  unfold applyOwnUnindexer
  split
  · next headless =>
    refine still (Option.eq_none_iff_forall_ne_some.mpr fun r shown => ?_)
    obtain ⟨_,_,_,named,_⟩ := shownOf shown
    exact named headless
  next handled =>
  cases shown : shownRecord lib m with
  | none =>
    have absent : ∀ r, Recorded lib live r → r.child ≠ utf8 m.artifactID := by
      rintro r ⟨d,m',held,own⟩ child
      have handle : m'.artifactID = m.artifactID := ByteKeys.utf8Injective ((shownChild own).symm.trans child)
      by_cases here : d = key
      · subst here
        cases someSame found held
        rw [shown] at own
        cases own
      · rw [last handled d m' here held handle] at own
        cases own
    rw [show (indexer lib cfg).unindex t m.artifactID = t from unindexAbsent graph absent]
    exact still shown
  | some r =>
    obtain ⟨keys,dropped,own⟩ := drops' r shown
    rw [show (indexer lib cfg).unindex t m.artifactID = drops t keys from dropped]
    refine holdsOnDrops holds apart ⟨key,m,found,shown⟩ (fun k => ?_) own
    rw [erasedRecords found last,shown,ne_eq,Option.some.injEq,eq_comm (a := r)]

end

section
variable (c : Coupled lib cfg T σ)
include c
theorem deletedAlike (digest : String) :
    (∀ r, Recorded lib (step (indexer lib cfg) σ (.delete digest)).manifests r → r.Plain ∧ r.edges.map Prod.fst ∈ T) ∧
      Alike lib (step (indexer lib cfg) σ (.delete digest)).manifests := by
  rcases deleteMeets (x := indexer lib cfg) c.rowed digest with ⟨same,_⟩ | ⟨key,m,_,_,next⟩
  · rw [same]
    exact ⟨c.listed,c.alike⟩
  · rw [next]
    exact ⟨fun r alive => c.listed r (recordedErase alive),fun r r' left right => c.alike r r' (recordedErase left) (recordedErase right)⟩

theorem coupledDelete (spared : Spared lib σ (.delete digest)) :
    Coupled lib cfg T (step (indexer lib cfg) σ (.delete digest)) := by
  obtain ⟨listed,alike⟩ := deletedAlike c digest
  have rowed := rowedDelete (x := indexer lib cfg) c.rowed digest
  refine ⟨rowed,listed,alike,?_⟩
  rcases deleteMeets (x := indexer lib cfg) c.rowed digest with ⟨same,_⟩ | ⟨key,m,bound,found,next⟩
  · rw [same]
    exact c.holds
  rw [next]
  have apart := alikeApart c.plain c.alike (utf8 cfg.supersede)
  refine fun k => deletedHolds (p := fun _ => True) found (spared key m bound found) (holdsOn c.holds) (holdsOn c.holds)
    (fun r r' left right k _ => apart r r' left right k) (fun r shown => ?_) k trivial
  have alive : Recorded lib σ.manifests r := ⟨key,m,found,shown⟩
  obtain ⟨keys,dropped,own⟩ := unindexDrops (holdsOn c.holds) (fun r alive => (c.plain r alive).child) alive
    (c.plain r alive) (shownChild shown) fun r' there child => c.alike r' r there alive (.inl child)
  exact ⟨keys,dropped,fun k _ => own k⟩

theorem rebuiltSpared (rebuilt : Rebuilt lib cfg (step (indexer lib cfg) σ (.delete digest))) :
    Spared lib σ (.delete digest) := by
  intro key m bound found handled other m' away held handle
  by_contra some'
  obtain ⟨r,shown⟩ := Option.ne_none_iff_exists'.mp some'
  rcases deleteMeets (x := indexer lib cfg) c.rowed digest with ⟨_,absent⟩ | ⟨key',_,bound',found',next⟩
  · rw [absent key bound] at found
    cases found
  cases Option.some.inj (okSame bound bound')
  cases someSame found found'
  rw [next] at rebuilt
  have child : r.child = utf8 m.artifactID := (shownChild shown).trans (by rw [handle])
  have alive : Recorded lib σ.manifests r := ⟨other,m',held,shown⟩
  have one : ∀ r', Recorded lib σ.manifests r' → r'.child = r.child → r' = r := fun r' there same =>
    c.alike r' r there alive (.inl same)
  obtain ⟨keys,dropped,exact'⟩ := unindexDrops (holdsOn c.holds) (fun r alive => (c.plain r alive).child) alive (c.plain r alive) child one
  have gone : get (applyOwnUnindexer (indexer lib cfg) σ.tables m.artifactID) tableRecords r.child = none := by
    rw [applyOwnUnindexer,if_neg handled,show (indexer lib cfg).unindex σ.tables m.artifactID = drops σ.tables keys from dropped,
      Substrate.get,lookupDrops,if_pos ((exact' _).mpr (rowsKey.mpr .record))]
  have there : m' ∈ (σ.manifests.erase key).entries.map Sigma.snd :=
    mem_map.mpr ⟨⟨other,m'⟩,lookupEntry.mp (by rw [lookupErase,if_neg away,held]),rfl⟩
  obtain ⟨before,after',split⟩ := append_of_mem there
  have order : ((before ++ after') ++ [m']).Perm ((σ.manifests.erase key).entries.map Sigma.snd) := by
    rw [split]
    exact (perm_append_singleton _ _).trans perm_middle.symm
  have rebuiltRow := rebuilt _ order tableRecords r.child
  rw [indexAllLast shown _ recordValue,gone] at rebuiltRow
  cases rebuiltRow

end

end

section

def sampleLibrary : Library where
  pocket :=
    { unmarshalObject := fun raw => some ((∅ : Table String Bytes).insert "provenance" raw)
      marshalObject := fun obj => obj.lookup "provenance"
      unmarshalWire := fun _ => none
      marshalWire := fun _ => none }
  unmarshalBlock := fun _ => some ⟨1,["derived"],"op",[],"p",true,"",0⟩
  validJson := fun _ => true
  sha256 := id

def sampleConfig : Config := ⟨""⟩

def sampleResult (handle digest : String) : Manifest :=
  { artifactID := handle, name := "", digest := digest, identityNonce := [], sessionID := "", createdAt := some 10
    contentHash := "00000102", originalSize := 2, hashAlgo := "sha256", blobRefs := [], handleRefs := ["s"], layout := .inline
    pipeline := [], inlineBlob := [1,2], retentionUntil := none, ext := [1], usr := [] }

def twiceComputed : List Op := [.index (sampleResult "x" "01") "" 10,.index (sampleResult "y" "02") "" 20,.delete "02"]

variable {lib}

theorem aloneAlike {key} (one : live.keys = [key]) : Alike lib live := by
  rintro r r' ⟨d,m,found,shown⟩ ⟨d',m',found',shown'⟩ _
  cases mem_singleton.mp (keyIn one found)
  cases mem_singleton.mp (keyIn one found')
  cases someSame found found'
  exact someSame shown shown'

theorem clearedAlike (none : live.keys = []) : Alike lib live := by
  rintro r r' ⟨d,m,found,_⟩
  cases keyIn none found

def computedAgain : List Op := [.index (sampleResult "x" "01") "" 10,.delete "01",.index (sampleResult "y" "02") "" 20]

theorem sampleValid (handle digest : String) : Valid sampleLibrary (sampleResult handle digest) := by
  refine ⟨fun ref mem => ?_,fun b decoded => ?_⟩
  · rw [mem_singleton.mp mem]
    decide
  · have block : decode sampleLibrary [1] = .ok (some ⟨1,["derived"],"op",[],"p",true,"ok",0⟩) := by rfl
    cases Option.some.inj (okSame block decoded)
    exact ⟨by decide,by decide⟩

theorem sampleSound (handle digest : String) : Valid sampleLibrary (sampleResult handle digest) ∧
    ∀ r, shownRecord sampleLibrary (sampleResult handle digest) = some r → r.edges.map Prod.fst ∈ ({[utf8 "s"]} : Set (List Bytes)) := by
  refine ⟨sampleValid handle digest,fun r shown => ?_⟩
  obtain ⟨b,_,long,_,_,rfl⟩ := shownOf shown
  exact map_fst_zip (by simp [long])

def computedFirst : Live := step (indexer sampleLibrary sampleConfig) Live.empty (.index (sampleResult "x" "01") "" 10)
def computedNone : Live := step (indexer sampleLibrary sampleConfig) computedFirst (.delete "01")

end

end Scrinium.Provenance
