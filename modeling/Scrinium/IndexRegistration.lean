import Scrinium.SqliteIndex

/-! What a committed IndexManifest transaction writes: the keys it binds, and the pure update of the tables under those
keys. -/
namespace Scrinium.SqliteIndex
open Keyed Domain Trace List

structure BlobKeys where
  digest : Key
  content : Key
  refs : List Key

def blobKeys (m : Manifest) : Except Error BlobKeys := do
  let digest ← bindKey m.digest
  if m.layout = .inline then return ⟨digest,[],[]⟩
  else if m.blobRefs = [] then throw (.other "manifest has no BlobRefs")
  else return ⟨digest,← bindKey m.contentHash,← m.blobRefs.mapM bindKey⟩

abbrev Projections := List (String × List (String × String))

section
variable (indexes : List CustomIndex) (m : Manifest)
def projectionsOf : Except Error Projections := indexes.mapM fun ci => do return (ci.name,← ci.index m)

def observed : Except Error Projections := do
  if m.isContainer then return []
  else
    let projections ← projectionsOf indexes m
    dispatchCustomIndexes indexes (.manifestIndexed m)
    return projections

structure Registration where
  keys : BlobKeys
  projections : Projections

def registration : Except Error Registration := do
  return ⟨← blobKeys m,← observed indexes m⟩

end

def registerRefs (row : BlobRow) (refs : List Key) (blobs : Table Key BlobRow) : Table Key BlobRow :=
  refs.foldl (fun blobs key => bumpRefCount key (insertNew key row blobs)) blobs

def linkRefs {β : Type} (digest : Key) (refs : List (β × Nat)) (edges : Table (Key × Nat) β) : Table (Key × Nat) β :=
  refs.foldl (fun edges ref => insertNew (digest,ref.2) ref.1 edges) edges

def projectRows (digest : Key) (projections : Projections) (rows : Table (Key × String × String) String) :
    Table (Key × String × String) String :=
  projections.foldl (fun rows p => p.2.foldl (fun rows cell => rows.insert (digest,p.1,cell.1) cell.2) rows) rows

def register (tx : Index) (m : Manifest) (path : String) (now : Instant) (r : Registration) : Index :=
  { blobs := registerRefs (blobRow m r.keys.content path now) r.keys.refs tx.blobs
    manifests := update r.keys.digest (fun row => {row with csn := tx.csn + 1})
      (insertNew r.keys.digest (manifestRow m r.keys.refs.head? now) tx.manifests)
    manifestBlobs := linkRefs r.keys.digest r.keys.refs.zipIdx tx.manifestBlobs
    manifestHandles := linkRefs r.keys.digest m.handleRefs.zipIdx tx.manifestHandles
    projExt := projectRows r.keys.digest r.projections tx.projExt
    csn := tx.csn + 1
    pruneCsn := tx.pruneCsn }

variable {key m path digest now} {refs : List String} {tx tx' indexes r}

theorem bindKeyOk {text} : bindKey text = .ok key ↔ hexKey text = .ok (some key) := by
  unfold bindKey
  cases h : hexKey text with
  | error e => simp [bind,Except.bind]
  | ok value => cases value <;> simp [bind,Except.bind,notNull]

theorem registerBlobBound {content} (bound : bindKey m.contentHash = .ok content) (path : String) (now : Instant) :
    registerBlob m path now = fun blobs ref => do
      return (fun blobs key => bumpRefCount key (insertNew key (blobRow m content path now) blobs))
        blobs (← bindKey ref) := by
  funext blobs ref
  unfold registerBlob bindKey
  rw [bindKeyOk.mp bound]
  cases hexKey ref with
  | error e => rfl
  | ok value =>
    cases value with
    | none => rfl
    | some key =>
      simp only [bind,Except.bind,notNull,memInsertNew,if_true]

theorem registerBlobContent {blobs last} (some' : refs ≠ [])
    (ok : refs.foldlM (registerBlob m path now) blobs = .ok last) :
    ∃ content, bindKey m.contentHash = .ok content := by
  cases refs with
  | nil => contradiction
  | cons ref rest =>
    rw [foldlM_cons,bindOk] at ok
    obtain ⟨_,first,_⟩ := ok
    simp only [registerBlob,bindOk] at first
    obtain ⟨_,_,value,bound,_,_,content,present,_⟩ := first
    exact ⟨content,bindOk.mpr ⟨value,bound,present⟩⟩

theorem headBound {keys} (bound : refs.mapM bindKey = .ok keys) : hexKey (refs.headD "") = .ok keys.head? := by
  cases refs with
  | nil =>
    cases bound
    rfl
  | cons ref rest =>
    simp only [mapM_cons,bindOk] at bound
    obtain ⟨key,first,tail,_,last⟩ := bound
    cases last
    exact bindKeyOk.mp first

theorem insertManifestRowOk :
    insertManifestRow tx m now = .ok tx' ↔
      ∃ digest ref, bindKey m.digest = .ok digest ∧
        hexKey (if m.layout = .inline then "" else m.primaryBlobRef) = .ok ref ∧
        tx' = {tx with manifests := insertNew digest (manifestRow m ref now) tx.manifests} := by
  simp only [insertManifestRow,bindKey,bindOk,pure,Except.pure,Except.ok.injEq]
  constructor
  · rintro ⟨value,bound,ref,boundRef,digest,present,rfl⟩
    exact ⟨digest,ref,⟨value,bound,present⟩,boundRef,rfl⟩
  · rintro ⟨digest,ref,⟨value,bound,present⟩,boundRef,rfl⟩
    exact ⟨value,bound,ref,boundRef,digest,present,rfl⟩

theorem linkBlobsOk (bound : bindKey digest = .ok key) {start edges last} :
    (refs.zipIdx start).foldlM (linkManifestToBlob digest) edges = .ok last ↔
      ∃ keys, refs.mapM bindKey = .ok keys ∧ last = linkRefs key (keys.zipIdx start) edges := by
  induction refs generalizing start edges with
  | nil => simp [pure,Except.pure,linkRefs,eq_comm]
  | cons ref rest ih =>
    have first : linkManifestToBlob digest edges (ref,start) = do
        return insertNew (key,start) (← bindKey ref) edges := by
      unfold linkManifestToBlob bindKey
      rw [bindKeyOk.mp bound]
      cases hexKey ref with
      | error e => rfl
      | ok value => cases value <;> rfl
    simp only [zipIdx_cons,foldlM_cons,mapM_cons,first,bindOk,pure,Except.pure,
      Except.ok.injEq]
    constructor
    · rintro ⟨_,⟨k,got,rfl⟩,tail⟩
      obtain ⟨keys,reads,rfl⟩ := ih.mp tail
      exact ⟨k::keys,⟨k,got,keys,reads,rfl⟩,rfl⟩
    · rintro ⟨_,⟨k,got,keys,reads,rfl⟩,rfl⟩
      exact ⟨_,⟨k,got,rfl⟩,ih.mpr ⟨keys,reads,rfl⟩⟩

def registerKeys (tx : Index) (m : Manifest) (path : String) (now : Instant) (keys : BlobKeys) : Index :=
  { tx with
    blobs := registerRefs (blobRow m keys.content path now) keys.refs tx.blobs
    manifests := insertNew keys.digest (manifestRow m keys.refs.head? now) tx.manifests
    manifestBlobs := linkRefs keys.digest keys.refs.zipIdx tx.manifestBlobs }

theorem indexBlobManifestOk :
    indexBlobManifest tx m path now = .ok tx' ↔
      ∃ keys, blobKeys m = .ok keys ∧ tx' = registerKeys tx m path now keys := by
  unfold indexBlobManifest blobKeys
  by_cases inline : m.layout = .inline
  · simp only [inline,if_true,insertManifestRowOk,bindOk,pure,Except.pure,Except.ok.injEq]
    constructor
    · rintro ⟨digest,ref,bound,null,rfl⟩
      cases null
      exact ⟨⟨digest,[],[]⟩,⟨digest,bound,rfl⟩,rfl⟩
    · rintro ⟨_,⟨digest,bound,rfl⟩,rfl⟩
      exact ⟨digest,none,bound,rfl,rfl⟩
  by_cases empty : m.blobRefs = []
  · simp [inline,empty,bindOk,throw,throwThe,MonadExceptOf.throw]
  simp only [inline,empty,if_false,bindOk,insertManifestRowOk,pure,Except.pure,Except.ok.injEq]
  constructor
  · rintro ⟨blobs,loop,_,⟨digest,ref,bound,boundRef,rfl⟩,edges,links,rfl⟩
    obtain ⟨content,boundContent⟩ := registerBlobContent empty loop
    rw [registerBlobBound boundContent] at loop
    obtain ⟨keys,reads,rfl⟩ := foldlMOk.mp loop
    obtain ⟨same,again,rfl⟩ := (linkBlobsOk bound).mp links
    cases okSame reads again
    cases okSame (headBound reads) boundRef
    exact ⟨⟨digest,content,keys⟩,⟨digest,bound,content,boundContent,keys,reads,rfl⟩,rfl⟩
  · rintro ⟨_,⟨digest,bound,content,boundContent,keys,reads,rfl⟩,rfl⟩
    rw [registerBlobBound boundContent]
    exact ⟨_,foldlMOk.mpr ⟨keys,reads,rfl⟩,_,⟨digest,keys.head?,bound,headBound reads,rfl⟩,_,
      (linkBlobsOk bound).mpr ⟨keys,reads,rfl⟩,rfl⟩

theorem blobKeysDigest {keys} (ok : blobKeys m = .ok keys) : bindKey m.digest = .ok keys.digest := by
  simp only [blobKeys,bindOk] at ok
  obtain ⟨digest,bound,rest⟩ := ok
  split at rest
  · cases rest
    exact bound
  split at rest
  · contradiction
  simp only [bindOk] at rest
  obtain ⟨content,_,refs,_,last⟩ := rest
  cases last
  exact bound

theorem linkHandlesBound (bound : bindKey digest = .ok key) (edges : Table (Key × Nat) String) (refs : List (String × Nat)) :
    refs.foldlM (linkManifestToHandle digest) edges = .ok (linkRefs key refs edges) := by
  induction refs generalizing edges with
  | nil => rfl
  | cons ref rest ih =>
    have first : linkManifestToHandle digest edges ref = .ok (insertNew (key,ref.2) ref.1 edges) := by
      rw [linkManifestToHandle,bound]
      rfl
    rw [foldlM_cons,first]
    exact ih _

theorem upsertProjectionsBound (bound : bindKey digest = .ok key) (name : String)
    (rows : Table (Key × String × String) String) (cells : List (String × String)) :
    cells.foldlM (upsertProjExt digest name) rows =
      .ok (cells.foldl (fun rows cell => rows.insert (key,name,cell.1) cell.2) rows) := by
  induction cells generalizing rows with
  | nil => rfl
  | cons cell rest ih =>
    have first : upsertProjExt digest name rows cell = .ok (rows.insert (key,name,cell.1) cell.2) := by
      rw [upsertProjExt,bound]
      rfl
    rw [foldlM_cons,first]
    exact ih _

theorem applyIndexersOk (bound : bindKey m.digest = .ok key) :
    applyIndexers indexes tx m = .ok tx' ↔
      ∃ projections, projectionsOf indexes m = .ok projections ∧
        tx' = {tx with projExt := projectRows key projections tx.projExt} := by
  unfold applyIndexers projectionsOf
  induction indexes generalizing tx with
  | nil => simp [pure,Except.pure,projectRows,eq_comm]
  | cons ci rest ih =>
    have one : applyIndexer m tx ci = do
        return {tx with projExt := projectRows key [(ci.name,← ci.index m)] tx.projExt} := by
      simp only [applyIndexer,upsertProjectionsBound bound]
      rfl
    rw [foldlM_cons,mapM_cons,one]
    simp only [bindOk,Except.pure,pure,Except.ok.injEq]
    constructor
    · rintro ⟨_,⟨cells,indexed,rfl⟩,tail⟩
      obtain ⟨projections,all,rfl⟩ := ih.mp tail
      exact ⟨(ci.name,cells)::projections,⟨_,⟨cells,indexed,rfl⟩,projections,all,rfl⟩,rfl⟩
    · rintro ⟨_,⟨_,⟨cells,indexed,rfl⟩,projections,all,rfl⟩,rfl⟩
      exact ⟨_,⟨cells,indexed,rfl⟩,ih.mpr ⟨projections,all,rfl⟩⟩

theorem notifyIndexedOk (bound : bindKey m.digest = .ok key) :
    notifyIndexed indexes tx m = .ok tx' ↔
      ∃ projections, observed indexes m = .ok projections ∧
        tx' = {tx with projExt := projectRows key projections tx.projExt} := by
  unfold notifyIndexed observed
  split
  · simp only [pure,Except.pure,Except.ok.injEq,exists_eq_left']
    exact eq_comm
  simp only [bindOk,applyIndexersOk bound,pure,Except.pure,Except.ok.injEq]
  constructor
  · rintro ⟨_,⟨projections,indexed,rfl⟩,done,told,rfl⟩
    exact ⟨projections,⟨projections,indexed,done,told,rfl⟩,rfl⟩
  · rintro ⟨_,⟨projections,indexed,done,told,rfl⟩,rfl⟩
    exact ⟨_,⟨projections,indexed,rfl⟩,done,told,rfl⟩

theorem indexManifestOk :
    indexManifest indexes tx m path now = .ok tx' ↔
      ∃ r, registration indexes m = .ok r ∧ tx' = register tx m path now r := by
  simp only [indexManifest,registration,bindOk,indexBlobManifestOk,pure,Except.pure,Except.ok.injEq]
  constructor
  · rintro ⟨_,⟨keys,bound,rfl⟩,handles,linked,tx,seen,digest,same,rfl⟩
    have digestBound := blobKeysDigest bound
    cases okSame digestBound same
    cases okSame (linkHandlesBound digestBound _ _) linked
    obtain ⟨projections,told,rfl⟩ := (notifyIndexedOk digestBound).mp seen
    exact ⟨⟨keys,projections⟩,⟨keys,bound,projections,told,rfl⟩,rfl⟩
  · rintro ⟨_,⟨keys,bound,projections,told,rfl⟩,rfl⟩
    have digestBound := blobKeysDigest bound
    exact ⟨_,⟨keys,bound,rfl⟩,_,linkHandlesBound digestBound _ _,_,
      (notifyIndexedOk digestBound).mpr ⟨projections,told,rfl⟩,_,digestBound,rfl⟩

theorem registrationDigest (ok : registration indexes m = .ok r) : bindKey m.digest = .ok r.keys.digest := by
  simp only [registration,bindOk] at ok
  obtain ⟨keys,bound,_,_,last⟩ := ok
  cases last
  exact blobKeysDigest bound

theorem registrationRefs (ok : registration indexes m = .ok r) : r.keys.refs = [] ↔ m.layout = .inline := by
  simp only [registration,blobKeys,bindOk] at ok
  obtain ⟨keys,⟨digest,_,bound⟩,_,_,last⟩ := ok
  cases last
  split at bound
  · next inline =>
    cases bound
    exact ⟨fun _ => inline,fun _ => rfl⟩
  next stored =>
    split at bound
    · contradiction
    next named =>
    simp only [bindOk] at bound
    obtain ⟨content,_,refs,reads,last⟩ := bound
    cases last
    refine ⟨fun empty => absurd ?_ named,fun inline => absurd inline stored⟩
    cases texts : m.blobRefs with
    | nil => rfl
    | cons text rest =>
      simp only [texts,mapM_cons,bindOk] at reads
      obtain ⟨key,_,keys,_,last⟩ := reads
      cases last
      contradiction

section

open Trace (verdict verdictBind verdictFoldlM)

variable {tx tx' : Index}

theorem registerBlobVerdict (m : Manifest) (path : String) (now : Instant) (blobs blobs' : Table Key BlobRow)
    (ref : String) : verdict (registerBlob m path now blobs ref) = verdict (registerBlob m path now blobs' ref) := by
  unfold registerBlob
  refine verdictBind rfl fun bound _ first second => ?_
  cases okSame first second
  refine verdictBind rfl fun content _ first second => ?_
  cases okSame first second
  refine verdictBind rfl fun key _ first second => ?_
  cases okSame first second
  refine verdictBind rfl fun hash _ first second => ?_
  cases okSame first second
  simp only [memInsertNew,if_true]
  rfl

theorem insertManifestRowVerdict (m : Manifest) (now : Instant) :
    verdict (insertManifestRow tx m now) = verdict (insertManifestRow tx' m now) := by
  unfold insertManifestRow
  refine verdictBind rfl fun digest _ first second => ?_
  cases okSame first second
  exact verdictBind rfl fun _ _ _ _ => verdictBind rfl fun _ _ _ _ => rfl

theorem indexBlobManifestVerdict (m : Manifest) (path : String) (now : Instant) :
    verdict (indexBlobManifest tx m path now) = verdict (indexBlobManifest tx' m path now) := by
  unfold indexBlobManifest
  split
  · exact insertManifestRowVerdict m now
  split
  · rfl
  refine verdictBind (verdictFoldlM (registerBlobVerdict m path now) _ _ _) fun blobs blobs' _ _ => ?_
  refine verdictBind (insertManifestRowVerdict m now) fun next next' _ _ => ?_
  refine verdictBind (verdictFoldlM (fun edges edges' ref => ?_) _ _ _) fun _ _ _ _ => rfl
  unfold linkManifestToBlob
  refine verdictBind rfl fun digest _ first second => ?_
  cases okSame first second
  refine verdictBind rfl fun key _ first second => ?_
  cases okSame first second
  exact verdictBind rfl fun _ _ _ _ => verdictBind rfl fun _ _ _ _ => rfl

variable (indexes : List CustomIndex) (m : Manifest)

theorem notifyIndexedVerdict : verdict (notifyIndexed indexes tx m) = verdict (notifyIndexed indexes tx' m) := by
  unfold notifyIndexed
  split
  · rfl
  refine verdictBind (verdictFoldlM (fun acc acc' ci => ?_) indexes tx tx') fun _ _ _ _ =>
    verdictBind rfl fun _ _ _ _ => rfl
  unfold applyIndexer
  refine verdictBind rfl fun cells _ first second => ?_
  cases okSame first second
  refine verdictBind (verdictFoldlM (fun rows rows' cell => ?_) cells _ _) fun _ _ _ _ => rfl
  exact verdictBind rfl fun _ _ _ _ => rfl

theorem indexManifestVerdict (path : String) (now : Instant) :
    verdict (indexManifest indexes tx m path now) = verdict (indexManifest indexes tx' m path now) := by
  unfold indexManifest
  refine verdictBind (indexBlobManifestVerdict m path now) fun next next' _ _ => ?_
  refine verdictBind (verdictFoldlM (fun edges edges' ref => ?_) _ _ _) fun handles handles' _ _ => ?_
  · exact verdictBind rfl fun _ _ _ _ => rfl
  · refine verdictBind (notifyIndexedVerdict indexes m) fun _ _ _ _ => ?_
    exact verdictBind rfl fun _ _ _ _ => rfl

end

end Scrinium.SqliteIndex
