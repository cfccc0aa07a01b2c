import Scrinium.IndexIdempotence
import Scrinium.Replacement
import Scrinium.SystemNames

/-! System artifacts that point to headless ones (store/headless.go with systemstore). -/
namespace Scrinium.Pointers
open List hiding after
open Keyed Domain LocalFs Named SqliteIndex Layout Trace
open StoreDescriptor (Halt)
open Cas (Engine maxManifestSize)
open SystemStore

section
variable (e : Engine)
def asHalt : Error → Halt
  | .artifactNotFound => .artifactNotFound
  | err => .failed err

def openExternal (s : Cas.State) (ref : String) : Except Halt Bytes :=
  (do Cas.openBlob e s (← Cas.loadManifestByDigest e s.fs ref)).mapError asHalt

def deleteExternal (s : Cas.State) (ref : String) : Cas.State × Except Halt Unit :=
  match deleteManifest e.indexes s.index ref with
  | .error err => (s,.error (.failed err))
  | .ok tx =>
    match manifestPath ref with
    | .error err => ({s with index := tx},.error (.failed err))
    | .ok path => (⟨LocalFs.remove s.fs path,tx⟩,.ok ())

def headlessManifest (now : Instant) (blob : Cas.Result) : Manifest :=
  { artifactID := "", name := "", digest := "", identityNonce := [], sessionID := "", createdAt := some now
    contentHash := blob.contentHash, originalSize := blob.originalSize, hashAlgo := e.hasher.name
    blobRefs := [blob.blobRef], handleRefs := [], layout := .target, pipeline := blob.stages, inlineBlob := []
    retentionUntil := none, ext := [], usr := [] }

def writeHeadless (cfg : Cas.StoreConfig) (s : Cas.State) (call : Cas.PutCall) : Cas.State × Except Error String :=
  match cfg.limitGuard call.payload with
  | some err => (s,.error err)
  | none =>
    match Cas.streamToTarget e cfg s call with
    | (s,.error err) => (s,.error err)
    | (s,.ok blob) =>
      match e.encodeManifest (headlessManifest e call.now blob) with
      | .error err => (s,.error err)
      | .ok fileBytes =>
        let m := {headlessManifest e call.now blob with digest := e.hasher.hex fileBytes}
        match Cas.persistManifest e s m fileBytes blob.addr call.now with
        | (s,.error err) => (s,.error err)
        | (s,.ok ()) => (s,.ok m.digest)

def dataPlane : Resolver Cas.State := ⟨openExternal e,deleteExternal e⟩

variable {cfg s s' call result tx tx' ref}

variable {e} in
theorem headlessRegistered (done : writeHeadless e cfg s call = (s',result)) :
    (s'.index = s.index ∧ ∃ err, result = .error err) ∨
      ∃ staged blob fileBytes r, Cas.Placed e cfg s call staged blob ∧
        e.encodeManifest (headlessManifest e call.now blob) = .ok fileBytes ∧
        registration e.indexes {headlessManifest e call.now blob with digest := e.hasher.hex fileBytes} = .ok r ∧
        s'.index = register s.index {headlessManifest e call.now blob with digest := e.hasher.hex fileBytes} blob.addr call.now r ∧
        result = .ok (e.hasher.hex fileBytes) ∧ ∃ path, s'.fs.lookup path = some ⟨fileBytes,call.now,call.now⟩ := by
  unfold writeHeadless at done
  split at done
  · cases done
    exact .inl ⟨rfl,_,rfl⟩
  split at done
  · next stopped =>
    cases done
    exact .inl ⟨(Cas.streamToTargetFailed stopped).1,_,rfl⟩
  next staged blob placed =>
    have placement := Cas.streamToTargetPlaced placed
    have same : staged.index = s.index := Cas.placedIndex placement
    split at done
    · cases done
      exact .inl ⟨same,_,rfl⟩
    next fileBytes encoded =>
      simp only at done
      split at done
      · next stopped =>
        cases done
        rcases Cas.persistCases stopped with ⟨rfl,_⟩ | ⟨_,_,_,⟨index,_⟩ | ⟨_,_,_,ok⟩⟩
        · exact .inl ⟨same,_,rfl⟩
        · exact .inl ⟨index.trans same,_,rfl⟩
        · cases ok
      · next persisted =>
        cases done
        rcases Cas.persistCases persisted with ⟨_,_,stop⟩ | ⟨path,_,files,⟨_,⟨_,stop⟩,_⟩ | ⟨r,possible,index,_⟩⟩
        · cases stop
        · cases stop
        · refine .inr ⟨staged,blob,fileBytes,r,placement,encoded,possible,by rw [index,same],rfl,path,?_⟩
          rw [files,LocalFs.put,lookupInsert,if_pos rfl]

variable {e} in
theorem headlessWritten (done : writeHeadless e cfg s call = (s',result)) :
    (s'.index = s.index ∧ ∃ err, result = .error err) ∨
      ∃ m path, indexManifest e.indexes s.index m path call.now = .ok s'.index ∧ result = .ok m.digest := by
  rcases headlessRegistered done with same | ⟨_,blob,_,r,_,_,possible,index,answer,_⟩
  · exact .inl same
  · exact .inr ⟨_,blob.addr,indexManifestOk.mpr ⟨r,possible,index⟩,answer⟩

def Gone (tx : Index) (ref : String) : Prop := ∀ key, hexKey ref = .ok (some key) → key ∉ tx.manifests

structure Shrinks (tx tx' : Index) : Prop where
  rows : ∀ key, key ∈ tx'.manifests → key ∈ tx.manifests
  edges : ∀ {edge key}, tx'.manifestBlobs.lookup edge = some key → tx.manifestBlobs.lookup edge = some key
  exact : Exact tx → Exact tx'

theorem shrinksRefl (tx : Index) : Shrinks tx tx := ⟨fun _ => id,id,id⟩

theorem goneShrinks (shrinks : Shrinks tx tx') (gone : Gone tx ref) : Gone tx' ref :=
  fun key bound mem => gone key bound (shrinks.rows key mem)

theorem deletedGone {indexes} (ok : deleteManifest indexes tx ref = .ok tx') : Gone tx' ref ∧ Shrinks tx tx' := by
  have new : RegistersNew indexes tx (.deleteManifest ref) := trivial
  have exact' : Exact tx → Exact tx' := fun h => exactPerform h new (performed ok)
  rcases deleteManifestOk ok with ⟨rfl,absent⟩ | ⟨key,bound,_,rfl⟩
  · exact ⟨absent,shrinksRefl _⟩
  refine ⟨fun other same mem => ?_,fun other mem => ?_,fun {edge k} found => ?_,exact'⟩
  · cases Option.some.inj (okSame bound same)
    exact (AList.mem_erase.mp mem).1 rfl
  · exact (AList.mem_erase.mp mem).2
  · simp only [markPrune,nextCSN,dropManifest,lookupDeleteWhere] at found
    exact (Option.filter_eq_some_iff.mp found).1

theorem deletedAlike {indexes} (ok : deleteManifest indexes tx ref = .ok tx') (key : Key) :
    (tx'.blobs.lookup key).map Cas.identity = (tx.blobs.lookup key).map Cas.identity := by
  rcases deleteManifestOk ok with ⟨rfl,_⟩ | ⟨gone,_,_,rfl⟩
  · rfl
  · exact Cas.dropIdentity _ _ key

theorem externalFrame (s : Cas.State) (ref : String) :
    (∀ key, ((deleteExternal e s ref).1.index.blobs.lookup key).map Cas.identity = (s.index.blobs.lookup key).map Cas.identity) ∧
      ∀ place, (deleteExternal e s ref).1.fs.lookup place = s.fs.lookup place ∨
        (manifestPath ref = .ok place ∧ (deleteExternal e s ref).2 = .ok ()) := by
  unfold deleteExternal
  split
  · exact ⟨fun _ => rfl,fun _ => .inl rfl⟩
  next tx ok =>
  split
  · exact ⟨deletedAlike ok,fun _ => .inl rfl⟩
  next path laid =>
  refine ⟨deletedAlike ok,fun place => ?_⟩
  by_cases here : place = path
  · exact .inr ⟨here ▸ laid,rfl⟩
  · rw [LocalFs.remove,lookupErase,if_neg here]
    exact .inl rfl

theorem externalOpens {other} (placed : Cas.RowsPlaced e.topology s.index)
    (file : ∀ place, manifestPath other = .ok place → (deleteExternal e s ref).1.fs.lookup place = s.fs.lookup place) :
    openExternal e (deleteExternal e s ref).1 other = openExternal e s other := by
  obtain ⟨blobs,files⟩ := externalFrame e s ref
  have opens := Replacement.opensAlike placed blobs fun place blob => by
    rcases files place with same | ⟨laid,_⟩
    · exact same
    · rw [manifestPathHead laid] at blob
      cases blob
  have loads : Cas.loadManifestByDigest e (deleteExternal e s ref).1.fs other = Cas.loadManifestByDigest e s.fs other := by
    unfold Cas.loadManifestByDigest
    cases laid : manifestPath other with
    | error err => rfl
    | ok place => simp only [Cas.readManifestFile,file place laid,bind,Except.bind]
  unfold openExternal
  rw [loads]
  simp only [opens]

/-- The Store's own resolver is such a one: it unregisters the manifest and removes its file, and the blobs stay. -/
theorem dataPlaneConfined : Confined (dataPlane e) (fun s => Cas.RowsPlaced e.topology s.index) where
  kept ref placed := StoreRuns.placedIdentity placed (externalFrame e _ ref).1
  apart {s ref other} placed apart := by
    refine externalOpens e placed fun place laid => ?_
    exact ((externalFrame e s ref).2 place).resolve_right fun gone => apart (manifestPathInjective laid gone.1)
  refused {s ref} placed short := by
    exact externalOpens e placed fun place _ => ((externalFrame e s ref).2 place).resolve_right fun gone => short gone.2

variable {e} in
theorem externalDeleted {result} (done : deleteExternal e s ref = (s',result)) :
    Shrinks s.index s'.index ∧ (result = .ok () → Gone s'.index ref) := by
  unfold deleteExternal at done
  split at done
  · cases done
    exact ⟨shrinksRefl _,fun ok => by cases ok⟩
  next tx ok =>
    obtain ⟨gone,shrinks⟩ := deletedGone ok
    split at done
    · cases done
      exact ⟨shrinks,fun ok => by cases ok⟩
    · cases done
      exact ⟨shrinks,fun _ => gone⟩

end

section
variable {e} {x : Host} {σ} {σ' : State Cas.State} {name a}
def PointsTo (x : Host) (fs : Fs) (name ref : String) : Prop := ∃ env, loadEnvelope x fs name = .ok env ∧ env.externalPayloadRef = ref

theorem cascadeShrinks : Shrinks σ.external.index (cascade x (dataPlane e) σ name).1.index := by
  unfold cascade
  split
  · exact shrinksRefl _
  · split
    · exact (externalDeleted rfl).1
    · exact shrinksRefl _

variable {ref body}

theorem cascadeGone (some' : ref ≠ "") (points : PointsTo x σ.fs name ref)
    (ok : (cascade x (dataPlane e) σ name).2 = .ok ()) : Gone (cascade x (dataPlane e) σ name).1.index ref := by
  obtain ⟨env,loaded,rfl⟩ := points
  unfold cascade at ok ⊢
  rw [loaded] at ok ⊢
  simp only [if_pos some'] at ok ⊢
  exact (externalDeleted rfl).2 ok

theorem deleteCascades {result} (done : delete x (dataPlane e) σ name = (σ',result)) :
    σ'.external = (cascade x (dataPlane e) σ name).1 ∧ (result = .ok () → (cascade x (dataPlane e) σ name).2 = .ok ()) ∧
      (result ≠ .ok () → σ'.fs = σ.fs) := by
  unfold delete at done
  split at done
  · next taken =>
    obtain ⟨rfl,rfl⟩ := Prod.mk.inj done
    rw [taken]
    exact ⟨rfl,fun ok => (by cases ok),fun _ => rfl⟩
  next taken =>
    rw [taken]
    split at done
    · obtain ⟨rfl,rfl⟩ := Prod.mk.inj done
      exact ⟨rfl,fun _ => rfl,fun _ => rfl⟩
    · obtain ⟨rfl,rfl⟩ := Prod.mk.inj done
      exact ⟨rfl,fun _ => rfl,fun short => absurd rfl short⟩

/- A Put of a reference that a Get will find again: the manifest is within the limit, no version stands before a cell, and a
version has a name the walk finds and a seq of the fixed width. -/
def Surfaces (fs : Fs) (a : NamedArtifact) (body : Bytes) : Prop :=
  body.length ≤ maxManifestSize ∧
    (if a.keeps = 0 then scanSeqs fs a.name = []
      else listedName a.name = true ∧ ∀ seq ∈ scanSeqs fs a.name, seq + 1 < seqLimit)

def PutGuard (x : Host) (fs : Fs) (a : NamedArtifact) : Prop :=
  ∀ body, prepare x a = .ok body →
    ((∀ ref, ref ≠ "" → ¬ PointsTo x fs a.name ref) ∨ (a.keeps = 0 ∧ scanSeqs fs a.name ≠ [] ∧ a.externalRef = "")) ∧
      (a.externalRef ≠ "" → Surfaces fs a body)

theorem surfacesPoints (sound : Sound x) (encodes : Encodes x a) (ready : prepare x a = .ok body)
    (surfaces : Surfaces σ.fs a body) (done : PutDone x σ a body σ') (pointer : a.externalRef ≠ "") :
    PointsTo x σ'.fs a.name a.externalRef := by
  obtain ⟨valid,_⟩ := preparedOk ready
  obtain ⟨small,room⟩ := surfaces
  have file : ∃ path, activePath σ'.fs a.name = .ok path ∧ ∃ now placed, σ'.fs.lookup path = some ⟨body,now,placed⟩ := by
    cases done with
    | cell single wrote =>
      rw [if_pos single] at room
      subst wrote
      refine ⟨_,pathOfCell valid ?_,a.now,a.now,by rw [LocalFs.put,lookupInsert,if_pos rfl]⟩
      refine eq_nil_iff_forall_not_mem.mpr fun seq mem => ?_
      obtain ⟨listed,below,present⟩ := scanMem.mp mem
      rw [memLookupSome,LocalFs.put,lookupInsert,if_neg fun same => cellNotVersion _ _ _ same.symm] at present
      have old : seq ∈ scanSeqs σ.fs a.name := scanMem.mpr ⟨listed,below,memLookupSome.mpr present⟩
      rw [room] at old
      cases old
    | @version next many chosen fresh wrote =>
      rw [if_neg many] at room
      obtain ⟨below,found,last⟩ := claimedLast a.keeps body a.now chosen room.1 room.2
      subst wrote
      exact ⟨_,pathOfLast valid room.1 below (memLookupSome.mpr (by rw [found]; simp)) last,a.now,a.now,found⟩
  obtain ⟨path,active,found⟩ := file
  obtain ⟨m,payload,loaded,opened,_⟩ := preparedLoads sound ready small (fun known made wrapped => encodes known made wrapped small) found
  exact ⟨_,envelopeAt active loaded opened,by rw [NamedArtifact.envelope,if_pos pointer]⟩

theorem hiddenCell (valid : validateName a.name = .ok ()) (done : PutDone x σ a body σ') (single : a.keeps = 0)
    (versions : scanSeqs σ.fs a.name ≠ []) (points : PointsTo x σ.fs a.name ref) : PointsTo x σ'.fs a.name ref := by
  cases done with
  | version many _ _ _ => exact absurd single many
  | cell _ wrote =>
    subst wrote
    have files : ∀ seq, (LocalFs.put σ.fs (cellFile a.name) body a.now).lookup (versionFile a.name seq) = σ.fs.lookup (versionFile a.name seq) := by
      intro seq
      rw [LocalFs.put,lookupInsert,if_neg fun same => cellNotVersion _ _ _ same.symm]
    have scanned : ∀ seq, seq ∈ scanSeqs (LocalFs.put σ.fs (cellFile a.name) body a.now) a.name ↔ seq ∈ scanSeqs σ.fs a.name := by
      intro seq
      rw [scanMem,scanMem,memLookupSome,memLookupSome,files]
    obtain ⟨top,isTop⟩ := topExists σ.fs a.name
    have mem : top ∈ scanSeqs σ.fs a.name := by
      rcases isTop.attained with mem | ⟨_,empty⟩
      · exact mem
      · exact absurd empty versions
    have before : activePath σ.fs a.name = .ok (versionFile a.name top) := pathOfTop valid mem isTop.bound
    have after' : activePath (LocalFs.put σ.fs (cellFile a.name) body a.now) a.name = .ok (versionFile a.name top) :=
      pathOfTop (σ := ⟨LocalFs.put σ.fs (cellFile a.name) body a.now,σ.external⟩) valid ((scanned top).mpr mem)
        fun seq found => isTop.bound seq ((scanned seq).mp found)
    obtain ⟨env,loaded,rfl⟩ := points
    refine ⟨env,?_,rfl⟩
    rw [loadEnvelope,loadActive,before] at loaded
    rw [loadEnvelope,loadActive,after']
    simp only [Except.mapError,bind,Except.bind] at loaded ⊢
    rw [loadCongr (files top)]
    exact loaded

end

section
variable {e} {x : Host}
inductive Op where
  | write (cfg : Cas.StoreConfig) (call : Cas.PutCall)
  | put (a : NamedArtifact)
  | delete

structure Book where
  state : State Cas.State
  pointed : List String

def step (e : Engine) (x : Host) (name : String) (b : Book) : Op → Book
  | .write cfg call => {b with state := {b.state with external := (writeHeadless e cfg b.state.external call).1}}
  | .put a =>
    match put x b.state {a with name := name} with
    | (σ,.ok ()) => ⟨σ,if a.externalRef = "" then b.pointed else a.externalRef::b.pointed⟩
    | (σ,.error _) => ⟨σ,b.pointed⟩
  | .delete => {b with state := (delete x (dataPlane e) b.state name).1}

def Fresh (e : Engine) (b : Book) (cfg : Cas.StoreConfig) (call : Cas.PutCall) : Prop :=
  ∀ digest key, (writeHeadless e cfg b.state.external call).2 = .ok digest → bindKey digest = .ok key →
    key ∉ b.state.external.index.manifests ∧ ∀ ref ∈ b.pointed, bindKey ref ≠ .ok key

def Guarded (e : Engine) (x : Host) (name : String) (b : Book) : Op → Prop
  | .write cfg call => Fresh e b cfg call
  | .put a => PutGuard x b.state.fs {a with name := name}
  | .delete => True

structure Followed (x : Host) (name : String) (b : Book) : Prop where
  named : ∀ ref ∈ b.pointed, ref ≠ "" ∧ (Gone b.state.external.index ref ∨ PointsTo x b.state.fs name ref)
  exact : Exact b.state.external.index

variable {name b}

theorem followedWrite {cfg call} (followed : Followed x name b)
    (fresh : Fresh e b cfg call) : Followed x name (step e x name b (.write cfg call)) := by
  rw [step]
  rcases outcome : writeHeadless e cfg b.state.external call with ⟨s,result⟩
  rcases headlessWritten outcome with ⟨same,_⟩ | ⟨m,path,indexed,returned⟩
  · exact ⟨by simpa only [same] using followed.named,by simpa only [same] using followed.exact⟩
  obtain ⟨r,possible,index⟩ := indexManifestOk.mp indexed
  have bound := registrationDigest possible
  obtain ⟨new,apart⟩ := fresh m.digest r.keys.digest (by rw [outcome,returned]) bound
  refine ⟨fun ref mem => ⟨(followed.named ref mem).1,?_⟩,?_⟩
  · refine (followed.named ref mem).2.imp (fun gone key same here => ?_) id
    by_cases written : key = r.keys.digest
    · exact apart ref mem (written ▸ bindKeyOk.mpr same)
    · refine gone key same ?_
      change key ∈ s.index.manifests at here
      simpa [index,register,memLookup,lookupUpdate,lookupInsertNew,written] using here
  · have registers : RegistersNew e.indexes b.state.external.index (.indexManifest m path call.now) := by
      intro r' again _
      cases okSame possible again
      exact new
    exact exactPerform followed.exact registers (performed indexed)

theorem followedPut {a} (sound : Sound x)
    (encodes : a.externalRef ≠ "" → Encodes x {a with name := name}) (followed : Followed x name b)
    (guard : PutGuard x b.state.fs {a with name := name}) : Followed x name (step e x name b (.put a)) := by
  rw [step]
  rcases outcome : put x b.state {a with name := name} with ⟨σ,result⟩
  cases result with
  | error halt =>
    cases putFailed outcome
    exact followed
  | ok =>
    obtain ⟨body,ready,done⟩ := putOk outcome
    obtain ⟨loses,surfaces⟩ := guard body ready
    have external := putExternal done
    refine ⟨fun ref mem => ?_,by simpa only [external] using followed.exact⟩
    have old : ref ∈ b.pointed → ref ≠ "" ∧ (Gone σ.external.index ref ∨ PointsTo x σ.fs name ref) := by
      intro mem
      obtain ⟨some',kept⟩ := followed.named ref mem
      rw [external]
      refine ⟨some',kept.imp id fun points => ?_⟩
      rcases loses with nowhere | ⟨single,versions,_⟩
      · exact absurd points (nowhere ref some')
      · exact hiddenCell (a := {a with name := name}) (preparedOk ready).1 done single versions points
    by_cases inline : a.externalRef = ""
    · rw [if_pos inline] at mem
      exact old mem
    · rw [if_neg inline] at mem
      rcases mem_cons.mp mem with rfl | before
      · exact ⟨inline,.inr (surfacesPoints (a := {a with name := name}) sound (encodes inline) ready (surfaces inline) done inline)⟩
      · exact old before

theorem followedDelete (followed : Followed x name b) : Followed x name (step e x name b .delete) := by
  rw [step]
  rcases outcome : delete x (dataPlane e) b.state name with ⟨σ,result⟩
  obtain ⟨external,taken,stays⟩ := deleteCascades outcome
  have shrinks : Shrinks b.state.external.index σ.external.index := external ▸ cascadeShrinks
  refine ⟨fun ref mem => ?_,shrinks.exact followed.exact⟩
  obtain ⟨some',kept⟩ := followed.named ref mem
  refine ⟨some',?_⟩
  rcases kept with gone | points
  · exact .inl (goneShrinks shrinks gone)
  by_cases ok : result = .ok ()
  · left
    change Gone σ.external.index ref
    rw [external]
    exact cascadeGone some' points (taken ok)
  · right
    change PointsTo x σ.fs name ref
    rw [stays ok]
    exact points

structure Clean (before after : Index) (pointed : List String) : Prop where
  manifests : ∀ ref ∈ pointed, Gone after ref
  blobs : ∀ blob, (∀ digest pos, before.manifestBlobs.lookup (digest,pos) = some blob → ∃ ref ∈ pointed, bindKey ref = .ok digest) →
    refCountIn after.blobs blob = 0

theorem uncounted {before after pointed} (shrinks : Shrinks before after) (exact' : Exact after)
    (gone : ∀ ref ∈ pointed, Gone after ref) : Clean before after pointed := by
  refine ⟨gone,fun blob only => ?_⟩
  rw [exact'.exact,edgeCount,countWhere,countP_eq_zero]
  intro entry mem selected
  have found := lookupEntry.mpr mem
  obtain ⟨ref,known,bound⟩ := only entry.1.1 entry.1.2 (shrinks.edges (of_decide_eq_true selected ▸ found))
  exact gone ref known _ (bindKeyOk.mp bound) (exact'.edgeHasRow found)

/-- Around one name whose Puts each found it pointing nowhere, or wrote inline data into a cell behind versions, a Delete that
succeeds leaves no manifest that was ever pointed to and no count on a blob of theirs. -/
theorem deleteLeavesNothing {name : String} {b : Book} {ops : List Op} {σ : State Cas.State} (sound : Sound x)
    (encodes : ∀ a, .put a ∈ ops → a.externalRef ≠ "" → Encodes x {a with name := name}) (none' : b.pointed = [])
    (exact' : Exact b.state.external.index) (guarded : Along (step e x name) (Guarded e x name) b ops)
    (done : delete x (dataPlane e) (after (step e x name) b ops).state name = (σ,.ok ())) :
    Clean (after (step e x name) b ops).state.external.index σ.external.index (after (step e x name) b ops).pointed := by
  have start : Followed x name b := ⟨fun ref mem => (by rw [none'] at mem; cases mem),exact'⟩
  have written : Along (step e x name) (fun _ op => ∀ a, op = .put a → a.externalRef ≠ "" → Encodes x {a with name := name}) b ops :=
    alongOfMem fun op mem a same => encodes a (same ▸ mem)
  have followed : Followed x name (after (step e x name) b ops) := by
    refine invariantAfter (fun b op kept ok => ?_) start (alongAnd.mpr ⟨guarded,written⟩)
    obtain ⟨guard,written⟩ := ok
    cases op with
    | write cfg call => exact followedWrite kept guard
    | put a => exact followedPut sound (written a rfl) kept guard
    | delete => exact followedDelete kept
  obtain ⟨external,taken,_⟩ := deleteCascades done
  have shrinks : Shrinks (after (step e x name) b ops).state.external.index σ.external.index := external ▸ cascadeShrinks
  refine uncounted shrinks (shrinks.exact followed.exact) fun ref mem => ?_
  obtain ⟨some',kept⟩ := followed.named ref mem
  rcases kept with gone | points
  · exact goneShrinks shrinks gone
  · exact external ▸ cascadeGone some' points (taken rfl)

end

def headlessEngine : Engine :=
  {Readback.sampleEngine with
    hasher := ⟨"sha256",fun b => if b = [1] then [0xaa,0xaa] else if b = [2] then [0xbb,0xbb] else 0::0::b,fun b => by
      split
      · simp
      split
      · simp
      · simp⟩
    encodeManifest := fun m => .ok (if m.originalSize = 1 then [1] else [2])}

def headlessCall (payload : Bytes) (id : String) : Cas.PutCall := {Readback.sampleCall id 0 0 with payload := payload}
def pointer (ref : String) : Op := .put (sampleArtifact "" [] ref none)
def emptyBook : Book := ⟨⟨∅,⟨∅,Index.empty⟩⟩,[]⟩

def superseded : List Op :=
  [.write (Readback.sampleConfig []) (headlessCall [7] "u1"),pointer "aaaa",
   .write (Readback.sampleConfig []) (headlessCall [7,8] "u2"),pointer "bbbb"]

theorem supersededLeaks :
    (delete sampleHost (dataPlane headlessEngine) (after (step headlessEngine sampleHost "a") emptyBook superseded).state "a").2 = .ok () ∧
      "aaaa" ∈ (after (step headlessEngine sampleHost "a") emptyBook superseded).pointed ∧
      [0xaa,0xaa] ∈ (delete sampleHost (dataPlane headlessEngine)
        (after (step headlessEngine sampleHost "a") emptyBook superseded).state "a").1.external.index.manifests ∧
      refCountIn (delete sampleHost (dataPlane headlessEngine)
        (after (step headlessEngine sampleHost "a") emptyBook superseded).state "a").1.external.index.blobs [0,0,7] = 1 := by
  refine ⟨?_,?_,?_,?_⟩ <;> decide +kernel

def once : List Op := [.write (Readback.sampleConfig []) (headlessCall [7] "u1"),pointer "aaaa"]

theorem onceGuarded : Along (step headlessEngine sampleHost "a") (Guarded headlessEngine sampleHost "a") emptyBook once := by
  refine alongCons.mpr ⟨fun digest key _ _ => ⟨by simp [emptyBook,Index.empty],fun ref mem => (by cases mem)⟩,
    alongCons.mpr ⟨fun body ready => ⟨.inl fun ref _ points => ?_,fun _ => ⟨?_,?_⟩⟩,fun _ mem => (by cases mem)⟩⟩
  · obtain ⟨env,loaded,_⟩ := points
    have nothing : loadEnvelope sampleHost ∅ "a" = .error .artifactNotFound := by decide +kernel
    rw [show (step headlessEngine sampleHost "a" emptyBook _).state.fs = ∅ from rfl,nothing] at loaded
    cases loaded
  · cases ready
    decide
  · refine (if_neg (by decide)).mpr ?_
    exact ⟨by decide +kernel,by decide +kernel⟩

theorem onceDeleted :
    Clean (after (step headlessEngine sampleHost "a") emptyBook once).state.external.index
      (delete sampleHost (dataPlane headlessEngine) (after (step headlessEngine sampleHost "a") emptyBook once).state "a").1.external.index
      ["aaaa"] := by
  refine deleteLeavesNothing sampleSound (fun a mem _ => ?_) rfl ?_ onceGuarded (Prod.ext rfl ?_)
  · rcases mem_cons.mp mem with write | put
    · cases write
    · cases mem_singleton.mp put
      exact sampleEncodes _ _ _ _
  · exact ⟨soundEmpty,fun _ => rfl⟩
  · decide +kernel

end Scrinium.Pointers
