import Scrinium.LocalFs
import Scrinium.Pipeline
import Scrinium.IndexRegistration

/-! The artifact write path over the driver and the index: a payload is hashed and transformed into a staging file,
dropped or renamed into place, and its manifest written and registered. -/
namespace Scrinium.Cas
open Keyed Domain Layout LocalFs Pipeline SqliteIndex

structure Engine where
  hasher : Hasher
  registry : TransformerRegistry
  topology : PathTopology
  handleOf : (contentHash : String) → (nonce : Bytes) → String
  encodeManifest : Manifest → Except Error Bytes
  decodeManifest : Bytes → Except Error Manifest
  limit : LimitOne
  indexes : List CustomIndex

inductive BlobStorage where
  | target
  | inline
  deriving DecidableEq

inductive IdentityMode where
  | unique
  | coalesced
  deriving DecidableEq

inductive DeletionPolicy where
  | allow
  | noDelete
  deriving DecidableEq

structure StoreConfig where
  blobStorage : BlobStorage
  inlineBlobLimit : Nat
  pipeline : List String
  maxArtifactSize : Nat
  identityMode : IdentityMode
  deletionPolicy : DeletionPolicy
  deriving DecidableEq

structure State where
  fs : Fs
  index : Index

structure PutCall where
  payload : Bytes
  ext : Bytes
  usr : Bytes
  sessionID : String
  retentionUntil : Option Instant
  parentRefs : List String
  stagingID : String
  nonce : Bytes
  now : Instant

structure Result where
  contentHash : String
  blobRef : String
  originalSize : Int
  stages : List PipelineStage
  inlineBytes : Option Bytes
  addr : String

def stagingPath (id : String) : String := ".staging/" ++ id

def dedupProbe (e : Engine) (tx : Index) (contentHash : String) (originalSize : Int) (blobRef crypto : String) :
    Except Error (Option String) :=
  if crypto = "" then existsByContent e.limit tx contentHash originalSize ""
  else match resolve tx blobRef with
    | .ok _ => .ok (some blobRef)
    | .error .artifactNotFound => .ok none
    | .error err => .error err

def commitBlob (e : Engine) (s : State) (staging contentHash : String) (originalSize : Int)
    (blobRef crypto : String) (now : Instant) : State × Except Error (String × String) :=
  let dropped := {s with fs := remove s.fs staging}
  match dedupProbe e s.index contentHash originalSize blobRef crypto with
  | .error err => (dropped,.error err)
  | .ok (some existing) => (dropped,(resolve s.index existing).map fun addr => (existing,addr))
  | .ok none =>
    match blobPath e.topology .regular blobRef with
    | .error err => (dropped,.error err)
    | .ok final =>
      match rename s.fs staging final now with
      | .error err => (dropped,.error err)
      | .ok fs => ({s with fs := fs},.ok (blobRef,final))

def streamToTarget (e : Engine) (cfg : StoreConfig) (s : State) (call : PutCall) : State × Except Error Result :=
  match buildPut e.hasher e.registry cfg.pipeline call.payload with
  | .error err => (s,.error err)
  | .ok (output,stages) =>
    let staging := stagingPath call.stagingID
    let staged := {s with fs := LocalFs.put s.fs staging output call.now}
    let contentHash := e.hasher.hex call.payload
    let originalSize := (call.payload.length : Int)
    let (s,committed) := commitBlob e staged staging contentHash originalSize (e.hasher.hex output)
      (cryptoIdentityOf stages) call.now
    (s,committed.map fun (blobRef,addr) =>
      { contentHash := contentHash, blobRef := blobRef, originalSize := originalSize, stages := stages
        inlineBytes := none, addr := addr })

def materializeInline (e : Engine) (body : Bytes) : Result :=
  { contentHash := e.hasher.hex body, blobRef := "", originalSize := body.length, stages := []
    inlineBytes := some body, addr := "" }

def StoreConfig.inlineMode (cfg : StoreConfig) : Bool := cfg.blobStorage = .inline && 0 < cfg.inlineBlobLimit

/- limitGuard (put_limit.go) over the whole payload. At the largest limit the budget plus one wraps, and the first Read
panics. -/
def StoreConfig.limitGuard (cfg : StoreConfig) (payload : Bytes) : Option Error :=
  if cfg.maxArtifactSize = 0 then none
  else if cfg.maxArtifactSize = 2 ^ 63 - 1 then some .panicked
  else if cfg.maxArtifactSize < payload.length then some .artifactTooLarge
  else none

def materialize (e : Engine) (cfg : StoreConfig) (s : State) (call : PutCall) : State × Except Error Result :=
  match cfg.limitGuard call.payload with
  | some err => (s,.error err)
  | none =>
    if cfg.inlineMode && call.payload.length ≤ cfg.inlineBlobLimit then (s,.ok (materializeInline e call.payload))
    else streamToTarget e cfg s call

def identityMetaCanonEmpty : Bytes := "scrinium/identity-meta/v1:\x7b\x7d".toList.map fun c => c.toNat.toUInt8

def assembleManifest (e : Engine) (cfg : StoreConfig) (call : PutCall) (blob : Result) :
    Except Error (Manifest × Bytes) := do
  let nonce := if cfg.identityMode = .coalesced then [] else call.nonce
  let manifest : Manifest :=
    { artifactID := e.handleOf blob.contentHash nonce, name := "", digest := "", identityNonce := nonce
      sessionID := call.sessionID, createdAt := some call.now, contentHash := blob.contentHash
      originalSize := blob.originalSize, hashAlgo := e.hasher.name
      blobRefs := if blob.blobRef = "" then [] else [blob.blobRef]
      handleRefs := call.parentRefs
      layout := if blob.inlineBytes.isSome then .inline else .target
      pipeline := blob.stages, inlineBlob := blob.inlineBytes.getD []
      retentionUntil := call.retentionUntil, ext := call.ext, usr := call.usr
      identityMetaHash := e.hasher.format identityMetaCanonEmpty }
  let fileBytes ← e.encodeManifest manifest
  return ({manifest with digest := e.hasher.hex fileBytes},fileBytes)

def persistManifest (e : Engine) (s : State) (m : Manifest) (fileBytes : Bytes) (addr : String) (now : Instant) :
    State × Except Error Unit :=
  match manifestPath m.digest with
  | .error err => (s,.error err)
  | .ok path =>
    let s := {s with fs := LocalFs.put s.fs path fileBytes now}
    match indexManifest e.indexes s.index m addr now with
    | .error err => (s,.error err)
    | .ok tx => ({s with index := tx},.ok ())

def maxSessionIDLen : Nat := 255
def maxExtSize : Nat := 64 * 1024
def maxUsrSize : Nat := 64 * 1024

def validatePutInputs (call : PutCall) : Except Error Unit :=
  if maxSessionIDLen < call.sessionID.utf8ByteSize then .error .sessionIDTooLong
  else if maxExtSize < call.ext.length then .error .extTooLarge
  else if maxUsrSize < call.usr.length then .error .usrTooLarge
  else .ok ()

def checkPutSupported (e : Engine) (cfg : StoreConfig) : Except Error Unit := do
  validateAlgos e.registry cfg.pipeline
  if cfg.inlineMode && cfg.pipeline ≠ [] then throw (.other "pipeline with inline") else return ()

/-- Store.Put; on success the manifest that was registered, whose ArtifactID the caller receives. -/
def put (e : Engine) (cfg : StoreConfig) (s : State) (call : PutCall) : State × Except Error Manifest :=
  match (do validatePutInputs call; checkPutSupported e cfg) with
  | .error err => (s,.error err)
  | .ok () =>
    match materialize e cfg s call with
    | (s,.error err) => (s,.error err)
    | (s,.ok blob) =>
      match assembleManifest e cfg call blob with
      | .error err => (s,.error err)
      | .ok (m,fileBytes) =>
        match persistManifest e s m fileBytes blob.addr call.now with
        | (s,.error err) => (s,.error err)
        | (s,.ok ()) => (s,.ok m)

def SameFiles (call : PutCall) (before after : Fs) : Prop :=
  ∀ path, path ≠ stagingPath call.stagingID → after.lookup path = before.lookup path

inductive Placed (e : Engine) (cfg : StoreConfig) (s : State) (call : PutCall) : State → Result → Prop where
  | inline : cfg.inlineMode = true → Placed e cfg s call s (materializeInline e call.payload)
  | shared (s' : State) (output : Bytes) (stages : List PipelineStage) (existing addr : String)
      (built : buildPut e.hasher e.registry cfg.pipeline call.payload = .ok (output,stages))
      (hit : dedupProbe e s.index (e.hasher.hex call.payload) call.payload.length (e.hasher.hex output)
        (cryptoIdentityOf stages) = .ok (some existing))
      (resolved : resolve s.index existing = .ok addr)
      (index : s'.index = s.index) (files : SameFiles call s.fs s'.fs) :
      Placed e cfg s call s' ⟨e.hasher.hex call.payload,existing,call.payload.length,stages,none,addr⟩
  | fresh (s' : State) (output : Bytes) (stages : List PipelineStage) (final : String)
      (built : buildPut e.hasher e.registry cfg.pipeline call.payload = .ok (output,stages))
      (miss : dedupProbe e s.index (e.hasher.hex call.payload) call.payload.length (e.hasher.hex output)
        (cryptoIdentityOf stages) = .ok none)
      (path : blobPath e.topology .regular (e.hasher.hex output) = .ok final)
      (index : s'.index = s.index) (stored : s'.fs.lookup final = some ⟨output,call.now,call.now⟩)
      (files : ∀ path, path ≠ final → path ≠ stagingPath call.stagingID →
        s'.fs.lookup path = s.fs.lookup path) :
      Placed e cfg s call s' ⟨e.hasher.hex call.payload,e.hasher.hex output,call.payload.length,stages,none,final⟩

theorem removeStaged (fs : Fs) (call : PutCall) (output : Bytes) :
    SameFiles call fs (remove (LocalFs.put fs (stagingPath call.stagingID) output call.now)
      (stagingPath call.stagingID)) := by
  intro path other
  rw [remove,LocalFs.put,lookupErase,if_neg other,lookupInsert,if_neg other]

variable {e s s' now cfg call r err path m outcome}

theorem commitBlobCases {staging contentHash blobRef crypto size outcome}
    (h : commitBlob e s staging contentHash size blobRef crypto now = (s',outcome)) :
    (s' = {s with fs := remove s.fs staging} ∧
      (∃ err, outcome = .error err) ∨
    (∃ existing addr, s' = {s with fs := remove s.fs staging} ∧ outcome = .ok (existing,addr) ∧
      dedupProbe e s.index contentHash size blobRef crypto = .ok (some existing) ∧
      resolve s.index existing = .ok addr)) ∨
    ∃ final fs, dedupProbe e s.index contentHash size blobRef crypto = .ok none ∧
      blobPath e.topology .regular blobRef = .ok final ∧ rename s.fs staging final now = .ok fs ∧
      s' = {s with fs := fs} ∧ outcome = .ok (blobRef,final) := by
  unfold commitBlob at h
  simp only at h
  split at h
  · cases h
    exact .inl (.inl ⟨rfl,_,rfl⟩)
  · next existing hit =>
    cases h
    cases found : resolve s.index existing with
    | error err => exact .inl (.inl ⟨rfl,err,rfl⟩)
    | ok addr => exact .inl (.inr ⟨existing,addr,rfl,rfl,hit,found⟩)
  · next miss =>
    split at h
    · cases h
      exact .inl (.inl ⟨rfl,_,rfl⟩)
    next final path =>
    split at h
    · cases h
      exact .inl (.inl ⟨rfl,_,rfl⟩)
    · next fs moved =>
      cases h
      exact .inr ⟨final,fs,miss,path,moved,rfl,rfl⟩

theorem streamToTargetPlaced (ok : streamToTarget e cfg s call = (s',.ok r)) : Placed e cfg s call s' r := by
  unfold streamToTarget at ok
  split at ok
  · cases ok
  next output stages built =>
  simp only [Prod.mk.injEq] at ok
  obtain ⟨final,mapped⟩ := ok
  generalize committed : commitBlob e _ _ _ _ _ _ _ = pair at final mapped
  obtain ⟨next,outcome⟩ := pair
  subst final
  rcases commitBlobCases committed with (⟨_,err,rfl⟩ | ⟨existing,addr,rfl,rfl,hit,resolved⟩) |
      ⟨final,fs,miss,path,moved,rfl,rfl⟩
  · contradiction
  · cases mapped
    exact .shared _ output stages existing addr built hit resolved rfl (removeStaged s.fs call output)
  · cases mapped
    obtain ⟨file,found,rfl⟩ := renameOk moved
    rw [LocalFs.put,lookupInsert,if_pos rfl] at found
    cases found
    refine .fresh _ output stages final built miss path rfl (AList.lookup_insert _) fun other away notStaging => ?_
    simp only [lookupInsert,if_neg away,lookupErase,if_neg notStaging,LocalFs.put]

theorem streamToTargetFailed (failed : streamToTarget e cfg s call = (s',.error err)) :
    s'.index = s.index ∧ SameFiles call s.fs s'.fs := by
  unfold streamToTarget at failed
  split at failed
  · cases failed
    exact ⟨rfl,fun _ _ => rfl⟩
  next output stages built =>
  simp only [Prod.mk.injEq] at failed
  obtain ⟨final,mapped⟩ := failed
  generalize committed : commitBlob e _ _ _ _ _ _ _ = pair at final mapped
  obtain ⟨next,outcome⟩ := pair
  subst final
  rcases commitBlobCases committed with (⟨rfl,_⟩ | ⟨existing,addr,_,rfl,_⟩) | ⟨final,fs,_,_,_,_,rfl⟩
  · exact ⟨rfl,removeStaged s.fs call output⟩
  · contradiction
  · contradiction

theorem materializePlaced (ok : materialize e cfg s call = (s',.ok r)) : Placed e cfg s call s' r := by
  unfold materialize at ok
  split at ok
  · cases ok
  split at ok
  · next inline =>
    cases ok
    exact .inline (Bool.and_eq_true_iff.mp inline).1
  · exact streamToTargetPlaced ok

theorem materializeFailed (failed : materialize e cfg s call = (s',.error err)) :
    s'.index = s.index ∧ SameFiles call s.fs s'.fs := by
  unfold materialize at failed
  split at failed
  · cases failed
    exact ⟨rfl,fun _ _ => rfl⟩
  split at failed
  · cases failed
  · exact streamToTargetFailed failed

theorem stagingHead (id : String) : (stagingPath id).toList.head? = some '.' := by
  simp [stagingPath,String.toList_append]

theorem placedFiles (placed : Placed e cfg s call s' r) (blob : path.toList.head? = some 'b') :
    s'.fs.lookup path = s.fs.lookup path ∨ ∃ output stages,
      buildPut e.hasher e.registry cfg.pipeline call.payload = .ok (output,stages) ∧
      blobPath e.topology .regular (e.hasher.hex output) = .ok path ∧
      s'.fs.lookup path = some ⟨output,call.now,call.now⟩ := by
  have notStaging : path ≠ stagingPath call.stagingID := headsApart blob (stagingHead _) (by decide)
  cases placed with
  | inline => exact .inl rfl
  | shared _ output stages existing addr built hit resolved index files => exact .inl (files path notStaging)
  | fresh _ output stages final built miss place index stored files =>
    by_cases here : path = final
    · subst here
      exact .inr ⟨output,stages,built,place,stored⟩
    · exact .inl (files path here notStaging)

theorem placedIndex (placed : Placed e cfg s call s' r) : s'.index = s.index := by
  cases placed <;> first | rfl | assumption

structure Committed (e : Engine) (cfg : StoreConfig) (s : State) (call : PutCall) (s' : State) (m : Manifest) where
  placed : State
  blob : Result
  placement : Placed e cfg s call placed blob
  fileBytes : Bytes
  assembled : assembleManifest e cfg call blob = .ok (m,fileBytes)
  path : String
  file : manifestPath m.digest = .ok path
  keys : Registration
  registered : registration e.indexes m = .ok keys
  fs : s'.fs = LocalFs.put placed.fs path fileBytes call.now
  index : s'.index = register s.index m blob.addr call.now keys

theorem persistCases {fileBytes addr outcome}
    (h : persistManifest e s m fileBytes addr now = (s',outcome)) :
    (s' = s ∧ ∃ err, outcome = .error err) ∨
    ∃ path, manifestPath m.digest = .ok path ∧ s'.fs = LocalFs.put s.fs path fileBytes now ∧
      (s'.index = s.index ∧ (∃ err, outcome = .error err) ∧ (∀ r, registration e.indexes m ≠ .ok r) ∨
        ∃ r, registration e.indexes m = .ok r ∧ s'.index = register s.index m addr now r ∧ outcome = .ok ()) := by
  unfold persistManifest at h
  split at h
  · cases h
    exact .inl ⟨rfl,_,rfl⟩
  next path file =>
  refine .inr ⟨path,file,?_⟩
  simp only at h
  split at h
  · next refused =>
    cases h
    refine ⟨rfl,.inl ⟨rfl,⟨_,rfl⟩,fun r possible => ?_⟩⟩
    rw [indexManifestOk.mpr ⟨r,possible,rfl⟩] at refused
    cases refused
  · next tx done =>
    obtain ⟨r,possible,rfl⟩ := indexManifestOk.mp done
    cases h
    exact ⟨rfl,.inr ⟨r,possible,rfl,rfl⟩⟩

theorem putCommitted (ok : put e cfg s call = (s',.ok m)) : Nonempty (Committed e cfg s call s' m) := by
  unfold put at ok
  split at ok
  · cases ok
  split at ok
  · cases ok
  next mid blob placed =>
  have placement := materializePlaced placed
  split at ok
  · cases ok
  next manifest fileBytes assembled =>
  split at ok
  · cases ok
  next final persisted =>
  cases ok
  rcases persistCases persisted with ⟨_,err,refused⟩ | ⟨path,file,fs,⟨_,⟨err,refused⟩,_⟩ | ⟨r,possible,index,_⟩⟩
  · contradiction
  · contradiction
  · rw [placedIndex placement] at index
    exact ⟨⟨mid,blob,placement,fileBytes,assembled,path,file,r,possible,fs,index⟩⟩

theorem putFailed (failed : put e cfg s call = (s',.error err)) : s'.index = s.index := by
  unfold put at failed
  split at failed
  · cases failed
    rfl
  split at failed
  · next mid _ broken =>
    cases failed
    exact (materializeFailed broken).1
  next mid blob placed =>
  have same := placedIndex (materializePlaced placed)
  split at failed
  · cases failed
    exact same
  next manifest fileBytes assembled =>
  split at failed
  · next final _ persisted =>
    cases failed
    rcases persistCases persisted with ⟨rfl,_⟩ | ⟨path,file,fs,⟨index,_⟩ | ⟨r,possible,index,done⟩⟩
    · exact same
    · exact index.trans same
    · contradiction
  · cases failed

theorem putMaterialized (h : put e cfg s call = (s',outcome)) :
    SameFiles call s.fs s'.fs ∨ ∃ mid blob, Placed e cfg s call mid blob ∧
      ∀ path, path.toList.head? ≠ some 'm' → s'.fs.lookup path = mid.fs.lookup path := by
  unfold put at h
  split at h
  · cases h
    exact .inl fun _ _ => rfl
  split at h
  · next mid _ broken =>
    cases h
    exact .inl (materializeFailed broken).2
  next mid blob placed =>
  refine .inr ⟨mid,blob,materializePlaced placed,fun path notManifest => ?_⟩
  have written : ∀ {final : State} {m : Manifest} {fileBytes : Bytes} {done : Except Error Unit},
      persistManifest e mid m fileBytes blob.addr call.now = (final,done) →
        final.fs.lookup path = mid.fs.lookup path := by
    intro final m fileBytes done persisted
    rcases persistCases persisted with ⟨rfl,_⟩ | ⟨place,file,fs,_⟩
    · rfl
    · rw [fs,LocalFs.put,lookupInsert,if_neg]
      intro same
      exact notManifest (same ▸ manifestPathHead file)
  split at h
  · cases h
    rfl
  split at h
  · next persisted =>
    cases h
    exact written persisted
  · next persisted =>
    cases h
    exact written persisted

theorem putFiles (h : put e cfg s call = (s',outcome)) (blob : path.toList.head? = some 'b') :
    s'.fs.lookup path = s.fs.lookup path ∨ ∃ output stages,
      buildPut e.hasher e.registry cfg.pipeline call.payload = .ok (output,stages) ∧
      blobPath e.topology .regular (e.hasher.hex output) = .ok path ∧
      s'.fs.lookup path = some ⟨output,call.now,call.now⟩ := by
  rcases putMaterialized h with same | ⟨mid,r,placed,rest⟩
  · exact .inl (same path (headsApart blob (stagingHead _) (by decide)))
  · rw [rest path (by rw [blob]; decide)]
    exact placedFiles placed blob

end Scrinium.Cas
