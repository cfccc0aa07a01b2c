import Scrinium.Cas

/-! Reading back through a manifest, loading a manifest by its digest or its handle, and Store.Delete: the manifest file
is removed first and the index row after it. -/
namespace Scrinium.Cas
open List hiding after
open Keyed Domain Layout LocalFs Pipeline SqliteIndex Trace Option

def maxManifestSize : Nat := 32 * 1024 * 1024

def verifyManifestDigest (e : Engine) (digest : String) (raw : Bytes) : Except Error Unit :=
  if e.hasher.hex raw = digest then .ok () else .error .corruptedManifest

def readManifestFile (fs : Fs) (path : String) : Except Error Bytes :=
  match fs.lookup path with
  | some file => if maxManifestSize < file.data.length then .error .manifestTooLarge else .ok file.data
  | none => .error .artifactNotFound

def loadManifestByDigest (e : Engine) (fs : Fs) (digest : String) : Except Error Manifest := do
  let path ← manifestPath digest
  let raw ← readManifestFile fs path
  verifyManifestDigest e digest raw
  let m ← e.decodeManifest raw
  return {m with digest := digest}

def load (e : Engine) (s : State) (id : String) : Except Error Manifest :=
  if id = "" then .error .artifactNotFound
  else match resolveManifestDigest s.index id with
    | none => .error .artifactNotFound
    | some digest => do
      let m ← loadManifestByDigest e s.fs digest
      return {m with artifactID := id}

def openRawBlob (s : State) (m : Manifest) : Except Error Bytes :=
  match m.layout with
  | .inline => .ok m.inlineBlob
  | .target => do
    let path ← resolve s.index m.primaryBlobRef
    match LocalFs.get s.fs path with
    | .ok data => return data
    | .error .notExist => throw .corruptedBlob
    | .error err => throw err
  | .unset => .error (.other "unknown BlobStorage")

def openBlob (e : Engine) (s : State) (m : Manifest) : Except Error Bytes := do
  buildGet e.registry m.pipeline (← openRawBlob s m)

inductive ReadHandle where
  | inline (data : Bytes)
  | target (path : String)
  deriving DecidableEq

def openHandle (s : State) (m : Manifest) : Except Error ReadHandle :=
  match m.layout with
  | .inline => .ok (.inline m.inlineBlob)
  | .target => do return .target (← resolve s.index m.primaryBlobRef)
  | .unset => .error (.other "unknown BlobStorage")

def get (e : Engine) (s : State) (id : String) : Except Error ReadHandle := do
  let m ← load e s id
  if m.artifactID = "" then throw .artifactNotFound else openHandle s m

def deleteChecks (cfg : StoreConfig) (m : Manifest) (now : Instant) : Except Error Unit :=
  if m.artifactID = "" then .error .artifactNotFound
  else if (m.retentionUntil.any fun until' => now < until') then .error .retentionNotExpired
  else if cfg.deletionPolicy = .noDelete then .error .deletionForbidden
  else .ok ()

def delete (e : Engine) (cfg : StoreConfig) (s : State) (id : String) (now : Instant) : State × Except Error Unit :=
  match (do
    let m ← load e s id
    deleteChecks cfg m now
    return (m.digest,← manifestPath m.digest)) with
  | .error err => (s,.error err)
  | .ok (digest,path) =>
    let s := {s with fs := remove s.fs path}
    match deleteManifest e.indexes s.index digest with
    | .error err => (s,.error err)
    | .ok tx => ({s with index := tx},.ok ())

def identity (row : BlobRow) : BlobRow := {row with refCount := 0}

theorem registerIdentity (row : BlobRow) (fresh : row.refCount = 0) (blobs : Table Key BlobRow) (refs : List Key) (key : Key) :
    ((registerRefs row refs blobs).lookup key).map identity =
      match blobs.lookup key with
      | some old => some (identity old)
      | none => if key ∈ refs then some row else none := by
  have plain : identity row = row := by
    cases row
    simp_all [identity]
  unfold registerRefs
  induction refs generalizing blobs with
  | nil => cases held : blobs.lookup key <;> simp [held]
  | cons ref rest ih =>
    rw [foldl_cons,ih,bumpRefCount,lookupUpdate,lookupInsertNew,lookupInsertNew]
    by_cases here : key = ref
    · subst here
      cases held : blobs.lookup key with
      | none => simpa [identity] using plain
      | some old => simp [identity]
    · rw [if_neg here,if_neg here]
      cases held : blobs.lookup key with
      | none => simp [here]
      | some old => rfl

theorem dropIdentity (blobs : Table Key BlobRow) (refs : List Key) (key : Key) :
    ((refs.foldl (fun blobs ref => dropRefCount ref blobs) blobs).lookup key).map identity =
      (blobs.lookup key).map identity := by
  induction refs generalizing blobs with
  | nil => rfl
  | cons ref rest ih =>
    rw [foldl_cons,ih,dropRefCount,lookupUpdate]
    by_cases here : key = ref
    · subst here
      cases blobs.lookup key <;> simp [identity]
    · rw [if_neg here]

variable {row old tx m r key content ref addr hash crypto e size cfg call stages s s' output}

theorem identityEq (same : identity row = identity old) :
    row.contentHash = old.contentHash ∧ row.originalSize = old.originalSize ∧
      row.physicalPath = old.physicalPath ∧ row.cryptoIdentity = old.cryptoIdentity := by
  simp only [identity,BlobRow.mk.injEq] at same
  exact ⟨same.1,same.2.1,same.2.2.1,same.2.2.2.1⟩

theorem registeredRow {path now} (found : (register tx m path now r).blobs.lookup key = some row) :
    (∃ old, tx.blobs.lookup key = some old ∧ identity row = identity old) ∨
      tx.blobs.lookup key = none ∧ key ∈ r.keys.refs ∧ identity row = blobRow m r.keys.content path now := by
  have known := registerIdentity (blobRow m r.keys.content path now) rfl tx.blobs r.keys.refs key
  simp only [register] at found
  rw [found] at known
  cases held : tx.blobs.lookup key with
  | some old =>
    rw [held] at known
    exact .inl ⟨old,rfl,some.inj known⟩
  | none =>
    rw [held] at known
    by_cases named : key ∈ r.keys.refs
    · simp only [named,if_true] at known
      exact .inr ⟨rfl,named,some.inj known⟩
    · simp [named] at known

section
variable (m : Manifest) (path : String) (now : Instant)
theorem registeredKeeps (r : Registration) (held : tx.blobs.lookup key = some old) :
    ∃ row, (register tx m path now r).blobs.lookup key = some row ∧ identity row = identity old := by
  have known := registerIdentity (blobRow m r.keys.content path now) rfl tx.blobs r.keys.refs key
  rw [held] at known
  obtain ⟨row,found,same⟩ := map_eq_some_iff.mp known
  exact ⟨row,found,same⟩

theorem registeredNew (free : tx.blobs.lookup key = none) (named : key ∈ r.keys.refs) :
    ∃ row, (register tx m path now r).blobs.lookup key = some row ∧
      identity row = blobRow m r.keys.content path now := by
  have known := registerIdentity (blobRow m r.keys.content path now) rfl tx.blobs r.keys.refs key
  rw [free] at known
  simp only [named,if_true] at known
  obtain ⟨row,found,same⟩ := map_eq_some_iff.mp known
  exact ⟨row,found,same⟩

theorem registeredHas (named : key ∈ r.keys.refs) : key ∈ (register tx m path now r).blobs := by
  rw [memLookup]
  cases held : tx.blobs.lookup key with
  | some row =>
    obtain ⟨row',found,_⟩ := registeredKeeps m path now r held
    exact ⟨row',found⟩
  | none =>
    obtain ⟨row',found,_⟩ := registeredNew m path now held named
    exact ⟨row',found⟩

end

theorem bindHex (some' : key ≠ []) : bindKey (hexOut key) = .ok key := bindKeyOk.mpr (hexKeyEncode some')

theorem bindSum (h : Hasher) (bytes : Bytes) : bindKey (h.hex bytes) = .ok (h.sum bytes) := bindHex (sumNe h bytes)

theorem removedBlob {fs digest path place} (laid : manifestPath digest = .ok path)
    (blob : place.toList.head? = some 'b') : (remove fs path).lookup place = fs.lookup place := by
  rw [remove,lookupErase,if_neg (headsApart blob (manifestPathHead laid) (by decide))]

theorem resolveKey (ok : resolve tx ref = .ok addr) :
    ∃ key row, hexKey ref = .ok (some key) ∧ tx.blobs.lookup key = some row ∧ row.physicalPath = addr := by
  obtain ⟨value,bound,rest⟩ := bindOk.mp ok
  cases value with
  | none => cases rest
  | some key =>
    cases found : tx.blobs.lookup key with
    | none =>
      simp only [found] at rest
      cases rest
    | some row =>
      simp only [found] at rest
      exact ⟨key,row,bound,found,Except.ok.inj rest⟩

theorem probeHit {blobRef existing own} (spelled : blobRef = hexOut own) (some' : own ≠ [])
    (hit : dedupProbe e tx hash size blobRef crypto = .ok (some existing)) (resolved : resolve tx existing = .ok addr) :
    ∃ key row, existing = hexOut key ∧ key ≠ [] ∧ tx.blobs.lookup key = some row ∧ row.physicalPath = addr := by
  obtain ⟨key,row,bound,found,path⟩ := resolveKey resolved
  unfold dedupProbe at hit
  split at hit
  · obtain ⟨value,_,rest⟩ := bindOk.mp hit
    cases value with
    | none => cases rest
    | some content =>
      obtain ⟨k,_,rfl⟩ := map_eq_some_iff.mp (Except.ok.inj rest)
      by_cases empty : k = []
      · subst empty
        cases bound
      · rw [hexKeyEncode empty] at bound
        have same : key = k := (some.inj (Except.ok.inj bound)).symm
        exact ⟨k,row,rfl,empty,same ▸ found,path⟩
  · split at hit
    · cases hit
      rw [spelled,hexKeyEncode some'] at bound
      have same : key = own := (some.inj (Except.ok.inj bound)).symm
      exact ⟨own,row,spelled,some',same ▸ found,path⟩
    · cases hit
    · cases hit

structure TargetPut (e : Engine) (cfg : StoreConfig) (s : State) (call : PutCall) (s' : State) (m : Manifest)
    (output : Bytes) (stages : List PipelineStage) (key : Key) : Prop where
  built : buildPut e.hasher e.registry cfg.pipeline call.payload = .ok (output,stages)
  layout : m.layout = .target
  pipeline : m.pipeline = stages
  size : m.originalSize = call.payload.length
  ref : m.blobRefs = [hexOut key]
  named : key ≠ []
  row : ∃ addr r, s'.index = register s.index m addr call.now r ∧ r.keys.refs = [key] ∧
    r.keys.content = e.hasher.sum call.payload ∧ registration e.indexes m = .ok r ∧
    ((∃ old, s.index.blobs.lookup key = some old ∧
        dedupProbe e s.index (e.hasher.hex call.payload) call.payload.length (e.hasher.hex output)
          (cryptoIdentityOf stages) = .ok (some (hexOut key))) ∨
      dedupProbe e s.index (e.hasher.hex call.payload) call.payload.length (e.hasher.hex output)
          (cryptoIdentityOf stages) = .ok none ∧
        key = e.hasher.sum output ∧ blobPath e.topology .regular (hexOut key) = .ok addr ∧
        s'.fs.lookup addr = some ⟨output,call.now,call.now⟩)

structure InlinePut (e : Engine) (cfg : StoreConfig) (s : State) (call : PutCall) (s' : State) (m : Manifest) : Prop where
  mode : cfg.inlineMode = true
  layout : m.layout = .inline
  pipeline : m.pipeline = []
  body : m.inlineBlob = call.payload
  refs : m.blobRefs = []
  row : ∃ addr r, s'.index = register s.index m addr call.now r ∧ r.keys.refs = [] ∧
    registration e.indexes m = .ok r

theorem registrationKeys {indexes} (ok : registration indexes m = .ok r)
    (stored : m.layout ≠ .inline) (refs : m.blobRefs = [hexOut key]) (named : key ≠ [])
    (hash : bindKey m.contentHash = .ok content) :
    r.keys.refs = [key] ∧ r.keys.content = content := by
  obtain ⟨keys,bound,_,_,last⟩ := by simpa only [registration,bindOk] using ok
  cases last
  obtain ⟨digest,_,rest⟩ := bindOk.mp bound
  have single : [hexOut key].mapM bindKey = .ok [key] := by
    rw [mapM_cons,bindHex named]
    rfl
  rw [if_neg stored,refs,if_neg (cons_ne_nil _ _),hash,single] at rest
  cases rest
  exact ⟨rfl,rfl⟩

theorem hexOutNe (named : key ≠ []) : hexOut key ≠ "" := by
  intro empty
  have bound := hexKeyEncode named
  rw [empty] at bound
  cases bound

theorem assembledTarget {fileBytes} (named : key ≠ [])
    (assembled : assembleManifest e cfg call ⟨e.hasher.hex call.payload,hexOut key,size,stages,none,addr⟩ = .ok (m,fileBytes)) :
    m.layout = .target ∧ m.pipeline = stages ∧ m.originalSize = size ∧ m.blobRefs = [hexOut key] ∧
      m.contentHash = e.hasher.hex call.payload := by
  obtain ⟨bytes,_,last⟩ := bindOk.mp assembled
  cases last
  exact ⟨rfl,rfl,rfl,if_neg (hexOutNe named),rfl⟩

theorem committedPut (c : Committed e cfg s call s' m) :
    InlinePut e cfg s call s' m ∨ ∃ output stages key, TargetPut e cfg s call s' m output stages key := by
  obtain ⟨placed,blob,placement,fileBytes,assembled,path,file,r,registered,fs,index⟩ := c
  cases placement with
  | inline mode =>
    obtain ⟨bytes,_,last⟩ := bindOk.mp assembled
    cases last
    exact .inl ⟨mode,rfl,rfl,rfl,rfl,_,r,index,(registrationRefs registered).mpr rfl,registered⟩
  | shared _ output stages existing addr built hit resolved _ files =>
    obtain ⟨key,row,rfl,named,found,_⟩ := probeHit rfl (sumNe e.hasher output) hit resolved
    obtain ⟨layout,pipeline,size,ref,hash⟩ := assembledTarget named assembled
    obtain ⟨refs,content⟩ := registrationKeys registered (by rw [layout]; decide) ref named
      (hash ▸ bindSum e.hasher call.payload)
    exact .inr ⟨output,stages,key,built,layout,pipeline,size,ref,named,addr,r,index,refs,content,registered,
      .inl ⟨row,found,hit⟩⟩
  | fresh _ output stages final built miss place _ stored files =>
    have named := sumNe e.hasher output
    obtain ⟨layout,pipeline,size,ref,hash⟩ := assembledTarget named assembled
    obtain ⟨refs,content⟩ := registrationKeys registered (by rw [layout]; decide) ref named
      (hash ▸ bindSum e.hasher call.payload)
    have kept : s'.fs.lookup final = some ⟨output,call.now,call.now⟩ := by
      rw [fs,LocalFs.put,lookupInsert,if_neg (headsApart (blobPathHead place) (manifestPathHead file) (by decide)),
        stored]
    exact .inr ⟨output,stages,e.hasher.sum output,built,layout,pipeline,size,ref,named,final,r,index,refs,content,
      registered,.inr ⟨miss,rfl,place,kept⟩⟩

theorem existsRow {limit} (bound : hexKey hash = .ok (some content))
    (hit : existsByContent limit tx hash size crypto = .ok (some ref)) :
    ∃ key row, ref = hexOut key ∧ tx.blobs.lookup key = some row ∧ row.contentHash = content ∧
      row.originalSize = size ∧ row.cryptoIdentity = crypto := by
  obtain ⟨value,again,rest⟩ := bindOk.mp hit
  cases okSame bound again
  obtain ⟨key,picked,rfl⟩ := map_eq_some_iff.mp (Except.ok.inj rest)
  obtain ⟨row,found,same,sized,crypt⟩ := contentMatch (limit.mem picked)
  exact ⟨key,row,rfl,found,same,sized,crypt⟩

def RowsPlaced (topology : PathTopology) (tx : Index) : Prop :=
  ∀ key row, tx.blobs.lookup key = some row →
    validateRefShape (hexOut key) = .ok () ∧ blobPath topology .regular (hexOut key) = .ok row.physicalPath

structure OwnRow (e : Engine) (s s' : State) (call : PutCall) (output : Bytes) (key : Key) (row : BlobRow) : Prop where
  absent : s.index.blobs.lookup key = none
  sum : key = e.hasher.sum output
  content : row.contentHash = e.hasher.sum call.payload
  place : blobPath e.topology .regular (hexOut key) = .ok row.physicalPath
  written : s'.fs.lookup row.physicalPath = some ⟨output,call.now,call.now⟩

theorem targetRow {k} (stored : TargetPut e cfg s call s' m output stages key) (found : s'.index.blobs.lookup k = some row) :
    (∃ before, s.index.blobs.lookup k = some before ∧ identity row = identity before) ∨
      k = key ∧ OwnRow e s s' call output key row := by
  obtain ⟨addr,r,index,refs,content,_,side⟩ := stored.row
  rw [index] at found
  rcases registeredRow found with ⟨old,held,same⟩ | ⟨absent,mem,same⟩
  · exact .inl ⟨old,held,same⟩
  rw [refs,mem_singleton] at mem
  subst mem
  rcases side with ⟨old,held,_⟩ | ⟨_,sum,path,written⟩
  · rw [held] at absent
    contradiction
  · have hash : row.contentHash = e.hasher.sum call.payload := by
      simpa [identity,blobRow,content] using congrArg BlobRow.contentHash same
    have addressed : row.physicalPath = addr := by simpa [identity,blobRow] using congrArg BlobRow.physicalPath same
    subst addressed
    exact .inr ⟨rfl,absent,sum,hash,path,written⟩

theorem placedRegister (stored : TargetPut e cfg s call s' m output stages key) (placed : RowsPlaced e.topology s.index) :
    RowsPlaced e.topology s'.index := by
  intro k row found
  rcases targetRow stored found with ⟨old,held,same⟩ | ⟨rfl,own⟩
  · rw [(identityEq same).2.2.1]
    exact placed k old held
  · refine ⟨?_,own.place⟩
    rw [own.sum]
    exact hexShape e.hasher output

theorem inlineBlobs (inline : InlinePut e cfg s call s' m) : s'.index.blobs = s.index.blobs := by
  obtain ⟨addr,r,index,refs,_⟩ := inline.row
  simp [index,register,refs,registerRefs]

theorem rowHead {topology} (placed : RowsPlaced topology tx) (found : tx.blobs.lookup key = some row) :
    row.physicalPath.toList.head? = some 'b' :=
  blobPathHead (placed key row found).2

theorem putRowFile {outcome} (h : put e cfg s call = (s',outcome))
    (placed : RowsPlaced e.topology s.index) (found : s.index.blobs.lookup key = some row) :
    s'.fs.lookup row.physicalPath = s.fs.lookup row.physicalPath ∨ ∃ output stages,
      buildPut e.hasher e.registry cfg.pipeline call.payload = .ok (output,stages) ∧
      e.hasher.sum output = key ∧ s'.fs.lookup row.physicalPath = some ⟨output,call.now,call.now⟩ := by
  obtain ⟨shape,path⟩ := placed key row found
  rcases putFiles h (blobPathHead path) with same | ⟨output,stages,built,place,written⟩
  · exact .inl same
  · refine .inr ⟨output,stages,built,?_,written⟩
    exact HexText.encodeInjective (blobPathInjective (hexShape e.hasher output) shape place path)

end Scrinium.Cas
