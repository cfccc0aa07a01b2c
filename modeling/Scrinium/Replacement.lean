import Scrinium.ManifestFiles

/-! Replacing an artifact: a Put and then a Delete of another handle, or of the same. -/
namespace Scrinium.Replacement
open Keyed Domain Layout LocalFs Pipeline SqliteIndex Cas Gc StoreRuns ManifestFiles Trace Option
open ManifestCodec (wholeSeconds)

def handleFor (e : Engine) (cfg : StoreConfig) (payload nonce : Bytes) : String :=
  e.handleOf (e.hasher.hex payload) (if cfg.identityMode = .coalesced then [] else nonce)

def Honest (e : Engine) (s : State) : Prop :=
  ∀ key row file, s.index.blobs.lookup key = some row → s.fs.lookup row.physicalPath = some file → e.hasher.sum file.data = key

structure Whole (e : Engine) (s : State) : Prop where
  settled : Settled e s
  honest : Honest e s

variable {e : Engine} {s s'} {cfg : StoreConfig} {call}

theorem honestPut (placed : RowsPlaced e.topology s.index) (honest : Honest e s) (cfg : StoreConfig) (call : PutCall) :
    Honest e (Cas.put e cfg s call).1 := by
  rcases done : Cas.put e cfg s call with ⟨s',outcome⟩
  have before : ∀ key row file, s.index.blobs.lookup key = some row → s'.fs.lookup row.physicalPath = some file →
      e.hasher.sum file.data = key := by
    intro key row file found there
    rcases putRowFile done placed found with same | ⟨output,stages,_,sum,written⟩
    · exact honest key row file found (same ▸ there)
    · cases written.symm.trans there
      exact sum
  intro key row file found there
  cases outcome with
  | error err => exact before key row file (putFailed done ▸ found) there
  | ok m =>
    obtain ⟨committed⟩ := putCommitted done
    rcases committedPut committed with inline | ⟨output,stages,own,stored⟩
    · exact before key row file (inlineBlobs inline ▸ found) there
    rcases targetRow stored found with ⟨old,held,same⟩ | ⟨rfl,own⟩
    · exact before key old file held ((identityEq same).2.2.1 ▸ there)
    · cases own.written.symm.trans there
      exact own.sum.symm

theorem honestDelete (placed : RowsPlaced e.topology s.index) (honest : Honest e s) (cfg : StoreConfig) (id : String)
    (now : Instant) : Honest e (Cas.delete e cfg s id now).1 := by
  rcases done : Cas.delete e cfg s id now with ⟨s',outcome⟩
  intro key row file found there
  rcases deleteCases done with ⟨rfl,_⟩ | ⟨digest,path,_,laid,fs,rest⟩
  · exact honest key row file found there
  have old : ∃ before, s.index.blobs.lookup key = some before ∧ identity before = identity row := by
    rcases rest with ⟨index,_⟩ | ⟨dropped,_⟩
    · exact ⟨row,index ▸ found,rfl⟩
    · have same := droppedRow dropped key
      rw [found,map_some] at same
      exact map_eq_some_iff.mp same.symm
  obtain ⟨before,held,same⟩ := old
  rw [← (identityEq same).2.2.1,fs,removedBlob laid (rowHead placed held)] at there
  exact honest key before file held there

theorem honestCycle (placed : RowsPlaced e.topology s.index) (honest : Honest e s) (complete : Bool) (grace : Nat)
    (tMark tSweep : Instant) : Honest e (runCycle complete grace tMark tSweep s).state := by
  intro key row file found there
  have after := cycled placed complete grace tMark tSweep
  have held := after.rows key row found
  rw [after.files key row held] at there
  split at there
  · cases there
  · exact honest key row file held there

/-- A store reached by Puts of legible manifests, Deletes and collections has a file for every row and blobs that hash to
their refs. -/
theorem wholeRun (codec : Codec e) (commit : DeletesCommit e) {ops} (legible : Along (advance e) (PutsLegible e) emptyStore ops) :
    Whole e (after (advance e) emptyStore ops) := by
  have keep : ∀ s op, Whole e s → PutsLegible e s op → Whole e (advance e s op) := by
    intro s op whole ok
    refine ⟨settledAdvance codec commit whole.settled ok,?_⟩
    cases op with
    | put cfg call => exact honestPut whole.settled.placed whole.honest cfg call
    | delete cfg id now => exact honestDelete whole.settled.placed whole.honest cfg id now
    | cycle complete grace tMark tSweep => exact honestCycle whole.settled.placed whole.honest complete grace tMark tSweep
  have initial : Whole e emptyStore := by
    refine ⟨⟨storedEmpty e,placedEmpty e.topology⟩,fun key row file found => ?_⟩
    simp [emptyStore,Index.empty] at found
  exact invariantAfter keep initial legible

variable {m key}

section

structure Written (e : Engine) (cfg : StoreConfig) (call : PutCall) (m : Manifest) : Prop where
  handle : m.artifactID = handleFor e cfg call.payload call.nonce
  created : m.createdAt = some call.now
  session : m.sessionID = call.sessionID
  content : m.contentHash = e.hasher.hex call.payload
  ext : m.ext = call.ext
  usr : m.usr = call.usr
  refs : m.handleRefs = call.parentRefs
  retention : m.retentionUntil = call.retentionUntil

theorem putWritten (done : Cas.put e cfg s call = (s',.ok m)) : Written e cfg call m := by
  obtain ⟨placed,blob,placement,raw,assembled,_⟩ := putCommitted done
  have content : blob.contentHash = e.hasher.hex call.payload := by
    cases placement with
    | inline => rfl
    | shared => rfl
    | fresh => rfl
  obtain ⟨bytes,_,last⟩ := bindOk.mp assembled
  cases last
  exact ⟨by simp only [handleFor,content],rfl,rfl,content,rfl,rfl,rfl,rfl⟩

structure Leads (e : Engine) (s : State) (id : String) (key : Key) (row : ManifestRow) (m : Manifest) : Prop where
  newest : Stamped.Newest ManifestRow.artifactID ManifestRow.csn s.index.manifests id key row
  filed : Filed e s.fs key row m

theorem loadOk (stored : Stored e s) {id} :
    load e s id = .ok m ↔ ∃ key row m0, Leads e s id key row m0 ∧ m = read key m0 := by
  constructor
  · intro loaded
    obtain ⟨key,row,_,newest⟩ := resolvesNewest (loadResolved loaded).1
    obtain ⟨m0,filed⟩ := stored.2 key row newest.found
    have same := loadNewest newest stored.1.distinct filed
    exact ⟨key,row,m0,⟨newest,filed⟩,okSame loaded same⟩
  · rintro ⟨key,row,m0,leads,rfl⟩
    exact loadNewest leads.newest stored.1.distinct leads.filed

/- The manifest as the store reads it back. -/
def reread (e : Engine) (m : Manifest) : Manifest :=
  match (do e.decodeManifest (← e.encodeManifest {m with digest := ""})) with
  | .ok d => {d with digest := m.digest}
  | .error _ => m

theorem rereadDigest (e : Engine) (m : Manifest) : (reread e m).digest = m.digest := by
  unfold reread
  split <;> rfl

structure Entered (e : Engine) (s s' : State) (m : Manifest) (key : Key) (row : ManifestRow) (d : Manifest) : Prop where
  back : read key d = reread e m
  carried : ∃ ext usr, d = ManifestCodec.carried m ext usr
  lookup : ∀ k, s'.index.manifests.lookup k = if k = key then some row else s.index.manifests.lookup k
  above : ∀ k r, s.index.manifests.lookup k = some r → r.csn < row.csn
  filed : Filed e s'.fs key row d
  kept : ∀ k r old, Filed e s.fs k r old → Filed e s'.fs k r old

theorem putEntered (codec : Codec e) (stored : Stored e s) (legible : PutsLegible e s (.put cfg call))
    (done : Cas.put e cfg s call = (s',.ok m)) : ∃ key row d, Entered e s s' m key row d := by
  rcases putWrites done with ⟨_,_,err,failed⟩ | ⟨m0,raw,place,wrote,⟨_,⟨err,failed⟩,_⟩ | ⟨addr,r,possible,index,ended⟩⟩
  · cases failed
  · cases failed
  cases ended
  have digest : r.keys.digest = e.hasher.sum raw := okSame (registrationDigest possible) (bindSum e.hasher raw)
  have lookup : ∀ k, s'.index.manifests.lookup k = _ := fun k => by rw [index,registerLookup,digest]
  have refiled : ∀ k r old, Filed e s.fs k r old → Filed e s'.fs k r old := fun k r old => filedOver wrote (legible _ wrote.offers).apart
  obtain ⟨d,ext,usr,decoded,same,filed⟩ := filedNew wrote codec legible
  have back : read (e.hasher.sum raw) d = reread e (read (e.hasher.sum raw) m0) := by
    have encoded : e.encodeManifest {read (e.hasher.sum raw) m0 with digest := ""} = .ok raw := by
      rw [← wrote.blank]
      exact wrote.encoded
    simp only [reread,encoded,bind,Except.bind,decoded]
    rfl
  refine ⟨_,_,d,back,⟨ext,usr,same⟩,lookup,?_,?_,refiled⟩
  · intro k r found
    exact Nat.lt_succ_of_le (stored.1.issued found).2
  cases held : s.index.manifests.lookup (e.hasher.sum raw) with
  | none =>
    obtain ⟨contentHash,nonce,same⟩ := wrote.handle
    have named : m0.artifactID ≠ "" := same ▸ codec.named contentHash nonce
    exact filed rfl (if_neg named)
  | some old =>
    -- a row that was there belongs to the very same file
    obtain ⟨m1,earlier⟩ := stored.2 _ old held
    have again : Filed e s'.fs _ {old with artifactID := some m0.artifactID, sessionID := m0.sessionID} _ := filed rfl rfl
    cases filedUnique (refiled _ _ _ earlier) again
    subst same
    exact filed earlier.session earlier.handle

variable {row} {d : Manifest}

theorem enteredLeads (entered : Entered e s s' m key row d) : Leads e s' m.artifactID key row d := by
  have found : s'.index.manifests.lookup key = some row := (entered.lookup key).trans (if_pos rfl)
  refine ⟨⟨found,?_,fun {k r} there _ => ?_⟩,entered.filed⟩
  · obtain ⟨ext,usr,rfl⟩ := entered.carried
    exact entered.filed.handle
  · rw [entered.lookup] at there
    split at there
    · cases there
      exact Nat.le_refl _
    · exact (entered.above k r there).le

/- No manifest in the store is of the second that is now. -/
def Ticked (e : Engine) (s : State) (now : Instant) : Prop :=
  ∀ key row m, s.index.manifests.lookup key = some row → Filed e s.fs key row m → m.createdAt ≠ some (wholeSeconds now)

def tickedBy (e : Engine) (s : State) (now : Instant) : Bool :=
  s.index.manifests.keys.all fun key =>
    match manifestPath (hexOut key) with
    | .error _ => true
    | .ok path =>
      match s.fs.lookup path with
      | none => true
      | some file =>
        match e.decodeManifest file.data with
        | .error _ => true
        | .ok m => m.createdAt ≠ some (wholeSeconds now)

theorem tickedOf {now} (checked : tickedBy e s now = true) : Ticked e s now := by
  intro key row m found filed
  obtain ⟨path,file,laid,there,_,decoded,_⟩ := filed.file
  have mem : key ∈ s.index.manifests.keys := AList.mem_keys.mp (AList.lookup_isSome.mp (by rw [found]; rfl))
  have at' := List.all_eq_true.mp checked key mem
  simp only [laid,there,decoded] at at'
  simpa using at'

theorem enteredNew (stored : Stored e s) (written : Written e cfg call m)
    (ticked : Ticked e s call.now) (entered : Entered e s s' m key row d) :
    s.index.manifests.lookup key = none := by
  cases held : s.index.manifests.lookup key with
  | none => rfl
  | some old =>
    obtain ⟨m1,filed⟩ := stored.2 key old held
    cases filedUnique (entered.kept _ _ _ filed) entered.filed
    obtain ⟨ext,usr,rfl⟩ := entered.carried
    refine absurd ?_ (ticked key old _ held filed)
    simp only [ManifestCodec.carried,written.created,map_some]

end

variable {s1 s2}

section
variable {old now}
theorem storedAfter (codec : Codec e) (stored : Stored e s) (legible : PutsLegible e s (.put cfg call))
    (done : Cas.put e cfg s call = (s1,.ok m)) : Stored e s1 := by
  have kept := storedPut codec stored legible
  rwa [done] at kept

theorem leadsDropped {id gone path key k row r m0} (d : Dropped s1 s2 gone key row path)
    (away : k ≠ key) (leads : Leads e s1 id k r m0) : Leads e s2 id k r m0 := by
  have found : s2.index.manifests.lookup k = some r := by rw [droppedLookup d,if_neg away,leads.newest.found]
  refine ⟨⟨found,leads.newest.member,fun {other r'} there member => ?_⟩,filedDropped d away leads.filed⟩
  exact leads.newest.top (droppedHeld d there).2 member

variable (codec : Codec e) (stored : Stored e s) (legible : PutsLegible e s (.put cfg call))
  (done : Cas.put e cfg s call = (s1,.ok m)) (deleted : Cas.delete e cfg s1 old now = (s2,.ok ()))
include codec stored legible done deleted

theorem replacedLoads (differ : m.artifactID ≠ old) : load e s2 m.artifactID = .ok (reread e m) ∧
    ∃ ext usr, reread e m = {ManifestCodec.carried m ext usr with digest := m.digest} := by
  obtain ⟨key,row,d,entered⟩ := putEntered codec stored legible done
  obtain ⟨gone,row',path,dropped⟩ := deleteDropped deleted
  have stored1 := storedAfter codec stored legible done
  have leads := enteredLeads entered
  have away : key ≠ gone := by
    rintro rfl
    have member := dropped.newest.member
    rw [someSame dropped.newest.found leads.newest.found,leads.newest.member] at member
    exact differ (some.inj member)
  refine ⟨(loadOk (storedDropped stored1 dropped)).mpr ⟨key,row,d,leadsDropped dropped away leads,entered.back.symm⟩,?_⟩
  obtain ⟨ext,usr,rfl⟩ := entered.carried
  exact ⟨ext,usr,by rw [← entered.back,← rereadDigest e m,← entered.back]; rfl⟩

theorem restoredLoads (same : m.artifactID = old) (ticked : Ticked e s call.now)
    {before} (loaded : load e s old = .ok before) : load e s2 old = .ok before := by
  obtain ⟨key,row,d,entered⟩ := putEntered codec stored legible done
  obtain ⟨gone,row',path,dropped⟩ := deleteDropped deleted
  have stored1 := storedAfter codec stored legible done
  have new := enteredNew stored (putWritten done) ticked entered
  -- the newest row of the handle is the one just written
  have own : gone = key := Stamped.newestUnique stored1.1.distinct dropped.newest (same ▸ (enteredLeads entered).newest)
  subst own
  obtain ⟨k,r,m1,leads,rfl⟩ := (loadOk stored).mp loaded
  have away : k ≠ gone := by
    rintro rfl
    cases leads.newest.found.symm.trans new
  refine (loadOk (storedDropped stored1 dropped)).mpr ⟨k,r,m1,⟨⟨?_,leads.newest.member,fun {other r'} there member => ?_⟩,?_⟩,rfl⟩
  · rw [droppedLookup dropped,if_neg away,entered.lookup,if_neg away]
    exact leads.newest.found
  · obtain ⟨differ,there⟩ := droppedHeld dropped there
    rw [entered.lookup,if_neg differ] at there
    exact leads.newest.top there member
  · exact filedDropped dropped away (entered.kept _ _ _ leads.filed)

end

section
variable {before bytes}
theorem resolveAlike {tx tx'} (same : ∀ key, (tx'.blobs.lookup key).map identity = (tx.blobs.lookup key).map identity)
    (ref : String) : resolve tx' ref = resolve tx ref := by
  unfold resolve
  cases bound : hexKey ref with
  | error err => rfl
  | ok value =>
    cases value with
    | none => rfl
    | some key =>
      have alike := same key
      simp only [bind,Except.bind]
      cases held : tx.blobs.lookup key with
      | none =>
        rw [held,map_none,map_eq_none_iff] at alike
        rw [alike]
      | some row =>
        rw [held,map_some] at alike
        obtain ⟨row',found,same⟩ := map_eq_some_iff.mp alike
        simp only [found,(identityEq same).2.2.1]

variable {path}

theorem opensAlike {s'} (placed : RowsPlaced e.topology s.index)
    (blobs : ∀ k, (s'.index.blobs.lookup k).map identity = (s.index.blobs.lookup k).map identity)
    (files : ∀ place, place.toList.head? = some 'b' → s'.fs.lookup place = s.fs.lookup place) (m : Manifest) :
    openBlob e s' m = openBlob e s m := by
  have raw : openRawBlob s' m = openRawBlob s m := by
    unfold openRawBlob
    cases m.layout with
    | inline => rfl
    | unset => rfl
    | target =>
      simp only
      rw [resolveAlike blobs]
      cases resolved : resolve s.index m.primaryBlobRef with
      | error err => rfl
      | ok place =>
        obtain ⟨k,r,_,found,rfl⟩ := resolveKey resolved
        simp only [bind,Except.bind]
        rw [LocalFs.get,files _ (rowHead placed found)]
        rfl
  rw [openBlob,raw]
  rfl

theorem droppedOpens {id row} (placed : RowsPlaced e.topology s1.index)
    (d : Dropped s1 s2 id key row path) (m : Manifest) : openBlob e s2 m = openBlob e s1 m := by
  refine opensAlike placed (fun k => ?_) (fun place blob => ?_) m
  · rw [d.index]
    exact dropIdentity _ _ k
  · rw [d.fs,removedBlob d.laid blob]

/- The blob about to be written collides with no file. -/
def BlobApart (e : Engine) (cfg : StoreConfig) (s : State) (payload : Bytes) : Prop :=
  ∀ output stages, buildPut e.hasher e.registry cfg.pipeline payload = .ok (output,stages) →
    Readback.CollisionFree e.hasher (output::s.fs.entries.map fun entry => entry.2.data)

theorem putOpens (whole : Whole e s) (apart : BlobApart e cfg s call.payload) (done : Cas.put e cfg s call = (s1,.ok m))
    (opened : openBlob e s before = .ok bytes) : openBlob e s1 before = .ok bytes := by
  obtain ⟨raw,read,built⟩ := bindOk.mp opened
  refine bindOk.mpr ⟨raw,?_,built⟩
  obtain ⟨committed⟩ := putCommitted done
  unfold openRawBlob at read ⊢
  cases layout : before.layout with
  | inline => rw [layout] at read; exact read
  | unset => rw [layout] at read; cases read
  | target =>
    simp only [layout] at read ⊢
    obtain ⟨place,resolved,fetched⟩ := bindOk.mp read
    obtain ⟨key,row,bound,found,rfl⟩ := resolveKey resolved
    obtain ⟨row',found',same⟩ := registeredKeeps m committed.blob.addr call.now committed.keys found
    rw [← committed.index] at found'
    have data : ∃ file, s.fs.lookup row.physicalPath = some file ∧ file.data = raw := by
      cases held : LocalFs.get s.fs row.physicalPath with
      | ok data =>
        rw [held] at fetched
        cases fetched
        exact getOk.mp held
      | error err =>
        rw [held] at fetched
        cases err <;> cases fetched
    obtain ⟨file,there,rfl⟩ := data
    have kept : ∃ file', s1.fs.lookup row.physicalPath = some file' ∧ file'.data = file.data := by
      rcases putRowFile done whole.settled.placed found with same | ⟨output,stages,built,sum,written⟩
      · exact ⟨file,same.trans there,rfl⟩
      · refine ⟨_,written,apart output stages built _ List.mem_cons_self _ (List.mem_cons_of_mem _ ?_) ?_⟩
        · exact List.mem_map.mpr ⟨_,lookupEntry.mp there,rfl⟩
        · exact sum.trans (whole.honest key row file found there).symm
    have place : resolve s1.index before.primaryBlobRef = .ok row.physicalPath := by
      simp only [resolve,bound,bind,Except.bind,found',(identityEq same).2.2.1]
      rfl
    simp only [place,getOk.mpr kept,bind,Except.bind]
    rfl

def inlined (cfg : StoreConfig) (payload : Bytes) : Bool := cfg.inlineMode && payload.length ≤ cfg.inlineBlobLimit

def HitReads (e : Engine) (cfg : StoreConfig) (s : State) (payload : Bytes) : Prop :=
  inlined cfg payload = true ∨ ∀ output stages existing,
    buildPut e.hasher e.registry cfg.pipeline payload = .ok (output,stages) →
    dedupProbe e s.index (e.hasher.hex payload) payload.length (e.hasher.hex output) (cryptoIdentityOf stages) = .ok (some existing) →
    ∃ place data, resolve s.index existing = .ok place ∧ LocalFs.get s.fs place = .ok data ∧
      buildGet e.registry stages data = .ok payload

theorem putMaterialize (done : Cas.put e cfg s call = (s1,.ok m)) : ∃ mid blob, materialize e cfg s call = (mid,.ok blob) ∧
    m.layout = (if blob.inlineBytes.isSome then .inline else .target) := by
  unfold Cas.put at done
  split at done
  · cases done
  split at done
  · cases done
  next mid blob placed =>
  refine ⟨mid,blob,placed,?_⟩
  split at done
  · cases done
  next m' raw assembled =>
  split at done
  · cases done
  cases done
  obtain ⟨bytes,_,last⟩ := bindOk.mp assembled
  cases last
  rfl

theorem streamedBlob {blob} (ok : streamToTarget e cfg s call = (s1,.ok blob)) : blob.inlineBytes = none := by
  unfold streamToTarget at ok
  split at ok
  · cases ok
  simp only [Prod.mk.injEq] at ok
  obtain ⟨_,mapped⟩ := ok
  generalize commitBlob e _ _ _ _ _ _ _ = pair at mapped
  obtain ⟨_,outcome⟩ := pair
  cases outcome with
  | error err => cases mapped
  | ok both => cases mapped; rfl

theorem putInlined (done : Cas.put e cfg s call = (s1,.ok m)) : m.layout = .inline ↔ inlined cfg call.payload = true := by
  obtain ⟨mid,blob,placed,layout⟩ := putMaterialize done
  unfold materialize at placed
  split at placed
  · cases placed
  split at placed
  · next inline =>
    cases placed
    exact iff_of_true layout inline
  · next stored =>
    refine iff_of_false ?_ stored
    rw [layout,streamedBlob placed]
    decide

theorem putShared {output stages existing} (done : Cas.put e cfg s call = (s1,.ok m))
    (built : buildPut e.hasher e.registry cfg.pipeline call.payload = .ok (output,stages))
    (hit : dedupProbe e s.index (e.hasher.hex call.payload) call.payload.length (e.hasher.hex output) (cryptoIdentityOf stages) = .ok (some existing))
    (blob : path.toList.head? = some 'b') : s1.fs.lookup path = s.fs.lookup path := by
  obtain ⟨placed,result,placement,raw,_,place,laid,_,_,fs,_⟩ := putCommitted done
  have notStaging : path ≠ stagingPath call.stagingID := headsApart blob (stagingHead _) (by decide)
  have notManifest : path ≠ place := headsApart blob (manifestPathHead laid) (by decide)
  rw [fs,LocalFs.put,lookupInsert,if_neg notManifest]
  cases placement with
  | inline => rfl
  | shared _ _ _ _ _ _ _ _ _ files => exact files path notStaging
  | fresh _ output' stages' final built' miss _ _ _ _ =>
    cases built.symm.trans built'
    rw [miss] at hit
    cases hit

theorem openTarget {row} (layout : m.layout = .target) (ref : m.blobRefs = [hexOut key]) (named : key ≠ [])
    (found : s.index.blobs.lookup key = some row) : openBlob e s m = .ok bytes ↔
      ∃ file, s.fs.lookup row.physicalPath = some file ∧ buildGet e.registry m.pipeline file.data = .ok bytes := by
  have place : resolve s.index m.primaryBlobRef = .ok row.physicalPath := by
    rw [Manifest.primaryBlobRef,ref]
    exact resolveRow named found
  unfold openBlob openRawBlob
  simp only [layout,place,bind,Except.bind]
  cases held : LocalFs.get s.fs row.physicalPath with
  | ok data =>
    obtain ⟨file,there,rfl⟩ := getOk.mp held
    simp [there,pure,Except.pure]
  | error err =>
    have gone : ∀ file, s.fs.lookup row.physicalPath ≠ some file := by
      intro file there
      rw [getOk.mpr ⟨file,there,rfl⟩] at held
      cases held
    constructor
    · intro opened
      cases err <;> cases opened
    · rintro ⟨file,there,_⟩
      exact absurd there (gone file)

/-- The new artifact reads back exactly when the blob it was stored by does. -/
theorem putReads (placed : RowsPlaced e.topology s.index) (inverse : ∀ algo, Inverts e.hasher e.registry algo)
    (done : Cas.put e cfg s call = (s1,.ok m)) : openBlob e s1 m = .ok call.payload ↔ HitReads e cfg s call.payload := by
  have kind := putInlined done
  obtain ⟨committed⟩ := putCommitted done
  rcases committedPut committed with inline | ⟨output,stages,key,target⟩
  · refine iff_of_true ?_ (.inl (kind.mp inline.layout))
    simp [openBlob,openRawBlob,inline.layout,inline.pipeline,inline.body,bind,Except.bind,buildGet]
  have stored : inlined cfg call.payload ≠ true := by
    intro inline
    cases target.layout.symm.trans (kind.mpr inline)
  obtain ⟨addr,r,index,refs,_,_,side⟩ := target.row
  rw [HitReads,or_iff_right stored]
  rcases side with ⟨row,held,hit⟩ | ⟨miss,sum,path,written⟩
  · obtain ⟨row',found',same⟩ := registeredKeeps m addr call.now r held
    rw [← index] at found'
    have files : s1.fs.lookup row.physicalPath = s.fs.lookup row.physicalPath := putShared done target.built hit (rowHead placed held)
    rw [openTarget target.layout target.ref target.named found',(identityEq same).2.2.1,files,target.pipeline]
    constructor
    · rintro ⟨file,there,built⟩ output' stages' existing' built' hit'
      cases target.built.symm.trans built'
      cases hit.symm.trans hit'
      exact ⟨_,_,resolveRow target.named held,getOk.mpr ⟨file,there,rfl⟩,built⟩
    · intro reads
      obtain ⟨place,data,resolved,fetched,built⟩ := reads output stages _ target.built hit
      cases resolved.symm.trans (resolveRow target.named held)
      obtain ⟨file,there,rfl⟩ := getOk.mp fetched
      exact ⟨file,there,built⟩
  · refine iff_of_true ?_ ?_
    · have has : key ∈ s1.index.blobs := index ▸ registeredHas m addr call.now (refs ▸ List.mem_singleton_self key)
      obtain ⟨row,found⟩ := memLookup.mp has
      have place : row.physicalPath = addr := by
        have laid := (placedRegister target placed key row found).2
        exact okSame laid path
      rw [openTarget target.layout target.ref target.named found,place,target.pipeline]
      exact ⟨_,written,buildGetPut (fun algo _ => inverse algo) target.built⟩
    · intro output' stages' existing built' hit
      cases target.built.symm.trans built'
      rw [miss] at hit
      cases hit

end

section

def namingKeyPublic : Bytes := "scrinium/artifact-id/v1".toList.map fun c => c.toNat.toUInt8

/- ComputeHandle over hashing.Handle: of a manifest only the content hash is fed to it. -/
def computeHandle (h : Hasher) (contentHash : String) (nonce : Bytes) : String :=
  h.format (namingKeyPublic ++ (HexText.decode contentHash).getD [] ++ h.sum identityMetaCanonEmpty ++ nonce)

variable {cfg' : StoreConfig} {s1' call' m'}

theorem formatInjective {h : Hasher} (free : Function.Injective h.sum) {a b} (same : h.format a = h.format b) : a = b := by
  have digits : h.hex a = h.hex b := by
    have chars := congrArg String.toList same
    simp only [Hasher.format,String.toList_append] at chars
    exact String.toList_inj.mp (List.append_cancel_left chars)
  exact free (HexText.encodeInjective digits)

section
variable (named : e.handleOf = computeHandle e.hasher) (free : Function.Injective e.hasher.sum)
    (mode : cfg.identityMode = .coalesced) (mode' : cfg'.identityMode = .coalesced)
include named free mode mode'
theorem coalescedContents {payload payload' nonce nonce'} :
    handleFor e cfg payload nonce = handleFor e cfg' payload' nonce' ↔ payload = payload' := by
  constructor
  · intro same
    rw [handleFor,handleFor,if_pos mode,if_pos mode',named] at same
    have fed := formatInjective free same
    rw [Hasher.hex,Hasher.hex,HexText.decodeEncode,HexText.decodeEncode] at fed
    exact free (List.append_cancel_left (List.append_cancel_right (List.append_cancel_right fed)))
  · rintro rfl
    rw [handleFor,handleFor,if_pos mode,if_pos mode']

/-- In Coalesced mode equal ids of two Puts mean equal contents and equal sources exactly if Puts of these contents name
the same sources. -/
theorem sourcesReflectedExactly (put : Cas.put e cfg s call = (s1,.ok m)) (put' : Cas.put e cfg' s' call' = (s1',.ok m')) :
    (m.artifactID = m'.artifactID → call.payload = call'.payload ∧ m.handleRefs = m'.handleRefs) ↔
      (call.payload = call'.payload → call.parentRefs = call'.parentRefs) := by
  have written := putWritten put
  have written' := putWritten put'
  rw [written.handle,written'.handle,coalescedContents named free mode mode',written.refs,written'.refs]
  exact ⟨fun reflected same => (reflected same).2,fun refs same => ⟨same,refs same⟩⟩

end

def derivingEngine : Engine :=
  {Readback.sampleEngine with
    handleOf := computeHandle Readback.sampleEngine.hasher, encodeManifest := fun m => .ok [m.handleRefs.length.toUInt8]}

def coalescing : StoreConfig := {Readback.sampleConfig [] with identityMode := .coalesced}

def derivedPut (refs : List String) (s : State) : State × Except Error Manifest :=
  Cas.put derivingEngine coalescing s {Readback.sampleCall "u" 1 10 with parentRefs := refs}

theorem sourceNotReflected :
    ((derivedPut [] emptyStore).2.toOption.map fun m => m.handleRefs.length) = some 0 ∧
      ((derivedPut ["source"] (derivedPut [] emptyStore).1).2.toOption.map fun m => m.handleRefs.length) = some 1 ∧
      (derivedPut [] emptyStore).2.toOption.map Manifest.artifactID =
        (derivedPut ["source"] (derivedPut [] emptyStore).1).2.toOption.map Manifest.artifactID := by
  decide +kernel

theorem putReturned {out : State × Except Error Manifest} (some' : out.2.toOption.isSome) : ∃ s1 m, out = (s1,.ok m) := by
  obtain ⟨s1,_ | m⟩ := out
  · cases some'
  · exact ⟨s1,m,rfl⟩

theorem sourceReflected : ∃ s1 m s1' m', derivedPut ["source"] emptyStore = (s1,.ok m) ∧
    derivedPut ["source"] (derivedPut ["source"] emptyStore).1 = (s1',.ok m') ∧
    (m.artifactID = m'.artifactID → m.handleRefs = m'.handleRefs) := by
  have once : (derivedPut ["source"] emptyStore).2.toOption.isSome := by decide +kernel
  have twice : (derivedPut ["source"] (derivedPut ["source"] emptyStore).1).2.toOption.isSome := by decide +kernel
  obtain ⟨s1,m,first⟩ := putReturned once
  obtain ⟨s1',m',second⟩ := putReturned twice
  have free : Function.Injective derivingEngine.hasher.sum := by
    intro a b same
    simpa [derivingEngine,Readback.sampleEngine] using same
  exact ⟨s1,m,s1',m',first,second,fun same => ((sourcesReflectedExactly rfl free rfl rfl first second).mpr (fun _ => rfl) same).2⟩

end

end Scrinium.Replacement
