import Scrinium.RollbackFrame
import Scrinium.Pointers
import Scrinium.Scrub

/-! What a clean pass of the scrub agent says about the store it went over. -/
namespace Scrinium.Scrub
open List hiding after
open Keyed Domain Layout LocalFs Pipeline SqliteIndex Cas StoreRuns Trace Function Rollback Option
open ManifestFiles (Codec)
variable {e : Engine} {s : State} {now : Instant} {key : Key}

section
variable {clock}
def Earned (e : Engine) (s : State) (c : Columns) : Prop :=
  ∀ key, c.manifests key = (columns s.index).manifests key ∨
    ∃ id, (s.index.manifests.lookup key).bind ManifestRow.artifactID = some id ∧ verifyManifest e s id = .ok ()

variable {p ids}

theorem earnedStamp (earned : Earned e s p.columns) (id : String) :
    Earned e s (stampConsumer e s clock p id).columns := by
  unfold stampConsumer
  split
  · next ok =>
    intro key
    by_cases mine : (s.index.manifests.lookup key).bind ManifestRow.artifactID = some id
    · exact .inr ⟨id,mine,ok⟩
    · simp only [markManifestVerified,stampManifests,if_neg mine]
      exact earned key
  · exact earned

theorem earnedCascade (earned : Earned e s p.columns) (ref : String) :
    Earned e s (cascadeStampConsumers e s clock p ref).columns := by
  unfold cascadeStampConsumers
  split
  · next ids listed =>
    clear listed
    induction ids generalizing p with
    | nil => exact earned
    | cons id rest ih => exact ih (earnedStamp earned id)
  · exact earned

theorem earnedBlob (earned : Earned e s p.columns) (ref : String) : Earned e s (blobStep e s clock p ref).columns := by
  have counted : Earned e s (markVerified clock {p with
      scannedBlobs := p.scannedBlobs + 1, verifiedBlobs := p.verifiedBlobs + 1} ref).columns := earned
  unfold blobStep
  split
  · exact earnedCascade counted ref
  · exact earned
  · exact earned

theorem earnedPhase : Earned e s (blobPhase e s clock now).columns := by
  unfold blobPhase
  have start : Earned e s (Pass.mk (columns s.index) 0 0 0 0).columns := fun _ => .inl rfl
  generalize Pass.mk (columns s.index) 0 0 0 0 = p at start
  generalize listUnverifiedBlobs s.index (columns s.index) now = refs
  induction refs generalizing p with
  | nil => exact start
  | cons ref rest ih => exact ih _ (earnedBlob start ref)

theorem handleChecked (clean : (verify e s clock now).failedBlobs = 0) {row id}
    (found : s.index.manifests.lookup key = some row) (handle : row.artifactID = some id)
    (due : unverified (formatTime now) row.lastVerifiedAt = true) : ¬ Fails (verifyManifest e s id) := by
  have earned : Earned e s (blobPhase e s clock now).columns := earnedPhase
  rcases earned key with kept | ⟨other,mine,ok⟩
  · refine (cleanPass clean).2 id ?_
    have column : (blobPhase e s clock now).columns.manifests key = row.lastVerifiedAt := by
      simp only [kept,columns,found,bind_some]
    refine mem_map.mpr ⟨⟨key,row⟩,(mem_insertionSort _).mpr (mem_filter.mpr ⟨lookupEntry.mp found,?_⟩),?_⟩
    · rw [column,handle,due]
      rfl
    · rw [handle,getD_some]
  · rw [found,bind_some,handle] at mine
    cases mine
    exact fun fails => fails.1 ok

theorem blobChecked (clean : (verify e s clock now).failedBlobs = 0) {row}
    (found : s.index.blobs.lookup key = some row) (due : unverified (formatTime now) row.lastVerifiedAt = true) :
    ¬ Fails (verifyBlobRef e s (hexOut key)) := by
  refine (cleanPass clean).1 _ (mem_map.mpr ⟨key,(mem_insertionSort _).mpr (mem_filter.mpr ⟨?_,?_⟩),rfl⟩)
  · exact AList.mem_keys.mp (memLookup.mpr ⟨row,found⟩)
  · simp only [columns,found,bind_some,due]

theorem firstLoadedOf {m} (ok : firstLoaded e s ids = .ok m) : ∃ id ∈ ids, load e s id = .ok m := by
  induction ids with
  | nil => cases ok
  | cons id rest ih =>
    unfold firstLoaded at ok
    split at ok
    · next loaded => exact ⟨id,mem_cons_self,loaded.trans ok⟩
    · obtain ⟨other,mem,loaded⟩ := ih ok
      exact ⟨other,mem_cons_of_mem id mem,loaded⟩
    · cases ok

theorem noneLoaded (absent : firstLoaded e s ids = .error .artifactNotFound) :
    ∀ id ∈ ids, load e s id = .error .artifactNotFound := by
  induction ids with
  | nil => exact nofun
  | cons id rest ih =>
    unfold firstLoaded at absent
    split at absent
    · cases absent
    · next missing =>
      intro other mem
      rcases mem_cons.mp mem with rfl | inside
      · exact missing
      · exact ih absent other inside
    · next notFound _ => exact absurd (Except.error.inj absent) notFound

end

variable {m : Manifest} {payload : Bytes}

section
variable {tx} {T : List Bytes}
structure Written (e : Engine) (T : List Bytes) (key : Key) (row : ManifestRow) (m : Manifest) (raw payload : Bytes) : Prop where
  texts : raw ∈ T ∧ payload ∈ T
  encoded : e.encodeManifest m = .ok raw
  digest : key = e.hasher.sum raw
  content : m.contentHash = e.hasher.hex payload
  size : m.originalSize = payload.length
  handle : row.artifactID ≠ some ""
  body : m.layout = .inline ∧ m.inlineBlob = payload ∧ m.pipeline = [] ∨
    m.layout = .target ∧ ∃ ref, hexKey m.primaryBlobRef = .ok (some ref) ∧ row.blobRef = some ref

structure Recorded (e : Engine) (T : List Bytes) (tx : Index) : Prop where
  sound : Sound tx
  rows : ∀ {key row}, tx.manifests.lookup key = some row → ∃ m raw payload, Written e T key row m raw payload

variable {raw indexes r}

theorem writtenSame {row row'} (w : Written e T key row m raw payload)
    (id : row'.artifactID = row.artifactID) (ref : row'.blobRef = row.blobRef) :
    Written e T key row' m raw payload :=
  ⟨w.texts,w.encoded,w.digest,w.content,w.size,id ▸ w.handle,ref ▸ w.body⟩

theorem recordedEmpty : Recorded e T Index.empty := ⟨soundEmpty,fun found => by simp [Index.empty] at found⟩

theorem recordedReap (rec : Recorded e T tx) {row} (found : tx.blobs.lookup key = some row)
    (orphan : row.refCount = 0) : Recorded e T {tx with blobs := tx.blobs.erase key} :=
  ⟨soundReap rec.sound found orphan,rec.rows⟩

theorem recordedDrop (rec : Recorded e T tx) {digest tx'}
    (done : deleteManifest indexes tx digest = .ok tx') : Recorded e T tx' := by
  have performed : perform indexes tx (.deleteManifest digest) = .ok tx' := done
  refine ⟨soundPerform rec.sound (SqliteIndex.performed performed),fun {key row} found => ?_⟩
  rcases deleteManifestOk done with ⟨rfl,_⟩ | ⟨dropped,_,_,rfl⟩
  · exact rec.rows found
  · exact rec.rows (lookupErased _ found).2

theorem registrationPrimary (ok : registration indexes m = .ok r) (stored : m.layout ≠ .inline) :
    ∃ ref, hexKey m.primaryBlobRef = .ok (some ref) ∧ r.keys.refs.head? = some ref := by
  have named : r.keys.refs ≠ [] := fun none => stored ((registrationRefs ok).mp none)
  obtain ⟨keys,bound,_,_,last⟩ := by simpa only [registration,bindOk] using ok
  cases last
  obtain ⟨digest,_,rest⟩ := bindOk.mp bound
  rw [if_neg stored] at rest
  split at rest
  · cases rest
  obtain ⟨content,_,rest⟩ := bindOk.mp rest
  obtain ⟨refs,read,last⟩ := bindOk.mp rest
  cases last
  obtain ⟨ref,head⟩ := ne_none_iff_exists'.mp (fun none => named (List.head?_eq_none_iff.mp none))
  exact ⟨ref,(headBound read).trans (congrArg Except.ok head),head⟩

theorem recordedRegister (rec : Recorded e T tx) {addr now} (texts : raw ∈ T ∧ payload ∈ T)
    (encoded : e.encodeManifest m = .ok raw) (content : m.contentHash = e.hasher.hex payload)
    (size : m.originalSize = payload.length)
    (body : m.layout = .inline ∧ m.inlineBlob = payload ∧ m.pipeline = [] ∨ m.layout = .target)
    (possible : registration e.indexes {m with digest := e.hasher.hex raw} = .ok r) :
    Recorded e T (register tx {m with digest := e.hasher.hex raw} addr now r) := by
  refine ⟨soundRegister rec.sound _ addr now r,fun {key row} found => ?_⟩
  rw [registerLookup] at found
  split at found
  · next mine =>
    cases found
    cases old : tx.manifests.lookup r.keys.digest with
    | some before =>
      obtain ⟨m',raw',payload',w⟩ := rec.rows old
      exact ⟨m',raw',payload',mine ▸ writtenSame w rfl rfl⟩
    | none =>
      have digest : r.keys.digest = e.hasher.sum raw := okSame (registrationDigest possible) (bindSum e.hasher raw)
      refine ⟨m,raw,payload,texts,encoded,mine.trans digest,content,size,?_,body.imp id fun stored => ⟨stored,?_⟩⟩
      · simp only [getD_none,manifestRow]
        split
        · intro same
          cases same
        · next named => exact fun same => named (some.inj same)
      · obtain ⟨ref,bound,head⟩ := registrationPrimary possible (fun inline => by
          rw [stored] at inline
          cases inline)
        exact ⟨ref,bound,head⟩
  · exact rec.rows found

theorem recordedStamped (rec : Recorded e T tx) (c : Columns) : Recorded e T (stamped tx c) := by
  have counts : ∀ key, refCountIn (stamped tx c).blobs key = refCountIn tx.blobs key := fun key => by
    simp only [refCountIn,stamped,lookupUpdateAll,Option.map_map]
    rfl
  have before : ∀ {key row}, (stamped tx c).manifests.lookup key = some row →
      ∃ old, tx.manifests.lookup key = some old ∧ row = {old with lastVerifiedAt := c.manifests key} := fun {key row} found => by
    rw [stamped,lookupUpdateAll] at found
    obtain ⟨old,there,rfl⟩ := Option.map_eq_some_iff.mp found
    exact ⟨old,there,rfl⟩
  refine ⟨⟨fun key => (counts key).symm ▸ rec.sound.counted key,fun linked => ?_,fun found ref => ?_⟩,fun found => ?_⟩
  · obtain ⟨row,found⟩ := memLookup.mp (rec.sound.edgeHasRow linked)
    exact memLookup.mpr ⟨_,by rw [stamped,lookupUpdateAll,found]; rfl⟩
  · obtain ⟨old,there,rfl⟩ := before found
    exact rec.sound.rowHasEdge there ref
  · obtain ⟨old,there,rfl⟩ := before found
    obtain ⟨m,raw,payload,w⟩ := rec.rows there
    exact ⟨m,raw,payload,writtenSame w rfl rfl⟩

end

inductive Op where
  | store (op : StoreOp)
  | headless (cfg : StoreConfig) (call : PutCall)
  | scrub (clock : Nat → Instant) (now : Instant)
  | damage (files : Fs)

def step (e : Engine) (s : State) : Op → State
  | .store op => advance e s op
  | .headless cfg call => (Pointers.writeHeadless e cfg s call).1
  | .scrub clock now => {s with index := stamped s.index (verify e s clock now).columns}
  | .damage files => {s with fs := files}

def payloads : Op → List Bytes
  | .store (.put _ call) => [call.payload]
  | .headless _ call => [call.payload]
  | _ => []

/- The texts hold what is put and what lies in a file. -/
def Covers (e : Engine) (T : List Bytes) (s : State) (op : Op) : Prop :=
  (∀ text ∈ payloads op, text ∈ T) ∧ ∀ entry ∈ (step e s op).fs.entries, entry.2.data ∈ T

instance {T : List Bytes} {op : Op} : Decidable (Covers e T s op) := inferInstanceAs (Decidable (_ ∧ _))

theorem placedDescribes {cfg call s' blob}
    (placed : Placed e cfg s call s' blob) : blob.contentHash = e.hasher.hex call.payload ∧
      blob.originalSize = call.payload.length ∧ ∀ bytes, blob.inlineBytes = some bytes → bytes = call.payload ∧ blob.stages = [] := by
  cases placed with
  | inline => exact ⟨rfl,rfl,fun _ same => ⟨(some.inj same).symm,rfl⟩⟩
  | shared => exact ⟨rfl,rfl,nofun⟩
  | fresh => exact ⟨rfl,rfl,nofun⟩

section
variable {T : List Bytes} (rec : Recorded e T s.index) (cfg : StoreConfig)
include rec
theorem recordedPut {call} (covers : Covers e T s (.store (.put cfg call))) : Recorded e T (Cas.put e cfg s call).1.index := by
  simp only [Covers,payloads,step,advance] at covers
  generalize done : Cas.put e cfg s call = pair at covers
  obtain ⟨s',outcome⟩ := pair
  cases outcome with
  | error err => exact (Cas.putFailed done).symm ▸ rec
  | ok m =>
    obtain ⟨placed,blob,placement,raw,assembled,path,file,r,possible,fs,index⟩ := putCommitted done
    obtain ⟨content,size,inline⟩ := placedDescribes placement
    obtain ⟨bytes,encoded,last⟩ := bindOk.mp assembled
    cases last
    have written : s'.fs.lookup path = some ⟨raw,call.now,call.now⟩ := by rw [fs,LocalFs.put,lookupInsert,if_pos rfl]
    rw [index]
    refine recordedRegister rec ⟨covers.2 _ (lookupEntry.mp written),covers.1 _ mem_cons_self⟩ encoded content size ?_ possible
    cases inlined : blob.inlineBytes with
    | none => exact .inr rfl
    | some bytes =>
      obtain ⟨rfl,stages⟩ := inline bytes inlined
      exact .inl ⟨rfl,rfl,stages⟩

theorem recordedHeadless {call} (covers : Covers e T s (.headless cfg call)) :
    Recorded e T (Pointers.writeHeadless e cfg s call).1.index := by
  simp only [Covers,payloads,step] at covers
  generalize done : Pointers.writeHeadless e cfg s call = pair at covers
  obtain ⟨s',outcome⟩ := pair
  rcases Pointers.headlessRegistered done with ⟨same,_⟩ | ⟨staged,blob,raw,r,placement,encoded,possible,index,_,path,written⟩
  · exact same.symm ▸ rec
  · obtain ⟨content,size,_⟩ := placedDescribes placement
    rw [index]
    exact recordedRegister rec ⟨covers.2 _ (lookupEntry.mp written),covers.1 _ mem_cons_self⟩ encoded content size
      (.inr rfl) possible

theorem recordedDelete (id : String) (now : Instant) : Recorded e T (Cas.delete e cfg s id now).1.index := by
  rcases done : Cas.delete e cfg s id now with ⟨s',outcome⟩
  rcases deleteCases done with ⟨rfl,_⟩ | ⟨_,_,_,_,_,⟨same,_⟩ | ⟨dropped,_⟩⟩
  · exact rec
  · exact same.symm ▸ rec
  · exact recordedDrop rec dropped

end

theorem recordedCycle {T} (rec : Recorded e T s.index) (complete : Bool) (grace : Nat) (tMark tSweep : Instant) :
    Recorded e T (Gc.runCycle complete grace tMark tSweep s).state.index := by
  unfold Gc.runCycle Gc.sweep
  have start : Recorded e T (Gc.Swept.mk (Gc.reconcileMedia complete (Gc.mark s tMark) tMark) []).state.index := by
    rw [Gc.reconcileIndex]
    exact rec
  generalize Gc.Swept.mk (Gc.reconcileMedia complete (Gc.mark s tMark) tMark) [] = w at start
  generalize listOrphanBlobs _ = refs
  induction refs generalizing w with
  | nil => exact start
  | cons ref rest ih =>
    refine ih _ ?_
    rcases sweepRefCases grace tSweep w ref with same | ⟨_,_,_,_,same | ⟨key,orphan,found,zero,reaped⟩⟩
    · rw [same]
      exact start
    · rw [same]
      exact start
    · rw [reaped]
      exact recordedReap start found zero

theorem recordedStep {T op} (rec : Recorded e T s.index) (covers : Covers e T s op) : Recorded e T (step e s op).index := by
  cases op with
  | store op =>
    cases op with
    | put cfg call => exact recordedPut rec cfg covers
    | delete cfg id now => exact recordedDelete rec cfg id now
    | cycle complete grace tMark tSweep => exact recordedCycle rec complete grace tMark tSweep
  | headless cfg call => exact recordedHeadless rec cfg covers
  | scrub clock now => exact recordedStamped rec _
  | damage files => exact rec

theorem recordedRun {T ops} (covers : Along (step e) (Covers e T) emptyStore ops) :
    Recorded e T (after (step e) emptyStore ops).index ∧ ∀ path file,
      (after (step e) emptyStore ops).fs.lookup path = some file → file.data ∈ T := by
  have keep : ∀ s op, (Recorded e T s.index ∧ ∀ path file, s.fs.lookup path = some file → file.data ∈ T) → Covers e T s op →
      Recorded e T (step e s op).index ∧ ∀ path file, (step e s op).fs.lookup path = some file → file.data ∈ T :=
    fun s op both ok => ⟨recordedStep both.1 ok,fun path file found => ok.2 _ (lookupEntry.mp found)⟩
  refine invariantAfter keep ⟨recordedEmpty,fun path file found => ?_⟩ covers
  simp [emptyStore] at found

section

structure Readable (e : Engine) (s : State) (key : Key) : Prop where
  readable : ∃ path file m bytes, manifestPath (hexOut key) = .ok path ∧ s.fs.lookup path = some file ∧
    e.hasher.hex file.data = hexOut key ∧ e.decodeManifest file.data = .ok m ∧ openBlob e s m = .ok bytes ∧
    e.hasher.hex bytes = m.contentHash ∧ m.originalSize = bytes.length

structure SameReading (m m' : Manifest) : Prop where
  layout : m'.layout = m.layout
  ref : m'.primaryBlobRef = m.primaryBlobRef
  pipeline : m'.pipeline = m.pipeline
  content : m'.contentHash = m.contentHash

/- A row a pass reaches: no newer row has its handle, nothing of it was stamped in the second of the pass, its file is
there, and every manifest its blob may be checked through reads the blob as its own does. -/
structure Vouched (e : Engine) (s : State) (now : Instant) (key : Key) (row : ManifestRow) (id : String) : Prop where
  handle : row.artifactID = some id
  newest : resolveManifestDigest s.index id = some (hexOut key)
  due : unverified (formatTime now) row.lastVerifiedAt = true
  filed : ∃ path file, manifestPath (hexOut key) = .ok path ∧ s.fs.lookup path = some file
  blobDue : ∀ ref blob, row.blobRef = some ref → s.index.blobs.lookup ref = some blob →
    unverified (formatTime now) blob.lastVerifiedAt = true
  alike : ∀ ref m, row.blobRef = some ref → load e s id = .ok m → ∀ other ∈ consumers s.index ref, ∀ m',
    load e s other = .ok m' → SameReading m m'

/- Neither a transformer nor the manifest decoder answers that an artifact is missing. -/
structure Quiet (e : Engine) : Prop where
  stages : ∀ algo factory, e.registry algo = some factory → ∀ stage raw, factory.decode stage raw ≠ .error .artifactNotFound
  decode : ∀ raw, e.decodeManifest raw ≠ .error .artifactNotFound

/- What the handles of the index open as. -/
def opened (e : Engine) (s : State) : List Bytes :=
  s.index.manifests.entries.filterMap fun entry => (do openBlob e s (← load e s (entry.2.artifactID.getD ""))).toOption

theorem buildQuiet (quiet : Quiet e) (stages : List PipelineStage) (raw : Bytes) :
    buildGet e.registry stages raw ≠ .error .artifactNotFound := by
  unfold buildGet
  induction stages with
  | nil => exact nofun
  | cons stage rest ih =>
    rw [foldr_cons]
    intro failed
    rcases bindError.mp failed with inner | ⟨current,_,decoding⟩
    · exact ih inner
    unfold decodeStage at decoding
    split at decoding
    · cases decoding
    · next factory known => exact quiet.stages _ factory known stage current decoding

variable {ref row id}

theorem loadVouched {path} (v : Vouched e s now key row id) (named : id ≠ "") (laid : manifestPath (hexOut key) = .ok path) :
    load e s id = (do
      let raw ← readManifestFile s.fs path
      verifyManifestDigest e (hexOut key) raw
      let m ← e.decodeManifest raw
      return {m with digest := hexOut key, artifactID := id}) := by
  rw [load,if_neg named,v.newest]
  simp only [loadManifestByDigest,laid,bind,Except.bind]
  cases readManifestFile s.fs path with
  | error err => rfl
  | ok raw =>
    simp only
    cases verifyManifestDigest e (hexOut key) raw with
    | error err => rfl
    | ok _ => cases e.decodeManifest raw <;> rfl

theorem filedLoads (codec : Codec e) (quiet : Quiet e) {T} (free : Readback.CollisionFree e.hasher T) {raw}
    (held : ∀ path file, s.fs.lookup path = some file → file.data ∈ T)
    (w : Written e T key row m raw payload) (v : Vouched e s now key row id) (checked : ¬ Fails (verifyManifest e s id)) :
    ∃ ext usr, load e s id = .ok {ManifestCodec.carried m ext usr with digest := hexOut key, artifactID := id} ∧
      ∃ path file, manifestPath (hexOut key) = .ok path ∧ s.fs.lookup path = some file ∧ e.hasher.hex file.data = hexOut key ∧
        e.decodeManifest file.data = .ok (ManifestCodec.carried m ext usr) := by
  obtain ⟨path,file,laid,there⟩ := v.filed
  have named : id ≠ "" := fun empty => w.handle (empty ▸ v.handle)
  have outcome := loadVouched v named laid
  have verdict : verifyManifest e s id = (do let _ ← load e s id) := if_neg named
  by_cases large : maxManifestSize < file.data.length
  · refine absurd ?_ checked
    rw [verdict,outcome,readManifestFile,there]
    simp only [if_pos large]
    constructor <;> intro same <;> cases same
  by_cases whole : e.hasher.hex file.data = hexOut key
  · have same : file.data = raw := free _ (held path file there) _ w.texts.1
      (HexText.encodeInjective (whole.trans (congrArg hexOut w.digest)))
    have ends : load e s id = (do
        let m ← e.decodeManifest file.data
        return {m with digest := hexOut key, artifactID := id}) := by
      rw [outcome,readManifestFile,there]
      simp only [if_neg large,verifyManifestDigest,if_pos whole,bind,Except.bind]
    cases decoded : e.decodeManifest file.data with
    | error err =>
      rw [verdict,ends,decoded] at checked
      refine absurd ⟨?_,?_⟩ checked
      · intro passed
        cases passed
      · intro missing
        exact quiet.decode _ (decoded.trans (congrArg Except.error (Except.error.inj missing)))
    | ok d =>
      obtain ⟨ext,usr,rfl⟩ := codec.carries w.encoded (same ▸ decoded)
      exact ⟨ext,usr,by rw [ends,decoded]; rfl,path,file,laid,there,whole,decoded⟩
  · refine absurd ?_ checked
    rw [verdict,outcome,readManifestFile,there]
    simp only [if_neg large,verifyManifestDigest,bind,Except.bind,if_neg whole]
    constructor <;> intro same <;> cases same

theorem consumerListed {tx} (sound : Sound tx) (found : tx.manifests.lookup key = some row)
    (stored : row.blobRef = some ref) (handle : row.artifactID = some id) :
    id ∈ consumers tx ref := by
  have edge := lookupEntry.mp (sound.rowHasEdge found stored)
  have linked : key ∈ ((tx.manifestBlobs.entries.filter fun edge => edge.2 = ref).map fun edge => edge.1.1).insertionSort (· ≤ ·) :=
    (mem_insertionSort _).mpr (mem_map.mpr ⟨_,mem_filter.mpr ⟨edge,decide_eq_true rfl⟩,rfl⟩)
  exact mem_map.mpr ⟨row,mem_filterMap.mpr ⟨key,linked,found⟩,by rw [handle,getD_some]⟩

theorem openNoisy (quiet : Quiet e) {blob} (bound : hexKey m.primaryBlobRef = .ok (some ref))
    (found : s.index.blobs.lookup ref = some blob) (stored : m.layout = .target) :
    openBlob e s m ≠ .error .artifactNotFound := by
  intro failed
  rcases bindError.mp failed with raw | ⟨bytes,_,built⟩
  · have resolved : resolve s.index m.primaryBlobRef = .ok blob.physicalPath := by
      simp only [resolve,bound,bind,Except.bind,found]
      rfl
    simp only [openRawBlob,stored,resolved,bind,Except.bind,LocalFs.get] at raw
    cases there : s.fs.lookup blob.physicalPath with
    | none =>
      rw [there] at raw
      cases raw
    | some file =>
      rw [there] at raw
      cases raw
  · exact buildQuiet quiet _ _ built

theorem verifiedBlob (content : m.contentHash = e.hasher.hex payload)
    (noisy : openBlob e s m ≠ .error .artifactNotFound) (checked : ¬ Fails (verifyBlob e s m)) :
    ∃ bytes, openBlob e s m = .ok bytes ∧ e.hasher.sum bytes = e.hasher.sum payload := by
  have want : HexText.decode m.contentHash = some (e.hasher.sum payload) := content ▸ HexText.decodeEncode _
  simp only [verifyBlob,want] at checked
  split at checked
  · exact absurd ⟨nofun,nofun⟩ checked
  cases opened : openBlob e s m with
  | error err =>
    rw [opened] at checked noisy
    exact absurd ⟨nofun,fun same => noisy (congrArg Except.error (Except.error.inj same))⟩ checked
  | ok bytes =>
    refine ⟨bytes,rfl,?_⟩
    by_contra other
    simp only [opened,bind,Except.bind,if_neg other] at checked
    exact checked ⟨nofun,nofun⟩

theorem openAlike {m'} (stored : m.layout = .target) (layout : m'.layout = m.layout)
    (ref : m'.primaryBlobRef = m.primaryBlobRef) (pipeline : m'.pipeline = m.pipeline) :
    openBlob e s m' = openBlob e s m := by
  simp only [openBlob,openRawBlob,layout,stored,ref,pipeline]

theorem loadedUser (ok : load e s id = .ok m) : m.isUser = true := by
  unfold load at ok
  split at ok
  · cases ok
  next named =>
  split at ok
  · cases ok
  · obtain ⟨read,_,last⟩ := bindOk.mp ok
    cases last
    exact decide_eq_true named

theorem checkedThrough (named : ref ≠ []) (checked : ¬ Fails (verifyBlobRef e s (hexOut ref)))
    (own : id ∈ consumers s.index ref) (loaded : load e s id = .ok m) :
    ∃ other ∈ consumers s.index ref, ∃ m', load e s other = .ok m' ∧ ¬ Fails (verifyBlob e s m') := by
  have listed : manifestsByBlobRef s.index (hexOut ref) = .ok (consumers s.index ref) := by
    rw [manifestsByBlobRef,hexKeyEncode named]
    rfl
  rw [verifyBlobRef,if_neg (hexOutNe named),listed] at checked
  cases first : firstLoaded e s (consumers s.index ref) with
  | error err =>
    by_cases absent : err = .artifactNotFound
    · subst absent
      have missing := noneLoaded first id own
      rw [loaded] at missing
      cases missing
    · simp only [bind,Except.bind,first] at checked
      exact absurd ⟨nofun,fun same => absent (Except.error.inj same)⟩ checked
  | ok m' =>
    obtain ⟨other,mem,also⟩ := firstLoadedOf first
    simp only [bind,Except.bind,first,loadedUser also,if_true] at checked
    exact ⟨other,mem,m',also,checked⟩

/-- In every store reached by a run, whatever became of its files, a forced pass that counts no failure leaves
readable every row it vouches for, if the hash tells the texts of the run and of the pass apart. -/
theorem cleanPassReadable (codec : Codec e) (quiet : Quiet e) (ops : List Op) (T : List Bytes)
    (covers : Along (step e) (Covers e T) emptyStore ops)
    (free : Readback.CollisionFree e.hasher (T ++ opened e (after (step e) emptyStore ops)))
    (clock : Nat → Instant) (now : Instant) (clean : (verify e (after (step e) emptyStore ops) clock now).failedBlobs = 0) :
    ∀ key row id, (after (step e) emptyStore ops).index.manifests.lookup key = some row →
      Vouched e (after (step e) emptyStore ops) now key row id → Readable e (after (step e) emptyStore ops) key := by
  obtain ⟨recorded,held⟩ := recordedRun covers
  generalize after (step e) emptyStore ops = s at clean recorded held free
  intro key row id found v
  obtain ⟨m,raw,payload,w⟩ := recorded.rows found
  have apart : Readback.CollisionFree e.hasher T := fun a inA b inB => free a (mem_append_left _ inA) b (mem_append_left _ inB)
  obtain ⟨ext,usr,loaded,path,file,laid,there,whole,decoded⟩ :=
    filedLoads codec quiet apart held w v (handleChecked clean found v.handle v.due)
  suffices opens : openBlob e s m = .ok payload from
    ⟨path,file,_,payload,laid,there,whole,decoded,opens,w.content.symm,w.size⟩
  rcases w.body with ⟨inline,body,plain⟩ | ⟨stored,ref,bound,cached⟩
  · rw [openBlob,openRawBlob,inline,plain,← body]
    rfl
  obtain ⟨blob,blobHeld,_⟩ := referencedRow recorded.sound (.inr ⟨row,found,cached⟩)
  have checked := blobChecked clean blobHeld (v.blobDue ref blob cached blobHeld)
  have own := consumerListed recorded.sound found cached v.handle
  obtain ⟨other,mem,m',also,through⟩ := checkedThrough (hexKeyNonempty bound) checked own loaded
  have same := v.alike ref _ cached loaded other mem m' also
  have alike : openBlob e s m' = openBlob e s m := openAlike stored same.layout same.ref same.pipeline
  obtain ⟨bytes,read,sum⟩ := verifiedBlob (same.content.trans w.content)
    (alike.symm ▸ openNoisy quiet bound blobHeld stored) through
  have listed : bytes ∈ opened e s := by
    obtain ⟨row',linked,rfl⟩ := mem_map.mp mem
    obtain ⟨key',_,found'⟩ := mem_filterMap.mp linked
    exact mem_filterMap.mpr ⟨⟨key',row'⟩,lookupEntry.mp found',by simp only [also,bind,Except.bind,read,Except.toOption]⟩
  rw [← alike,read,free bytes (mem_append_right _ listed) payload (mem_append_left _ w.texts.2) sum]

end

def sampleStored : State := after (step codedEngine) emptyStore
  [.store (.put (sessionPut "a" 10).1 (sessionPut "a" 10).2)]

def sampleLost : State := after (step codedEngine) emptyStore
  [.store (.put (sessionPut "a" 10).1 (sessionPut "a" 10).2),.damage ∅]

theorem codedQuiet : Quiet codedEngine where
  stages := by
    intro algo factory known stage raw
    simp only [codedEngine,ManifestFiles.tabled,Readback.sampleEngine] at known
    split at known
    · cases known
      simp only [Readback.taggingStage]
      split <;> intro failed <;> cases failed
    · cases known
  decode := by
    intro raw
    simp only [codedEngine,ManifestFiles.tabled]
    split <;> intro failed <;> cases failed

theorem lostPasses :
    (verify codedEngine sampleLost (fun _ => 50) 50).failedBlobs = 0 ∧
    (verify codedEngine sampleLost (fun _ => 50) 50).scannedBlobs = 1 ∧
    (sampleLost.index.manifests.lookup [0,0,0]).map ManifestRow.artifactID = some (some "sha256-00000102") ∧
    ¬ Readable codedEngine sampleLost [0,0,0] := by
  refine ⟨by decide +kernel,by decide +kernel,by decide +kernel,?_⟩
  rintro ⟨path,file,_,_,_,there,_⟩
  rw [show sampleLost.fs = ∅ from rfl,AList.lookup_empty] at there
  cases there

theorem storedPasses : Readable codedEngine sampleStored [0,0,0] := by
  have found : sampleStored.index.manifests.lookup [0,0,0] = some
      { artifactID := some "sha256-00000102", sessionID := "a", blobRef := some [0,0,1,2], createdAt := formatTime 10
        retentionUntil := none, lastVerifiedAt := none, csn := 1 } := by decide +kernel
  have file : manifestPath (hexOut [0,0,0]) = .ok "manifests/00/00/000000" := by decide +kernel
  have one : consumers sampleStored.index [0,0,1,2] = ["sha256-00000102"] := by decide +kernel
  refine cleanPassReadable (ManifestFiles.tabledCodec _) codedQuiet
    [.store (.put (sessionPut "a" 10).1 (sessionPut "a" 10).2)] [[1,2],[0]] (by decide +kernel) (Readback.sampleCollisionFree _)
    (fun _ => 50) 50 (by decide +kernel) _ _ "sha256-00000102" found ⟨rfl,by decide +kernel,rfl,⟨_,⟨[0],10,10⟩,file,by decide +kernel⟩,?_,?_⟩
  · intro ref blob same held
    cases same
    have due : sampleStored.index.blobs.lookup [0,0,1,2] = some
        { contentHash := [0,0,1,2], originalSize := 2, physicalPath := "blobs/00/00/00000102", cryptoIdentity := ""
          refCount := 1, createdAt := formatTime 10, lastVerifiedAt := none } := by decide +kernel
    cases someSame due held
    rfl
  · intro ref m same loaded other mem m' also
    cases same
    change other ∈ consumers sampleStored.index [0,0,1,2] at mem
    rw [one,mem_singleton] at mem
    subst mem
    cases okSame loaded also
    exact ⟨rfl,rfl,rfl,rfl⟩

structure Census where
  files : Nat
  rows : Nat
  deriving DecidableEq

def Census.agrees (c : Census) : Bool := c.files = c.rows
def takeCensus (s : State) : Census := ⟨(listObjects s.fs "manifests").length,(iterateManifests s.index).length⟩
def indexedPaths (tx : Index) : List (Except Error String) := tx.manifests.keys.map fun key => manifestPath (hexOut key)

def Accounted (s : State) : Prop := ∀ path, path ∈ (listObjects s.fs "manifests").map Except.ok ↔ path ∈ indexedPaths s.index

theorem accountedDistinct (accounted : Accounted s) : (indexedPaths s.index).Nodup := by
  refine Nodup.map_on ?_ s.index.manifests.nodupKeys
  intro a mem b _ same
  obtain ⟨path,_,built⟩ := mem_map.mp ((accounted _).mpr (mem_map_of_mem mem))
  have parsed := manifestPathRef (Reconciliation.placedShape (same ▸ built.symm)) (same ▸ built.symm)
  exact (HexText.encodeInjective (Reconciliation.pathParses built.symm parsed)).symm

theorem accountedFiles (accounted : Accounted s) :
    (listObjects s.fs "manifests").length = s.index.manifests.entries.length := by
  have files : ((listObjects s.fs "manifests").map (.ok : String → Except Error String)).Nodup :=
    (s.fs.nodupKeys.filter _).map fun _ _ same => Except.ok.inj same
  have same := ((perm_ext_iff_of_nodup files (accountedDistinct accounted)).mpr accounted).length_eq
  rwa [length_map,indexedPaths,length_map,AList.keys,List.keys,length_map] at same

/-- Of a store whose index digests are its manifest files the census agrees exactly if every row carries a handle. -/
theorem censusAgreesExactly (accounted : Accounted s) :
    (takeCensus s).agrees = true ↔ ∀ key row, s.index.manifests.lookup key = some row → row.artifactID.isSome := by
  have counted : (iterateManifests s.index).length = (userRows s.index).length := by
    rw [iterateManifests,byCreation,length_insertionSort,length_map]
  rw [Census.agrees,decide_eq_true_iff,takeCensus,accountedFiles accounted,counted,userRows,eq_comm,
    length_filter_eq_length_iff]
  constructor
  · intro all key row found
    exact all _ (AList.mem_lookup_iff.mp found)
  · intro all entry mem
    exact all entry.1 entry.2 (AList.mem_lookup_iff.mpr mem)

def sampleHeadless : State :=
  (Pointers.writeHeadless Pointers.headlessEngine (Readback.sampleConfig []) emptyStore (Pointers.headlessCall [7] "u1")).1

theorem headlessDisagrees : Accounted sampleHeadless ∧ takeCensus sampleHeadless = ⟨1,0⟩ := by
  refine ⟨fun path => ?_,by decide +kernel⟩
  rw [show (listObjects sampleHeadless.fs "manifests").map .ok = indexedPaths sampleHeadless.index by decide +kernel]

theorem userAgrees : Accounted sampleStored ∧ (takeCensus sampleStored).agrees = true := by
  have accounted : Accounted sampleStored := by
    intro path
    rw [show (listObjects sampleStored.fs "manifests").map .ok = indexedPaths sampleStored.index by decide +kernel]
  refine ⟨accounted,(censusAgreesExactly accounted).mpr ?_⟩
  intro key row found
  have only : sampleStored.index.manifests.entries.all fun entry => entry.2.artifactID.isSome := by decide +kernel
  exact all_eq_true.mp only _ (AList.mem_lookup_iff.mp found)

end Scrinium.Scrub
