import Scrinium.GracePeriod

/-! No live data is lost. The book follows a run and keeps the manifest and the payload of every Put that succeeded. -/
namespace Scrinium.LiveData
open List hiding after
open Keyed Domain Layout LocalFs Pipeline SqliteIndex Cas Gc StoreRuns Trace Option
open Readback (CollisionFree)

structure Entry where
  manifest : Manifest
  payload : Bytes
  live : Bool
  owner : Bool

structure Book where
  state : State
  entries : List Entry

def Book.empty : Book := ⟨emptyStore,[]⟩

def known (tx : Index) (digest : String) : Bool :=
  match manifestExistsByDigest tx digest with
  | .ok found => found
  | .error _ => false

def released (id : String) (dropped : Option String) (entry : Entry) : Entry :=
  {entry with
    live := entry.live && entry.manifest.artifactID ≠ id
    owner := entry.owner && some entry.manifest.digest ≠ dropped}

def record (e : Engine) (b : Book) : StoreOp → Book
  | .put cfg call =>
    match Cas.put e cfg b.state call with
    | (s,.ok m) => ⟨s,b.entries ++ [⟨m,call.payload,true,!known b.state.index m.digest⟩]⟩
    | (s,.error _) => ⟨s,b.entries⟩
  | .delete cfg id now =>
    match Cas.delete e cfg b.state id now with
    | (s,.ok ()) => ⟨s,b.entries.map (released id (resolveManifestDigest b.state.index id))⟩
    | (s,.error _) => ⟨s,b.entries⟩
  | .cycle complete grace tMark tSweep => ⟨(runCycle complete grace tMark tSweep b.state).state,b.entries⟩

def Plain (pipeline : List String) : StoreOp → Prop
  | .put cfg _ => cfg.pipeline = pipeline ∧ cfg.inlineMode = false
  | _ => True

def hashedBy (e : Engine) : StoreOp → List Bytes
  | .put cfg call => Readback.hashed e (cfg,call)
  | _ => []

def HitOnDisk (e : Engine) (b : Book) : StoreOp → Prop
  | .put _ call => ∀ ref path,
      existsByContent e.limit b.state.index (e.hasher.hex call.payload) call.payload.length "" = .ok (some ref) →
      resolve b.state.index ref = .ok path → path ∈ b.state.fs
  | _ => True
instance (e : Engine) (b : Book) (op : StoreOp) : Decidable (HitOnDisk e b op) :=
  match op with
  | .put _ call =>
    match probe : existsByContent e.limit b.state.index (e.hasher.hex call.payload) call.payload.length "" with
    | .ok (some ref) =>
      match place : resolve b.state.index ref with
      | .ok path => decidable_of_iff (path ∈ b.state.fs)
          ⟨fun there other addr hit found => by cases probe.symm.trans hit; cases place.symm.trans found; exact there,
            fun all => all ref path probe place⟩
      | .error _ => .isTrue fun other addr hit found => by cases probe.symm.trans hit; cases place.symm.trans found
    | .ok none => .isTrue fun other addr hit => by cases probe.symm.trans hit
    | .error _ => .isTrue fun other addr hit => by cases probe.symm.trans hit
  | .delete _ _ _ => .isTrue trivial
  | .cycle _ _ _ _ => .isTrue trivial

def holds (key : Key) (entry : Entry) : Bool :=
  decide (entry.manifest.primaryBlobRef = hexOut key) && (entry.live || entry.owner)

structure Kept (e : Engine) (pipeline : List String) (texts : List Bytes) (entry : Entry) (output : Bytes) : Prop where
  refs : entry.manifest.blobRefs = [hexOut (e.hasher.sum output)]
  text : output ∈ texts
  back : buildGet e.registry entry.manifest.pipeline output = .ok entry.payload
  raw : pipeline = [] → output = entry.payload

structure Owner (tx : Index) (digest : Key) (row : ManifestRow) (entry : Entry) (key : Key) : Prop where
  owner : entry.owner = true
  written : entry.manifest.digest = hexOut digest
  named : digest ≠ []
  handle : ∀ id, row.artifactID = some id → entry.manifest.artifactID = id
  ref : entry.manifest.primaryBlobRef = hexOut key
  edge : tx.manifestBlobs.lookup (digest,0) = some key
  single : ∀ pos k, tx.manifestBlobs.lookup (digest,pos) = some k → pos = 0

structure Guarded (e : Engine) (pipeline : List String) (texts : List Bytes) (b : Book) : Prop where
  placed : RowsPlaced e.topology b.state.index
  sound : Sound b.state.index
  origins : ∀ key row, b.state.index.blobs.lookup key = some row → ∃ x output stages, x ∈ texts ∧
    buildPut e.hasher e.registry pipeline x = .ok (output,stages) ∧ row.contentHash = e.hasher.sum x ∧
    key = e.hasher.sum output
  files : ∀ key row file, b.state.index.blobs.lookup key = some row →
    b.state.fs.lookup row.physicalPath = some file → e.hasher.sum file.data = key ∧ file.data ∈ texts
  kept : ∀ entry ∈ b.entries, ∃ output, Kept e pipeline texts entry output
  present : ∀ entry ∈ b.entries, entry.live = true → ∀ key row, entry.manifest.primaryBlobRef = hexOut key →
    b.state.index.blobs.lookup key = some row → ∃ file, b.state.fs.lookup row.physicalPath = some file
  counted : ∀ key, b.entries.countP (holds key) ≤ refCountIn b.state.index.blobs key
  owners : ∀ digest row, b.state.index.manifests.lookup digest = some row →
    ∃ entry ∈ b.entries, ∃ key, Owner b.state.index digest row entry key

variable {key digest output s tx cfg now} {call : PutCall} {m stages}

section
variable {e : Engine} {pipeline texts} {b : Book}
theorem guardedEmpty : Guarded e pipeline texts Book.empty where
  placed := placedEmpty e.topology
  sound := soundEmpty
  origins _ _ found := by simp [Book.empty,emptyStore,Index.empty] at found
  files _ _ _ found := by simp [Book.empty,emptyStore,Index.empty] at found
  kept _ mem := by simp [Book.empty] at mem
  present _ mem := by simp [Book.empty] at mem
  counted _ := Nat.zero_le _
  owners _ _ found := by simp [Book.empty,emptyStore,Index.empty] at found

variable {entry d row id err}

theorem heldRow (g : Guarded e pipeline texts b) (mem : entry ∈ b.entries) (held : holds key entry = true) :
    ∃ row, b.state.index.blobs.lookup key = some row ∧ row.refCount ≠ 0 := by
  have counted := g.counted key
  have positive : 0 < b.entries.countP (holds key) := countP_pos_iff.mpr ⟨entry,mem,held⟩
  unfold refCountIn at counted
  cases found : b.state.index.blobs.lookup key with
  | none =>
    rw [found] at counted
    exact absurd counted (Nat.not_le_of_lt positive)
  | some row =>
    rw [found] at counted
    exact ⟨row,rfl,Nat.ne_of_gt (Nat.lt_of_lt_of_le positive counted)⟩

theorem guardedReads (g : Guarded e pipeline texts b) (free : CollisionFree e.hasher texts) (mem : entry ∈ b.entries)
    (live : entry.live = true) :
    ∃ path data, resolve b.state.index entry.manifest.primaryBlobRef = .ok path ∧
      LocalFs.get b.state.fs path = .ok data ∧
      buildGet e.registry entry.manifest.pipeline data = .ok entry.payload ∧ (pipeline = [] → data = entry.payload) := by
  obtain ⟨output,kept⟩ := g.kept entry mem
  have ref : entry.manifest.primaryBlobRef = hexOut (e.hasher.sum output) := by
    rw [Manifest.primaryBlobRef,kept.refs]
    rfl
  obtain ⟨row,found,_⟩ := heldRow g mem (by simp [holds,ref,live] : holds (e.hasher.sum output) entry = true)
  obtain ⟨file,stored⟩ := g.present entry mem live _ row ref found
  obtain ⟨sum,text⟩ := g.files _ row file found stored
  cases free file.data text output kept.text sum
  exact ⟨row.physicalPath,file.data,ref ▸ resolveRow (sumNe e.hasher file.data) found,getOk.mpr ⟨file,stored,rfl⟩,
    kept.back,kept.raw⟩

def RowKept (e : Engine) (texts : List Bytes) (b : Book) (s : State) (key : Key) (row : BlobRow) : Prop :=
  ∃ before, b.state.index.blobs.lookup key = some before ∧ before.contentHash = row.contentHash ∧
    before.physicalPath = row.physicalPath ∧
    (s.fs.lookup row.physicalPath = b.state.fs.lookup row.physicalPath ∨
      s.fs.lookup row.physicalPath = none ∧ before.refCount = 0 ∨
      ∃ file, s.fs.lookup row.physicalPath = some file ∧ e.hasher.sum file.data = key ∧ file.data ∈ texts)

structure Narrowed (x y : Entry) : Prop where
  manifest : x.manifest = y.manifest
  payload : x.payload = y.payload
  live : x.live = true → y.live = true

theorem narrowedRefl (x : Entry) : Narrowed x x := ⟨rfl,rfl,id⟩

theorem keptNarrowed {x y} (narrowed : Narrowed x y) (k : Kept e pipeline texts y output) :
    Kept e pipeline texts x output := by
  constructor
  · rw [narrowed.manifest]
    exact k.refs
  · exact k.text
  · rw [narrowed.manifest,narrowed.payload]
    exact k.back
  · rw [narrowed.payload]
    exact k.raw

theorem guardedKeeping {entries} (g : Guarded e pipeline texts b)
    (narrowed : ∀ x ∈ entries, ∃ y ∈ b.entries, Narrowed x y) (placed : RowsPlaced e.topology s.index)
    (sound : Sound s.index) (rows : ∀ key row, s.index.blobs.lookup key = some row → RowKept e texts b s key row)
    (counted : ∀ key, entries.countP (holds key) ≤ refCountIn s.index.blobs key)
    (owners : ∀ digest row, s.index.manifests.lookup digest = some row → ∃ entry ∈ entries, ∃ key, Owner s.index digest row entry key) :
    Guarded e pipeline texts ⟨s,entries⟩ := by
  refine ⟨placed,sound,?_,?_,?_,?_,counted,owners⟩
  · intro key row found
    obtain ⟨before,there,hash,_⟩ := rows key row found
    exact hash ▸ g.origins key before there
  · intro key row file found stored
    obtain ⟨before,there,_,place,same | ⟨gone,_⟩ | ⟨other,written,sum,text⟩⟩ := rows key row found
    · exact g.files key before file there (place ▸ same ▸ stored)
    · rw [gone] at stored
      contradiction
    · cases someSame written stored
      exact ⟨sum,text⟩
  · intro x mem
    obtain ⟨y,listed,shrunk⟩ := narrowed x mem
    obtain ⟨output,kept⟩ := g.kept y listed
    exact ⟨output,keptNarrowed shrunk kept⟩
  · intro x mem live key row ref found
    obtain ⟨y,listed,shrunk⟩ := narrowed x mem
    rw [shrunk.manifest] at ref
    obtain ⟨before,there,_,place,same | ⟨_,orphan⟩ | ⟨file,written,_⟩⟩ := rows key row found
    · rw [same,← place]
      exact g.present y listed (shrunk.live live) key before ref there
    · -- a live entry holds a count of its row
      have held : holds key y = true := by simp [holds,ref,shrunk.live live]
      obtain ⟨old,known,counting⟩ := heldRow g listed held
      cases someSame there known
      exact absurd orphan counting
    · exact ⟨file,written⟩

theorem guardedCycle (g : Guarded e pipeline texts b) (complete : Bool) (grace : Nat) (tMark tSweep : Instant) :
    Guarded e pipeline texts ⟨(runCycle complete grace tMark tSweep b.state).state,b.entries⟩ := by
  have c := cycled g.placed complete grace tMark tSweep
  obtain ⟨blobs,index⟩ := c.index
  have counters : ∀ key, refCountIn b.state.index.blobs key ≤
      refCountIn (runCycle complete grace tMark tSweep b.state).state.index.blobs key := by
    intro key
    unfold refCountIn
    cases found : b.state.index.blobs.lookup key with
    | none => exact Nat.zero_le _
    | some row =>
      by_cases orphan : row.refCount = 0
      · simp [orphan]
      · rw [c.kept key row found orphan]
  refine guardedKeeping g (fun x mem => ⟨x,mem,narrowedRefl x⟩) (placedCycle complete grace tMark tSweep g.placed)
    ⟨fun key => ?_,?_,?_⟩ ?_ (fun key => Nat.le_trans (g.counted key) (counters key)) ?_
  · have same : edgeCount (runCycle complete grace tMark tSweep b.state).state.index key =
        edgeCount b.state.index key := by rw [index]; rfl
    rw [same]
    exact Nat.le_trans (g.sound.counted key) (counters key)
  · rw [index]
    exact g.sound.edgeHasRow
  · rw [index]
    exact g.sound.rowHasEdge
  · intro key row found
    have before := c.rows key row found
    refine ⟨row,before,rfl,rfl,?_⟩
    rw [c.files key row before]
    split
    · next orphan => exact .inr (.inl ⟨rfl,orphan⟩)
    · exact .inl rfl
  · rw [index]
    exact fun digest row found =>
      let ⟨entry,mem,key,o⟩ := g.owners digest row found
      ⟨entry,mem,key,o.owner,o.written,o.named,o.handle,o.ref,o.edge,o.single⟩

theorem ownedEdges (o : Owner tx digest row entry key) (k : Key) :
    (edgesOf tx digest).count k ≤ if key = k then 1 else 0 := by
  have only : ∀ edge ∈ tx.manifestBlobs.entries, (names k edge.1 edge.2 && decide (edge.1.1 = digest)) = true →
      edge = ⟨(digest,0),key⟩ ∧ key = k := by
    intro edge mem chosen
    obtain ⟨⟨d,pos⟩,ref⟩ := edge
    simp only [names,Bool.and_eq_true,decide_eq_true_eq] at chosen
    obtain ⟨rfl,rfl⟩ := chosen
    have linked := lookupEntry.mpr mem
    cases o.single pos ref linked
    cases someSame linked o.edge
    exact ⟨rfl,rfl⟩
  rw [countEdgesOf,countWhere]
  split
  · calc tx.manifestBlobs.entries.countP _ ≤ tx.manifestBlobs.entries.countP (· == ⟨(digest,0),key⟩) :=
          countP_mono_left fun edge mem chosen => beq_iff_eq.mpr (only edge mem chosen).1
      _ ≤ 1 := nodup_iff_count_le_one.mp (List.NodupKeys.nodup tx.manifestBlobs.nodupKeys) _
  · next other => exact Nat.le_of_eq (countP_eq_zero.mpr fun edge mem chosen => other (only edge mem chosen).2)

theorem countReleased (entries : List Entry) (id : String) (dropped : Option String) (mem : entry ∈ entries)
    (held : holds key entry = true) (gone : holds key (released id dropped entry) = false) (k : Key) :
    (entries.map (released id dropped)).countP (holds k) + (if key = k then 1 else 0) ≤
      entries.countP (holds k) := by
  have narrower : ∀ x, (holds k ∘ released id dropped) x = true → holds k x = true := by
    intro x h
    simp only [Function.comp,holds,released,Bool.and_eq_true,Bool.or_eq_true] at h ⊢
    exact ⟨h.1,h.2.imp And.left And.left⟩
  rw [countP_map]
  split
  · next same => exact countNarrowed narrower mem (same ▸ held) (same ▸ gone)
  · exact countP_mono_left fun x _ => narrower x

theorem narrowedReleased (id : String) (dropped : Option String) (entry : Entry) :
    Narrowed (released id dropped entry) entry :=
  ⟨rfl,rfl,fun live => (Bool.and_eq_true_iff.mp live).1⟩

theorem ownerDropped (o : Owner tx digest row entry key) (other : digest ≠ d) (id : String) :
    Owner (markPrune (nextCSN (dropManifest tx d))) digest row (released id (some (hexOut d)) entry) key := by
  have linked : ∀ pos, (dropManifest tx d).manifestBlobs.lookup (digest,pos) = tx.manifestBlobs.lookup (digest,pos) := by
    intro pos
    simp only [dropManifest,lookupDeleteWhere]
    cases tx.manifestBlobs.lookup (digest,pos) <;> simp [other]
  have apart : hexOut digest ≠ hexOut d := fun same => other (HexText.encodeInjective same)
  refine ⟨?_,o.written,o.named,o.handle,o.ref,(linked 0).trans o.edge,?_⟩
  · simp [released,o.owner,o.written,apart]
  · exact fun pos ref h => o.single pos ref ((linked pos).symm.trans h)

section
variable (g : Guarded e pipeline texts b)
include g
theorem countedDropped (mem : entry ∈ b.entries)
    (o : Owner b.state.index d row entry key) (handle : row.artifactID = some id) (k : Key) :
    (b.entries.map (released id (some (hexOut d)))).countP (holds k) ≤
      refCountIn (dropManifest b.state.index d).blobs k := by
  have held : holds key entry = true := by simp [holds,o.ref,o.owner]
  have gone : holds key (released id (some (hexOut d)) entry) = false := by
    simp [holds,released,o.handle id handle,o.written]
  have fewer := countReleased b.entries id (some (hexOut d)) mem held gone k
  have edges := ownedEdges o k
  have counted := g.counted k
  have lowered : refCountIn (dropManifest b.state.index d).blobs k =
      refCountIn b.state.index.blobs k - (edgesOf b.state.index d).count k := refCountDrop _ _ _
  omega

theorem guardedDelete (done : Cas.delete e cfg b.state id now = (s,.ok ())) :
    Guarded e pipeline texts ⟨s,b.entries.map (released id (resolveManifestDigest b.state.index id))⟩ := by
  rcases deleteCases done with ⟨_,err,refused⟩ | ⟨digest,path,resolved,laid,fs,⟨_,err,refused⟩ | ⟨dropped,_⟩⟩
  · contradiction
  · contradiction
  rw [resolved]
  obtain ⟨d,row,rfl,found,handle⟩ := resolvedManifest resolved
  obtain ⟨entry,mem,key,o⟩ := g.owners d row found
  have alike := droppedRow dropped
  obtain ⟨_,absent⟩ | ⟨k,bound,_,index⟩ := deleteManifestOk dropped
  · exact absurd (memLookup.mpr ⟨row,found⟩) (absent d (hexKeyEncode o.named))
  cases some.inj (okSame (hexKeyEncode o.named) bound)
  have sound : SqliteIndex.perform e.indexes b.state.index (.deleteManifest (hexOut d)) = .ok s.index := dropped
  refine guardedKeeping g ?_ (placedIdentity g.placed alike) (soundPerform g.sound (performed sound)) ?_ (fun k => ?_) ?_
  · intro x inside
    obtain ⟨y,listed,rfl⟩ := mem_map.mp inside
    exact ⟨y,listed,narrowedReleased _ _ y⟩
  · intro key row held
    have known := alike key
    rw [held] at known
    obtain ⟨before,there,same⟩ := map_eq_some_iff.mp known.symm
    obtain ⟨hash,_,place,_⟩ := identityEq same
    refine ⟨before,there,hash,place,.inl ?_⟩
    rw [fs]
    exact removedBlob laid (place ▸ rowHead g.placed there)
  · rw [index]
    exact countedDropped g mem o handle k
  · intro d' row' found'
    rw [index] at found' ⊢
    obtain ⟨other,standing⟩ := lookupErased _ found'
    obtain ⟨y,listed,k,p⟩ := g.owners d' row' standing
    exact ⟨_,mem_map_of_mem listed,k,ownerDropped p other id⟩

theorem guardedFailed (index : s.index = b.state.index)
    (rows : ∀ key row, b.state.index.blobs.lookup key = some row → RowKept e texts b s key row) :
    Guarded e pipeline texts ⟨s,b.entries⟩ := by
  refine guardedKeeping g (fun x mem => ⟨x,mem,narrowedRefl x⟩) (index ▸ g.placed) (index ▸ g.sound) ?_
    (index ▸ g.counted) (index ▸ g.owners)
  rw [index]
  exact rows

theorem guardedDeleteStopped (done : Cas.delete e cfg b.state id now = (s,.error err)) :
    Guarded e pipeline texts ⟨s,b.entries⟩ := by
  rcases deleteCases done with ⟨rfl,_⟩ | ⟨digest,path,_,laid,fs,⟨index,_⟩ | ⟨_,finished⟩⟩
  · exact g
  · refine guardedFailed g index fun key row found => ⟨row,found,rfl,rfl,.inl ?_⟩
    rw [fs]
    exact removedBlob laid (rowHead g.placed found)
  · contradiction

theorem putKey (free : CollisionFree e.hasher texts)
    (keyless : ∀ algo ∈ pipeline, isCryptoAlgorithm algo = false) (plain : cfg.pipeline = pipeline)
    (text : call.payload ∈ texts) (stored : TargetPut e cfg b.state call s m output stages key) :
    key = e.hasher.sum output := by
  subst plain
  have crypto : cryptoIdentityOf stages = "" :=
    Readback.keylessIdentity (show Readback.Keyless (cfg,call) from keyless) stored.built
  obtain ⟨addr,r,_,_,_,_,⟨old,held,hit⟩ | ⟨_,sum,_⟩⟩ := stored.row
  · rw [crypto] at hit
    obtain ⟨k,row,spelled,found,hash,_⟩ := existsRow (hexKeyEncode (sumNe e.hasher call.payload)) hit
    cases HexText.encodeInjective spelled
    obtain ⟨x,output',stages',inside,built,content,sum⟩ := g.origins key row found
    cases free x inside call.payload text (content.symm.trans hash)
    cases okSame stored.built built
    exact sum
  · exact sum

end

section
variable {k} {row : BlobRow} {addr r raw}
theorem putFile (g : Guarded e pipeline texts b) (done : Cas.put e cfg b.state call = (s,.ok m))
    (stored : TargetPut e cfg b.state call s m output stages key) (found : s.index.blobs.lookup k = some row) :
    (∃ before, b.state.index.blobs.lookup k = some before ∧ row.physicalPath = before.physicalPath ∧
      s.fs.lookup row.physicalPath = b.state.fs.lookup before.physicalPath) ∨
    k = e.hasher.sum output ∧ s.fs.lookup row.physicalPath = some ⟨output,call.now,call.now⟩ := by
  rcases targetRow stored found with ⟨old,held,same⟩ | ⟨rfl,own⟩
  · rw [(identityEq same).2.2.1]
    rcases putRowFile done g.placed held with kept | ⟨output',stages',built,sum,written⟩
    · exact .inl ⟨old,held,rfl,kept⟩
    · cases okSame stored.built built
      exact .inr ⟨sum.symm,written⟩
  · exact .inr ⟨own.sum,own.written⟩

theorem putPresent (g : Guarded e pipeline texts b) (keyless : ∀ algo ∈ pipeline, isCryptoAlgorithm algo = false)
    (plain : cfg.pipeline = pipeline) (done : Cas.put e cfg b.state call = (s,.ok m))
    (stored : TargetPut e cfg b.state call s m output stages key) (onDisk : HitOnDisk e b (.put cfg call))
    (found : s.index.blobs.lookup key = some row) :
    ∃ file, s.fs.lookup row.physicalPath = some file := by
  subst plain
  have crypto : cryptoIdentityOf stages = "" :=
    Readback.keylessIdentity (show Readback.Keyless (cfg,call) from keyless) stored.built
  obtain ⟨addr,r,_,_,_,_,⟨old,held,hit⟩ | ⟨_,_,path,written⟩⟩ := stored.row
  · rw [crypto] at hit
    rcases putFile g done stored found with ⟨before,there,_,same⟩ | ⟨_,written⟩
    · rw [same]
      exact memLookup.mp (onDisk _ _ hit (resolveRow stored.named there))
    · exact ⟨_,written⟩
  · have place := (placedRegister stored g.placed key row found).2
    cases okSame path place
    exact ⟨_,written⟩

theorem putDigest (done : Cas.put e cfg b.state call = (s,.ok m)) : ∃ fileBytes, m.digest = e.hasher.hex fileBytes := by
  obtain ⟨c⟩ := putCommitted done
  obtain ⟨fileBytes,_,last⟩ := bindOk.mp c.assembled
  exact ⟨fileBytes,(congrArg (fun pair => pair.1.digest) (Except.ok.inj last)).symm⟩

theorem linkedSingle {m key} (refs : r.keys.refs = [key]) {pos}
    (single : ∀ pos k, tx.manifestBlobs.lookup (digest,pos) = some k → pos = 0)
    (linked : (register tx m addr now r).manifestBlobs.lookup (digest,pos) = some k) : pos = 0 := by
  simp only [register,lookupLinks,refs] at linked
  split at linked
  · next there => exact single pos _ there
  · split at linked
    · have bound := (List.getElem?_eq_some_iff.mp linked).1
      simpa using bound
    · contradiction

theorem ownerRegister {m key} (refs : r.keys.refs = [key]) {row row' entry}
    (o : Owner tx digest row entry k) (same : row'.artifactID = row.artifactID) :
    Owner (register tx m addr now r) digest row' entry k := by
  refine ⟨o.owner,o.written,o.named,same ▸ o.handle,o.ref,?_,fun pos k linked => linkedSingle refs o.single linked⟩
  simp only [register,lookupLinks,o.edge]

theorem edgelessDigest (sound : Sound tx) (absent : tx.manifests.lookup digest = none) (pos : Nat) :
    tx.manifestBlobs.lookup (digest,pos) = none := by
  cases linked : tx.manifestBlobs.lookup (digest,pos) with
  | none => rfl
  | some k =>
    obtain ⟨before,there⟩ := memLookup.mp (sound.edgeHasRow linked)
    rw [absent] at there
    contradiction

theorem knownSum {h : Hasher} (absent : tx.manifests.lookup (h.sum raw) = none) : known tx (h.hex raw) = false := by
  have bytes : hexKey (h.hex raw) = .ok (some (h.sum raw)) := hexKeyEncode (sumNe h raw)
  simp [known,manifestExistsByDigest,bytes,bind,Except.bind,pure,Except.pure,AList.lookup_eq_none.mp absent]

theorem ownerNew (sound : Sound tx) (spelled : m.digest = e.hasher.hex raw) (own : e.hasher.sum raw = r.keys.digest)
    (absent : tx.manifests.lookup r.keys.digest = none) (refs : r.keys.refs = [key]) (ref : m.blobRefs = [hexOut key]) :
    Owner (register tx m addr call.now r) r.keys.digest
      {manifestRow m r.keys.refs.head? call.now with csn := tx.csn + 1}
      ⟨m,call.payload,true,!known tx m.digest⟩ key := by
  have free := edgelessDigest sound absent
  constructor
  · rw [spelled,knownSum (own ▸ absent)]
    rfl
  · rw [← own]
    exact spelled
  · rw [← own]
    exact sumNe _ _
  · intro id handle
    simp only [manifestRow] at handle
    split at handle
    · contradiction
    · exact some.inj handle
  · simp [Manifest.primaryBlobRef,ref]
  · simp only [register,lookupLinks,free 0,refs]
    simp
  · intro pos k linked
    exact linkedSingle refs (fun p k there => by rw [free p] at there; contradiction) linked

theorem putOwner {row} (g : Guarded e pipeline texts b) (done : Cas.put e cfg b.state call = (s,.ok m))
    (stored : TargetPut e cfg b.state call s m output stages key) (found : s.index.manifests.lookup digest = some row) :
    ∃ entry ∈ b.entries ++ [⟨m,call.payload,true,!known b.state.index m.digest⟩], ∃ k,
      Owner s.index digest row entry k := by
  obtain ⟨addr,r,index,refs,_,registered,_⟩ := stored.row
  obtain ⟨fileBytes,spelled⟩ := putDigest done
  have bound := registrationDigest registered
  rw [spelled,bindSum] at bound
  have own : e.hasher.sum fileBytes = r.keys.digest := Except.ok.inj bound
  have standing : ∀ before, b.state.index.manifests.lookup digest = some before → row.artifactID = before.artifactID →
      ∃ entry ∈ b.entries ++ [⟨m,call.payload,true,!known b.state.index m.digest⟩], ∃ k,
        Owner s.index digest row entry k := by
    intro before held same
    obtain ⟨entry,mem,k,o⟩ := g.owners digest before held
    exact ⟨entry,mem_append_left _ mem,k,index ▸ ownerRegister refs o same⟩
  rw [index,lookupManifestsRegister] at found
  split at found
  · next mine =>
    subst mine
    have made := some.inj found
    cases held : b.state.index.manifests.lookup r.keys.digest with
    | some before =>
      rw [held] at made
      exact standing before held (made ▸ rfl)
    | none =>
      rw [held] at made
      refine ⟨_,mem_append_right _ (mem_singleton_self _),key,?_⟩
      rw [index,← made]
      exact ownerNew g.sound spelled own held refs stored.ref
  · exact standing row found rfl

end

theorem hashedPut (built : buildPut e.hasher e.registry cfg.pipeline call.payload = .ok (output,stages)) :
    call.payload ∈ hashedBy e (.put cfg call) ∧ output ∈ hashedBy e (.put cfg call) := Readback.hashedOutput built

theorem guardedPut (g : Guarded e pipeline texts b) (free : CollisionFree e.hasher texts)
    (inverse : ∀ algo ∈ pipeline, Inverts e.hasher e.registry algo)
    (keyless : ∀ algo ∈ pipeline, isCryptoAlgorithm algo = false) (plain : Plain pipeline (.put cfg call))
    (texted : ∀ x ∈ hashedBy e (.put cfg call), x ∈ texts) (onDisk : HitOnDisk e b (.put cfg call))
    (done : Cas.put e cfg b.state call = (s,.ok m)) :
    Guarded e pipeline texts ⟨s,b.entries ++ [⟨m,call.payload,true,!known b.state.index m.digest⟩]⟩ := by
  obtain ⟨c⟩ := putCommitted done
  rcases committedPut c with inline | ⟨output,stages,key,stored⟩
  · exact absurd (plain.2.symm.trans inline.mode) (by decide)
  have hashes := hashedPut stored.built
  have text := texted _ hashes.1
  have sum := putKey g free keyless plain.1 text stored
  have built := plain.1 ▸ stored.built
  have ref : m.primaryBlobRef = hexOut key := by simp [Manifest.primaryBlobRef,stored.ref]
  have placed := placedRegister stored g.placed
  obtain ⟨addr,r,index,refs,_⟩ := stored.row
  refine ⟨placed,index ▸ soundRegister g.sound _ _ _ _,?_,?_,?_,?_,?_,fun digest row found => putOwner g done stored found⟩
  · intro k row found
    rcases targetRow stored found with ⟨before,there,same⟩ | ⟨rfl,own⟩
    · rw [(identityEq same).1]
      exact g.origins k before there
    · exact ⟨call.payload,output,stages,text,built,own.content,own.sum⟩
  · intro k row file found there
    rcases putFile g done stored found with ⟨before,held,_,same⟩ | ⟨same,written⟩
    · exact g.files k before file held (same ▸ there)
    · cases someSame written there
      exact ⟨same.symm,texted _ hashes.2⟩
  · intro entry mem
    rcases mem_append.mp mem with old | new
    · exact g.kept entry old
    cases mem_singleton.mp new
    refine ⟨output,sum ▸ stored.ref,texted _ hashes.2,?_,fun empty => ?_⟩
    · rw [stored.pipeline]
      exact buildGetPut inverse built
    · subst empty
      cases built
      rfl
  · intro entry mem live k row named found
    rcases mem_append.mp mem with old | new
    · obtain ⟨before,held,_⟩ := heldRow g old (by simp [holds,named,live] : holds k entry = true)
      rcases putFile g done stored found with ⟨row',there,_,same⟩ | ⟨_,written⟩
      · rw [same]
        exact g.present entry old live k row' named there
      · exact ⟨_,written⟩
    · cases mem_singleton.mp new
      cases HexText.encodeInjective (ref.symm.trans named)
      exact putPresent g keyless plain.1 done stored onDisk found
  · intro k
    have raised : refCountIn s.index.blobs k = refCountIn b.state.index.blobs k + [key].count k := by
      rw [index,← refs]
      exact refCountRegister _ _ rfl _ _
    have mine : [(⟨m,call.payload,true,!known b.state.index m.digest⟩ : Entry)].countP (holds k) ≤ [key].count k := by
      by_cases same : key = k
      · subst same
        simp [holds,ref]
      · have other : hexOut key ≠ hexOut k := fun clash => same (HexText.encodeInjective clash)
        simp [holds,ref,other]
    show (b.entries ++ [_]).countP (holds k) ≤ _
    rw [raised,countP_append]
    exact Nat.add_le_add (g.counted k) mine

theorem guardedPutFailed (g : Guarded e pipeline texts b) (texted : ∀ x ∈ hashedBy e (.put cfg call), x ∈ texts)
    (done : Cas.put e cfg b.state call = (s,.error err)) : Guarded e pipeline texts ⟨s,b.entries⟩ := by
  refine guardedFailed g (putFailed done) fun key row found => ⟨row,found,rfl,rfl,?_⟩
  rcases putRowFile done g.placed found with same | ⟨output,stages,built,sum,written⟩
  · exact .inl same
  · exact .inr (.inr ⟨_,written,sum,texted _ (hashedPut built).2⟩)

theorem guardedStep (free : CollisionFree e.hasher texts) (inverse : ∀ algo ∈ pipeline, Inverts e.hasher e.registry algo)
    (keyless : ∀ algo ∈ pipeline, isCryptoAlgorithm algo = false) {op} (g : Guarded e pipeline texts b)
    (plain : Plain pipeline op) (texted : ∀ x ∈ hashedBy e op, x ∈ texts) (onDisk : HitOnDisk e b op) :
    Guarded e pipeline texts (record e b op) := by
  cases op with
  | put cfg call =>
    simp only [record]
    split
    · next s m done => exact guardedPut g free inverse keyless plain texted onDisk done
    · next s err done => exact guardedPutFailed g texted done
  | delete cfg id now =>
    simp only [record]
    split
    · next s done => exact guardedDelete g done
    · next s err done => exact guardedDeleteStopped g done
  | cycle complete grace tMark tSweep => exact guardedCycle g complete grace tMark tSweep

end

/-- In every run of Puts, Deletes and cycles on an unencrypted store in which each Put answered by the
dedup probe finds the blob's file at its path, every live artifact's blob opens and gives its bytes. -/
theorem liveReadable (e : Engine) (pipeline : List String) (ops : List StoreOp)
    (inverse : ∀ algo ∈ pipeline, Inverts e.hasher e.registry algo)
    (keyless : ∀ algo ∈ pipeline, isCryptoAlgorithm algo = false) (plain : ∀ op ∈ ops, Plain pipeline op)
    (free : CollisionFree e.hasher (ops.flatMap (hashedBy e))) (onDisk : Along (record e) (HitOnDisk e) Book.empty ops) :
    ∀ entry ∈ (after (record e) Book.empty ops).entries, entry.live = true →
      ∃ path data,
        resolve (after (record e) Book.empty ops).state.index entry.manifest.primaryBlobRef = .ok path ∧
        LocalFs.get (after (record e) Book.empty ops).state.fs path = .ok data ∧
        buildGet e.registry entry.manifest.pipeline data = .ok entry.payload ∧
        (pipeline = [] → data = entry.payload) := by
  have each : Along (record e) (fun _ op => Plain pipeline op ∧ ∀ x ∈ hashedBy e op, x ∈ ops.flatMap (hashedBy e))
      Book.empty ops :=
    alongOfMem fun op mem => ⟨plain op mem,fun x hash => mem_flatMap.mpr ⟨op,mem,hash⟩⟩
  have run : Guarded e pipeline (ops.flatMap (hashedBy e)) (after (record e) Book.empty ops) :=
    invariantAfter (fun b op g (ok : (Plain pipeline op ∧ _) ∧ HitOnDisk e b op) =>
        guardedStep free inverse keyless g ok.1.1 ok.1.2 ok.2)
      guardedEmpty (fun visit mem => ⟨each visit mem,onDisk visit mem⟩)
  exact fun entry mem live => guardedReads run free mem live

open GracePeriod (sampleEngine hour)
open Readback (sampleConfig sampleCall)

def revivedAfterMark : List StoreOp :=
  [.put (sampleConfig []) (sampleCall "u1" 1 0),.delete (sampleConfig []) "sha256-0000010201" 1,
   .cycle true hour 2 2,.put (sampleConfig []) (sampleCall "u2" 2 3)]

def revivedBeforeMark : List StoreOp :=
  [.put (sampleConfig []) (sampleCall "u1" 1 0),.delete (sampleConfig []) "sha256-0000010201" 1,
   .put (sampleConfig []) (sampleCall "u2" 2 3),.cycle true hour (2 * hour) (2 * hour)]

theorem sampleFree (texts : List Bytes) : CollisionFree sampleEngine.hasher texts := Readback.sampleCollisionFree texts

theorem markedHitLost :
    (∀ op ∈ revivedAfterMark, Plain [] op) ∧
    CollisionFree sampleEngine.hasher (revivedAfterMark.flatMap (hashedBy sampleEngine)) ∧
    ∃ entry ∈ (after (record sampleEngine) Book.empty revivedAfterMark).entries, entry.live = true ∧
      resolve (after (record sampleEngine) Book.empty revivedAfterMark).state.index
        entry.manifest.primaryBlobRef = .ok "blobs/00/00/00000102" ∧
      LocalFs.get (after (record sampleEngine) Book.empty revivedAfterMark).state.fs "blobs/00/00/00000102" =
        .error .notExist := by
  refine ⟨?_,sampleFree _,?_⟩
  · simp [revivedAfterMark,Plain,sampleConfig,StoreConfig.inlineMode]
  · decide +kernel

theorem revivedReadable :
    (∀ op ∈ revivedBeforeMark, Plain [] op) ∧
    ∀ entry ∈ (after (record sampleEngine) Book.empty revivedBeforeMark).entries, entry.live = true →
      ∃ path data,
        resolve (after (record sampleEngine) Book.empty revivedBeforeMark).state.index
          entry.manifest.primaryBlobRef = .ok path ∧
        LocalFs.get (after (record sampleEngine) Book.empty revivedBeforeMark).state.fs path = .ok data ∧
        buildGet sampleEngine.registry entry.manifest.pipeline data = .ok entry.payload ∧
        (([] : List String) = [] → data = entry.payload) := by
  have plain : ∀ op ∈ revivedBeforeMark, Plain [] op := by
    simp [revivedBeforeMark,Plain,sampleConfig,StoreConfig.inlineMode]
  exact ⟨plain,liveReadable sampleEngine [] revivedBeforeMark (fun _ none => by cases none) (fun _ none => by cases none)
    plain (sampleFree _) (by decide +kernel)⟩

end Scrinium.LiveData
