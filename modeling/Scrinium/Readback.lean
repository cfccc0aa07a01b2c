import Scrinium.CasRead

/-! Reading back what a sequence of Puts stored when each Put may run under its own keyless pipeline. -/
namespace Scrinium.Readback
open List hiding after
open Keyed Domain Layout LocalFs Pipeline SqliteIndex Cas Trace

abbrev PutOp := StoreConfig × PutCall

structure Ledger where
  state : State
  log : List (Manifest × Bytes)

def Ledger.empty : Ledger := ⟨⟨∅,Index.empty⟩,[]⟩

def putStep (e : Engine) (l : Ledger) (op : PutOp) : Ledger :=
  match Cas.put e op.1 l.state op.2 with
  | (s,.ok m) => ⟨s,l.log ++ [(m,op.2.payload)]⟩
  | (s,.error _) => ⟨s,l.log⟩

def algorithms (m : Manifest) : List String := m.pipeline.map PipelineStage.algorithm

def writtenUnder (log : List (Manifest × Bytes)) (ref : String) : Option (List String) :=
  (log.find? fun entry => entry.1.primaryBlobRef = ref).map fun entry => algorithms entry.1

def SamePipeline (e : Engine) (l : Ledger) (op : PutOp) : Prop :=
  ∀ ref, existsByContent e.limit l.state.index (e.hasher.hex op.2.payload) op.2.payload.length "" = .ok (some ref) →
    writtenUnder l.log ref = some op.1.pipeline
instance (e : Engine) (l : Ledger) (op : PutOp) : Decidable (SamePipeline e l op) :=
  match probe : existsByContent e.limit l.state.index (e.hasher.hex op.2.payload) op.2.payload.length "" with
  | .ok (some ref) => decidable_of_iff (writtenUnder l.log ref = some op.1.pipeline)
      ⟨fun same other hit => by cases probe.symm.trans hit; exact same,fun all => all ref probe⟩
  | .ok none => .isTrue fun other hit => by cases probe.symm.trans hit
  | .error _ => .isTrue fun other hit => by cases probe.symm.trans hit

def Keyless (op : PutOp) : Prop := ∀ algo ∈ op.1.pipeline, isCryptoAlgorithm algo = false

def hashed (e : Engine) (op : PutOp) : List Bytes :=
  match buildPut e.hasher e.registry op.1.pipeline op.2.payload with
  | .ok (output,_) => [op.2.payload,output]
  | .error _ => [op.2.payload]

def CollisionFree (h : Hasher) (texts : List Bytes) : Prop := ∀ a ∈ texts, ∀ b ∈ texts, h.sum a = h.sum b → a = b

variable {e : Engine} {op output x stages texts l key m s'}

theorem hashedOutput (built : buildPut e.hasher e.registry op.1.pipeline op.2.payload = .ok (output,stages)) :
    op.2.payload ∈ hashed e op ∧ output ∈ hashed e op := by
  simp [hashed,built]

theorem keylessIdentity (keyless : Keyless op)
    (built : buildPut e.hasher e.registry op.1.pipeline op.2.payload = .ok (output,stages)) :
    cryptoIdentityOf stages = "" := by
  refine cryptoIdentityKeyless fun stage mem => keyless stage.algorithm ?_
  rw [← buildPutAlgos built]
  exact mem_map_of_mem mem

structure Origin (e : Engine) (texts : List Bytes) (log : List (Manifest × Bytes)) (key content : Key) : Prop where
  first : ∃ m x output, log.find? (fun entry => entry.1.primaryBlobRef = hexOut key) = some (m,x) ∧
    buildPut e.hasher e.registry (algorithms m) x = .ok (output,m.pipeline) ∧
    x ∈ texts ∧ content = e.hasher.sum x ∧ key = e.hasher.sum output

inductive EntryStored (e : Engine) (texts : List Bytes) (tx : Index) (m : Manifest) (x : Bytes) : Prop where
  | inline (layout : m.layout = .inline) (pipeline : m.pipeline = []) (body : m.inlineBlob = x)
      (refs : m.blobRefs = [])
  | target (key : Key) (row : BlobRow) (output : Bytes) (layout : m.layout = .target)
      (refs : m.blobRefs = [hexOut key]) (named : key ≠ []) (found : tx.blobs.lookup key = some row)
      (text : output ∈ texts) (sum : e.hasher.sum output = key)
      (back : buildGet e.registry m.pipeline output = .ok x)

structure Readable (e : Engine) (texts : List Bytes) (l : Ledger) : Prop where
  placed : RowsPlaced e.topology l.state.index
  origins : ∀ key row, l.state.index.blobs.lookup key = some row → Origin e texts l.log key row.contentHash
  files : ∀ key row, l.state.index.blobs.lookup key = some row →
    ∃ file, l.state.fs.lookup row.physicalPath = some file ∧ e.hasher.sum file.data = key ∧ file.data ∈ texts
  entries : ∀ m x, (m,x) ∈ l.log → EntryStored e texts l.state.index m x

theorem readableEmpty (e : Engine) (texts : List Bytes) : Readable e texts Ledger.empty where
  placed _ _ found := by simp [Ledger.empty,Index.empty] at found
  origins _ _ found := by simp [Ledger.empty,Index.empty] at found
  files _ _ found := by simp [Ledger.empty,Index.empty] at found
  entries _ _ mem := by simp [Ledger.empty] at mem

theorem entryRow (h : Readable e texts l) (named : key ≠ []) {entry}
    (first : l.log.find? (fun entry => entry.1.primaryBlobRef = hexOut key) = some entry) :
    ∃ row, l.state.index.blobs.lookup key = some row := by
  have same : entry.1.primaryBlobRef = hexOut key := by simpa using List.find?_some first
  obtain ⟨m,x⟩ := entry
  cases h.entries m x (mem_of_find?_eq_some first) with
  | inline layout pipeline body refs =>
    rw [Manifest.primaryBlobRef,refs] at same
    exact absurd same.symm (hexOutNe named)
  | target k row output layout refs _ found text sum back =>
    rw [Manifest.primaryBlobRef,refs] at same
    cases HexText.encodeInjective same
    exact ⟨row,found⟩

theorem openStored (h : Readable e texts l) (free : CollisionFree e.hasher texts) (mem : (m,x) ∈ l.log) :
    openBlob e l.state m = .ok x := by
  cases h.entries m x mem with
  | inline layout pipeline body refs =>
    simp [openBlob,openRawBlob,layout,pipeline,body,bind,Except.bind,buildGet]
  | target key row output layout refs named found text sum back =>
    obtain ⟨file,held,hash,stored⟩ := h.files key row found
    have same : file.data = output := free file.data stored output text (hash.trans sum.symm)
    have path : resolve l.state.index m.primaryBlobRef = .ok row.physicalPath := by
      rw [Manifest.primaryBlobRef,refs]
      exact resolveRow named found
    have data : LocalFs.get l.state.fs row.physicalPath = .ok output := getOk.mpr ⟨file,held,same⟩
    simp only [openBlob,openRawBlob,layout,path,data,bind,Except.bind]
    exact back

theorem filesKept {outcome} (h : Readable e texts l) (texted : ∀ b ∈ hashed e op, b ∈ texts)
    (done : Cas.put e op.1 l.state op.2 = (s',outcome)) {row} (found : l.state.index.blobs.lookup key = some row) :
    ∃ file, s'.fs.lookup row.physicalPath = some file ∧ e.hasher.sum file.data = key ∧ file.data ∈ texts := by
  rcases putRowFile done h.placed found with same | ⟨output,stages,built,sum,written⟩
  · rw [same]
    exact h.files key row found
  · exact ⟨⟨output,op.2.now,op.2.now⟩,written,sum,texted output (hashedOutput built).2⟩

theorem originAppend {log content} (origin : Origin e texts log key content)
    (more : List (Manifest × Bytes)) :
    Origin e texts (log ++ more) key content := by
  obtain ⟨m,x,output,first,rest⟩ := origin.first
  exact ⟨m,x,output,by rw [List.find?_append,first]; rfl,rest⟩

theorem entryRegister {tx} (stored : EntryStored e texts tx m x) (other : Manifest) (path : String)
    (now : Instant) (r : Registration) :
    EntryStored e texts (register tx other path now r) m x := by
  cases stored with
  | inline layout pipeline body refs => exact .inline layout pipeline body refs
  | target key row output layout refs named found text sum back =>
    obtain ⟨row',found',_⟩ := registeredKeeps other path now r found
    exact .target key row' output layout refs named found' text sum back

theorem readableFailed {err} (h : Readable e texts l) (texted : ∀ b ∈ hashed e op, b ∈ texts)
    (done : Cas.put e op.1 l.state op.2 = (s',.error err)) : Readable e texts ⟨s',l.log⟩ := by
  have index := putFailed done
  refine ⟨?_,?_,?_,?_⟩
  · simpa only [index] using h.placed
  · simpa only [index] using h.origins
  · intro key row found
    rw [index] at found
    exact filesKept h texted done found
  · simpa only [index] using h.entries

section
variable (h : Readable e texts l) (texted : ∀ b ∈ hashed e op, b ∈ texts)
include h texted
theorem readableInline (done : Cas.put e op.1 l.state op.2 = (s',.ok m)) (inline : InlinePut e op.1 l.state op.2 s' m) :
    Readable e texts ⟨s',l.log ++ [(m,op.2.payload)]⟩ := by
  have blobs := inlineBlobs inline
  obtain ⟨addr,r,index,_⟩ := inline.row
  refine ⟨?_,?_,?_,?_⟩
  · simpa only [RowsPlaced,blobs] using h.placed
  · intro key row found
    rw [blobs] at found
    exact originAppend (h.origins key row found) _
  · intro key row found
    rw [blobs] at found
    exact filesKept h texted done found
  · intro m' x mem
    rcases mem_append.mp mem with old | new
    · simpa only [index] using entryRegister (h.entries m' x old) m addr op.2.now r
    · cases mem_singleton.mp new
      exact .inline inline.layout inline.pipeline inline.body inline.refs

theorem newEntry (free : CollisionFree e.hasher texts) (keyless : Keyless op) (same : SamePipeline e l op)
    (stored : TargetPut e op.1 l.state op.2 s' m output stages key) :
    e.hasher.sum output = key := by
  obtain ⟨addr,r,index,refs,content,_,side⟩ := stored.row
  have texts' := hashedOutput stored.built
  rcases side with ⟨old,held,hit⟩ | ⟨_,sum,_⟩
  · rw [keylessIdentity keyless stored.built] at hit
    have probe : existsByContent e.limit l.state.index (e.hasher.hex op.2.payload) op.2.payload.length "" =
        .ok (some (hexOut key)) := hit
    obtain ⟨k,row,spelled,found,hash,_⟩ := existsRow (hexKeyEncode (sumNe e.hasher op.2.payload)) probe
    cases HexText.encodeInjective spelled
    obtain ⟨m0,x0,output0,first,built0,text0,content0,sum0⟩ := (h.origins key row found).first
    have under := same _ probe
    rw [writtenUnder,first] at under
    have algos : algorithms m0 = op.1.pipeline := Option.some.inj under
    have payload : x0 = op.2.payload := free x0 text0 op.2.payload (texted _ texts'.1) (content0.symm.trans hash)
    rw [algos,payload,stored.built] at built0
    cases built0
    exact sum0.symm
  · exact sum.symm

theorem readableTarget
    (free : CollisionFree e.hasher texts) (inverse : ∀ algo, Inverts e.hasher e.registry algo) (keyless : Keyless op)
    (same : SamePipeline e l op) (done : Cas.put e op.1 l.state op.2 = (s',.ok m))
    (stored : TargetPut e op.1 l.state op.2 s' m output stages key) :
    Readable e texts ⟨s',l.log ++ [(m,op.2.payload)]⟩ := by
  have sum := newEntry h texted free keyless same stored
  have texts' := hashedOutput stored.built
  have algos : algorithms m = op.1.pipeline := by
    rw [algorithms,stored.pipeline]
    exact buildPutAlgos stored.built
  obtain ⟨addr,r,index,refs,_⟩ := stored.row
  refine ⟨placedRegister stored h.placed,?_,?_,?_⟩
  · intro k row found
    rcases targetRow stored found with ⟨old,held,alike⟩ | ⟨rfl,own⟩
    · rw [(identityEq alike).1]
      exact originAppend (h.origins k old held) _
    -- no earlier manifest references a ref without a row, so the new one is its first
    have unseen : l.log.find? (fun entry => entry.1.primaryBlobRef = hexOut k) = none := by
      cases first : l.log.find? (fun entry => entry.1.primaryBlobRef = hexOut k) with
      | none => rfl
      | some entry =>
        obtain ⟨old,held⟩ := entryRow h stored.named first
        cases own.absent.symm.trans held
    refine ⟨m,op.2.payload,output,?_,?_,texted _ texts'.1,own.content,own.sum⟩
    · rw [List.find?_append,unseen]
      simp [Manifest.primaryBlobRef,stored.ref]
    · rw [algos,stored.pipeline]
      exact stored.built
  · intro k row found
    rcases targetRow stored found with ⟨old,held,alike⟩ | ⟨rfl,own⟩
    · rw [(identityEq alike).2.2.1]
      exact filesKept h texted done held
    · exact ⟨_,own.written,sum,texted _ texts'.2⟩
  · intro m' x mem
    rcases mem_append.mp mem with old | new
    · simpa only [index] using entryRegister (h.entries m' x old) m addr op.2.now r
    cases mem_singleton.mp new
    have held : key ∈ s'.index.blobs := index ▸ registeredHas m addr op.2.now (refs ▸ mem_singleton_self key)
    obtain ⟨row,found⟩ := memLookup.mp held
    refine .target key row output stored.layout stored.ref stored.named found (texted _ texts'.2) sum ?_
    rw [stored.pipeline]
    exact buildGetPut (fun algo _ => inverse algo) stored.built

end

theorem readableStep (inverse : ∀ algo, Inverts e.hasher e.registry algo) (free : CollisionFree e.hasher texts)
    (h : Readable e texts l) (texted : ∀ b ∈ hashed e op, b ∈ texts) (keyless : Keyless op)
    (same : SamePipeline e l op) : Readable e texts (putStep e l op) := by
  unfold putStep
  split
  · next s' m done =>
    obtain ⟨committed⟩ := putCommitted done
    rcases committedPut committed with inline | ⟨output,stages,key,stored⟩
    · exact readableInline h texted done inline
    · exact readableTarget h texted free inverse keyless same done stored
  · next s' err done => exact readableFailed h texted done

/-- In every run of Puts under keyless pipelines in which each Put whose probe hits a blob runs under
the stages that blob was written under, every manifest reads back the payload it was made for. -/
theorem readsBack (e : Engine) (ops : List PutOp) (inverse : ∀ algo, Inverts e.hasher e.registry algo)
    (keyless : ∀ op ∈ ops, Keyless op) (free : CollisionFree e.hasher (ops.flatMap (hashed e)))
    (same : Along (putStep e) (SamePipeline e) Ledger.empty ops) :
    ∀ m x, (m,x) ∈ (after (putStep e) Ledger.empty ops).log →
      openBlob e (after (putStep e) Ledger.empty ops).state m = .ok x := by
  have texted : Along (putStep e) (fun _ op => Keyless op ∧ ∀ b ∈ hashed e op, b ∈ ops.flatMap (hashed e))
      Ledger.empty ops :=
    alongOfMem fun op mem => ⟨keyless op mem,fun b hash => mem_flatMap.mpr ⟨op,mem,hash⟩⟩
  have run : Readable e (ops.flatMap (hashed e)) (after (putStep e) Ledger.empty ops) :=
    invariantAfter (fun l op h (ok : (Keyless op ∧ _) ∧ _) =>
        readableStep inverse free h ok.1.2 ok.1.1 ok.2)
      (readableEmpty e _) (fun visit mem => ⟨texted visit mem,same visit mem⟩)
  exact fun m x mem => openStored run free mem

def taggingStage : TransformerFactory :=
  { encode := fun b => ⟨0x28::b,[],""⟩
    decode := fun _ b => match b with
      | 0x28::rest => .ok rest
      | _ => .error (.other "zstd: magic number mismatch")
    aead := false }

def sampleEngine : Engine :=
  { hasher := ⟨"sha256",fun b => 0::0::b,Pipeline.paddedLong⟩
    registry := fun algo => if algo = "zstd" then some taggingStage else none
    topology := .sharded
    handleOf := fun hash nonce => "sha256-" ++ hash ++ HexText.encode nonce
    encodeManifest := fun m => .ok (m.artifactID.toList.map fun c => c.toNat.toUInt8)
    decodeManifest := fun _ => .error (.other "unused")
    limit := .first, indexes := [] }

def sampleConfig (pipeline : List String) : StoreConfig :=
  { blobStorage := .target, inlineBlobLimit := 0, pipeline := pipeline, maxArtifactSize := 0
    identityMode := .unique, deletionPolicy := .allow }

def sampleCall (id : String) (nonce now : Nat) : PutCall :=
  { payload := [1,2], ext := [], usr := [], sessionID := "", retentionUntil := none, parentRefs := []
    stagingID := id, nonce := [nonce.toUInt8], now := now }

def rawThenCompressed : List PutOp :=
  [(sampleConfig [],sampleCall "u1" 1 10),(sampleConfig ["zstd"],sampleCall "u2" 2 20)]

def rawTwice : List PutOp := [(sampleConfig [],sampleCall "u1" 1 10),(sampleConfig [],sampleCall "u2" 2 20)]

theorem sampleInverts (algo : String) : Inverts sampleEngine.hasher sampleEngine.registry algo := by
  intro factory registered input
  simp only [sampleEngine] at registered
  split at registered
  · cases registered
    rfl
  · contradiction

theorem sampleCollisionFree (texts : List Bytes) : CollisionFree sampleEngine.hasher texts := by
  intro a _ b _ same
  simpa [sampleEngine] using same

theorem compressedHitUnreadable :
    (∀ algo, Inverts sampleEngine.hasher sampleEngine.registry algo) ∧
    (∀ op ∈ rawThenCompressed, Keyless op) ∧
    CollisionFree sampleEngine.hasher (rawThenCompressed.flatMap (hashed sampleEngine)) ∧
    ∃ entry ∈ (after (putStep sampleEngine) Ledger.empty rawThenCompressed).log,
      openBlob sampleEngine (after (putStep sampleEngine) Ledger.empty rawThenCompressed).state entry.1 ≠
        .ok entry.2 := by
  refine ⟨sampleInverts,?_,sampleCollisionFree _,?_⟩
  · unfold Keyless
    decide
  · decide +kernel

theorem rawTwiceReadsBack :
    (∀ op ∈ rawTwice, Keyless op) ∧
    ∀ m x, (m,x) ∈ (after (putStep sampleEngine) Ledger.empty rawTwice).log →
      openBlob sampleEngine (after (putStep sampleEngine) Ledger.empty rawTwice).state m = .ok x := by
  have keyless : ∀ op ∈ rawTwice, Keyless op := by
    unfold Keyless
    decide
  exact ⟨keyless,readsBack sampleEngine rawTwice sampleInverts keyless (sampleCollisionFree _) (by decide +kernel)⟩

end Scrinium.Readback
