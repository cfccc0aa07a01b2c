import Scrinium.CasRead
import Scrinium.Named

/-! The descriptor of a store, its identity and its key, in two cells of the named layer. A cell is an inline manifest
whose payload is hashed again on every read. -/
namespace Scrinium.StoreDescriptor
open Keyed Domain LocalFs Pipeline Named Trace
open Cas (maxManifestSize)

structure KDFParams where
  algorithm : String
  time : Nat
  memory : Nat
  threads : Nat
  salt : Bytes
  deriving DecidableEq

structure Descriptor where
  storeID : String
  schemaVersion : Int
  sequence : Nat
  dek : Bytes
  dekEncrypted : Bool
  kdfParams : Option KDFParams
  deriving DecidableEq

def currentSchemaVersion : Int := 1
def name : String := "store.descriptor"
def backupName : String := "store.descriptor.backup"
abbrev HashRegistry := String → Option Hasher

inductive Halt where
  | artifactNotFound
  | corruptedContent
  | failed (err : Error)
  | panicked
  deriving DecidableEq

structure Codec where
  marshalIndent : Descriptor → Except Error Bytes
  parse : Bytes → Except Error Descriptor
  encode : Manifest → Except Error Bytes
  decode : Bytes → Except Error Manifest

def validate (d : Descriptor) : Except Error Unit :=
  if d.storeID = "" then .error (.other "descriptor: empty store_id")
  else if d.schemaVersion ≤ 0 then
    .error (.other ("descriptor: invalid schema_version: " ++ toString d.schemaVersion))
  else if currentSchemaVersion < d.schemaVersion then
    .error (.other ("descriptor: schema_version " ++ toString d.schemaVersion ++ " exceeds supported " ++
      toString currentSchemaVersion))
  else if d.sequence = 0 then .error (.other "descriptor: sequence must be >= 1")
  else if d.dekEncrypted ∧ d.dek = [] then .error (.other "descriptor: dek_encrypted=true but dek is empty")
  else if d.dekEncrypted ∧ d.kdfParams = none then
    .error (.other "descriptor: dek_encrypted=true but kdf_params is missing")
  else .ok ()

def marshal (x : Codec) (d : Descriptor) : Except Error Bytes := do
  validate d
  x.marshalIndent d

def unmarshal (x : Codec) (data : Bytes) : Except Error Descriptor := do
  let d ← x.parse data
  validate d
  return d

def sessionID : String := "init"

def inlineManifest (h : Hasher) (name : String) (payload : Bytes) (algo : String) (now : Instant) : Manifest :=
  { artifactID := "", name := name, digest := "", identityNonce := [], sessionID := sessionID, createdAt := some now
    contentHash := h.hex payload, originalSize := payload.length, hashAlgo := algo, blobRefs := [], handleRefs := []
    layout := .inline, pipeline := [], inlineBlob := payload, retentionUntil := none, ext := [], usr := [] }

def buildInlineManifest (x : Codec) (hashes : Option HashRegistry) (name : String) (payload : Bytes) (algo : String)
    (now : Instant) : Except Halt Bytes :=
  match hashes with
  | none => .error .panicked
  | some registry =>
    match registry algo with
    | none => .error (.failed .unsupportedAlgorithm)
    | some h => (x.encode (inlineManifest h name payload algo now)).mapError .failed

def verifyInlinePayload (hashes : Option HashRegistry) (m : Manifest) : Except Halt Unit :=
  match HexText.decode m.contentHash with
  | none => .error .corruptedContent
  | some want =>
    match hashes with
    | none => .error .panicked
    | some registry =>
      match registry m.hashAlgo with
      | none => .error .corruptedContent
      | some h => if h.sum m.inlineBlob = want then .ok () else .error .corruptedContent

def load (x : Codec) (hashes : Option HashRegistry) (fs : Fs) (path : String) : Except Halt Manifest :=
  match fs.lookup path with
  | none => .error .artifactNotFound
  | some file =>
    if maxManifestSize < file.data.length then .error (.failed .manifestTooLarge)
    else match x.decode file.data with
      | .error err => .error (.failed err)
      | .ok m =>
        if m.layout ≠ .inline then .error (.failed (.other "expected inline layout"))
        else do
          verifyInlinePayload hashes m
          return m

def loadCell (x : Codec) (hashes : Option HashRegistry) (fs : Fs) (name : String) : Except Halt Manifest := do
  let path ← (cellPath name).mapError .failed
  load x hashes fs path

def writeCell (fs : Fs) (name : String) (body : Bytes) (now : Instant) : Except Halt Fs := do
  let path ← (cellPath name).mapError .failed
  return LocalFs.put fs path body now

def hashSHA256 : String := "sha256"

section
variable (x : Codec) (hashes : Option HashRegistry)
def writeReplicaCell (name : String) (data : Bytes) (now : Instant) (fs : Fs) : Except Halt Fs := do
  let body ← buildInlineManifest x hashes name data hashSHA256 now
  writeCell fs name body now

def read (fs : Fs) : Except Halt Descriptor := do
  let m ← loadCell x hashes fs name
  (unmarshal x m.inlineBlob).mapError .failed

def writeBoth (d : Descriptor) (now : Instant) (fs : Fs) : Fs × Option Halt :=
  match marshal x d with
  | .error err => (fs,some (.failed err))
  | .ok data =>
    match writeReplicaCell x hashes name data now fs with
    | .error halt => (fs,some halt)
    | .ok fs =>
      match writeReplicaCell x hashes backupName data now fs with
      | .error halt => (fs,some halt)
      | .ok fs => (fs,none)

end

inductive Replica where
  | l0
  | l1
  deriving DecidableEq

def Replica.name : Replica → String
  | .l0 => StoreDescriptor.name
  | .l1 => backupName

section
variable (x : Codec) (hashes : Option HashRegistry)
def writeReplica (d : Descriptor) (r : Replica) (now : Instant) (fs : Fs) : Except Halt Fs := do
  let data ← (marshal x d).mapError .failed
  writeReplicaCell x hashes r.name data now fs

inductive Reading where
  | absent
  | corrupted
  | valid (d : Descriptor)
  deriving DecidableEq

def readReplica (fs : Fs) (r : Replica) : Except Halt Reading :=
  match loadCell x hashes fs r.name with
  | .error .artifactNotFound => .ok .absent
  | .error .corruptedContent => .ok .corrupted
  | .error halt => .error halt
  | .ok m =>
    match unmarshal x m.inlineBlob with
    | .error _ => .ok .corrupted
    | .ok d => .ok (.valid d)

def readBoth (fs : Fs) : Except Halt (Reading × Reading) :=
  match readReplica x hashes fs .l0, readReplica x hashes fs .l1 with
  | .error .panicked, _ => .error .panicked
  | _, .error .panicked => .error .panicked
  | .error halt, _ => .error halt
  | _, .error halt => .error halt
  | .ok l0, .ok l1 => .ok (l0,l1)

end

inductive Action where
  | healNone
  | healL0FromL1
  | healL1FromL0
  | healBothFromL0
  | healBothFromL1
  deriving DecidableEq

inductive OpenError where
  | storeNotFound
  | storeCorrupted
  | descriptorSplitBrain
  | halted (halt : Halt)
  deriving DecidableEq

def reconcile : Reading → Reading → Except OpenError (Descriptor × Action)
  | .absent, .absent => .error .storeNotFound
  | .valid d0, .valid d1 =>
    if d0 = d1 then .ok (d0,.healNone)
    else if d1.sequence < d0.sequence then .ok (d0,.healBothFromL0)
    else if d0.sequence < d1.sequence then .ok (d1,.healBothFromL1)
    else .error .descriptorSplitBrain
  | .valid d0, _ => .ok (d0,.healL1FromL0)
  | _, .valid d1 => .ok (d1,.healL0FromL1)
  | _, _ => .error .storeCorrupted

def healReplicas (x : Codec) (hashes : Option HashRegistry) (canonical : Descriptor) (now : Instant) (fs : Fs) :
    Action → Except Halt Fs
  | .healNone => .ok fs
  | .healL0FromL1 | .healBothFromL1 => writeReplica x hashes canonical .l0 now fs
  | .healL1FromL0 | .healBothFromL0 => writeReplica x hashes canonical .l1 now fs

def loadCanonicalDescriptor (x : Codec) (hashes : Option HashRegistry) (now : Instant) (fs : Fs) :
    Except OpenError (Descriptor × Fs) := do
  let (l0,l1) ← (readBoth x hashes fs).mapError .halted
  let (desc,action) ← reconcile l0 l1
  let healed ← (healReplicas x hashes desc now fs action).mapError .halted
  return (desc,healed)

section
variable {x hashes fs fs' d now}
theorem replicaPath (r : Replica) : cellPath r.name = .ok (cellFile r.name) := by
  cases r <;> decide +kernel

theorem replicasApart : cellFile Replica.l0.name ≠ cellFile Replica.l1.name := by decide +kernel

theorem loadReplica (r : Replica) : loadCell x hashes fs r.name = load x hashes fs (cellFile r.name) := by
  rw [loadCell,replicaPath]
  rfl

theorem loadAbsent {path} : load x hashes fs path = .error .artifactNotFound ↔ fs.lookup path = none := by
  unfold load
  split
  · next missing => simp [missing]
  next file found =>
  simp only [found,reduceCtorEq,iff_false]
  split
  · simp
  split
  · simp
  next m _ =>
  split
  · simp
  unfold verifyInlinePayload
  split
  · simp [bind,Except.bind]
  split
  · simp [bind,Except.bind]
  · split
    · simp [bind,Except.bind]
    · split <;> simp [bind,Except.bind,pure,Except.pure]

theorem readAbsent : read x hashes fs = .error .artifactNotFound ↔ fs.lookup (cellFile name) = none := by
  have opened : loadCell x hashes fs name = load x hashes fs (cellFile name) := loadReplica .l0
  rw [← @loadAbsent x hashes fs,read,opened]
  cases load x hashes fs (cellFile name) with
  | error halt => simp [bind,Except.bind]
  | ok m => cases parsed : unmarshal x m.inlineBlob <;> simp [bind,Except.bind,Except.mapError,parsed]

variable {r : Replica} {data l0 l1}

theorem readReplicaCongr (same : fs'.lookup (cellFile r.name) = fs.lookup (cellFile r.name)) :
    readReplica x hashes fs' r = readReplica x hashes fs r := by
  simp only [readReplica,loadReplica,load,same]

theorem builtBody {n body} (built : buildInlineManifest x hashes n data hashSHA256 now = .ok body) :
    ∃ registry h, hashes = some registry ∧ registry hashSHA256 = some h ∧
      x.encode (inlineManifest h n data hashSHA256 now) = .ok body := by
  unfold buildInlineManifest at built
  split at built
  · cases built
  next registry =>
  split at built
  · cases built
  next h known => exact ⟨registry,h,rfl,known,mapErrorOk.mp built⟩

theorem writtenCell (ok : writeReplicaCell x hashes r.name data now fs = .ok fs') :
    ∃ body, buildInlineManifest x hashes r.name data hashSHA256 now = .ok body ∧
      fs' = LocalFs.put fs (cellFile r.name) body now := by
  obtain ⟨body,built,rest⟩ := bindOk.mp ok
  refine ⟨body,built,?_⟩
  rw [writeCell,replicaPath] at rest
  exact (Except.ok.inj rest).symm

theorem readBothOk :
    readBoth x hashes fs = .ok (l0,l1) ↔ readReplica x hashes fs .l0 = .ok l0 ∧ readReplica x hashes fs .l1 = .ok l1 := by
  unfold readBoth
  split <;> simp_all

theorem loadedOk :
    loadCanonicalDescriptor x hashes now fs = .ok (d,fs') ↔ ∃ l0 l1 action, readReplica x hashes fs .l0 = .ok l0 ∧
      readReplica x hashes fs .l1 = .ok l1 ∧ reconcile l0 l1 = .ok (d,action) ∧
      healReplicas x hashes d now fs action = .ok fs' := by
  simp only [loadCanonicalDescriptor,bindOk,mapErrorOk,Prod.exists,readBothOk]
  constructor
  · rintro ⟨l0,l1,⟨first,second⟩,desc,action,picked,healed,done,last⟩
    cases last
    exact ⟨l0,l1,action,first,second,picked,done⟩
  · rintro ⟨l0,l1,action,first,second,picked,done⟩
    exact ⟨l0,l1,⟨first,second⟩,d,action,picked,fs',done,rfl⟩

theorem reconciled {action} (ok : reconcile l0 l1 = .ok (d,action)) :
    (action = .healNone ∧ l0 = .valid d ∧ l1 = .valid d) ∨
      ((action = .healL0FromL1 ∨ action = .healBothFromL1) ∧ l1 = .valid d) ∨
      ((action = .healL1FromL0 ∨ action = .healBothFromL0) ∧ l0 = .valid d) := by
  unfold reconcile at ok
  split at ok
  · cases ok
  · next d0 d1 =>
    split at ok
    · next same =>
      cases ok
      exact .inl ⟨rfl,rfl,congrArg Reading.valid same.symm⟩
    split at ok
    · cases ok
      exact .inr (.inr ⟨.inr rfl,rfl⟩)
    split at ok
    · cases ok
      exact .inr (.inl ⟨.inr rfl,rfl⟩)
    · cases ok
  · cases ok
    exact .inr (.inr ⟨.inl rfl,rfl⟩)
  · cases ok
    exact .inr (.inl ⟨.inl rfl,rfl⟩)
  · cases ok

end

end Scrinium.StoreDescriptor
