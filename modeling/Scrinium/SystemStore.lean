import Scrinium.NamedPlane
import Scrinium.StoreDescriptor

/-! The store of system artifacts (package systemstore): envelopes in inline manifests, in a cell or in versions. -/
namespace Scrinium.SystemStore
open Keyed Domain LocalFs Named Trace
open StoreDescriptor (HashRegistry Halt buildInlineManifest writeCell)

structure Envelope where
  storeID : String
  inlinePayload : Bytes
  externalPayloadRef : String
  deriving DecidableEq

structure Host where
  codec : StoreDescriptor.Codec
  hashes : HashRegistry
  contentHasher : String
  storeID : String
  marshalEnvelope : Envelope → Except Error Bytes
  parseEnvelope : Bytes → Except Error Envelope

structure Resolver (ε : Type) where
  openExternal : ε → String → Except Halt Bytes
  deleteExternal : ε → String → ε × Except Halt Unit

structure State (ε : Type) where
  fs : Fs
  external : ε

structure NamedArtifact where
  name : String
  payload : Except Error Bytes
  externalRef : String
  keep : Option Nat
  encode : Manifest → Except Error Bytes
  now : Instant

def defaultKeepVersions : Nat := 1
def NamedArtifact.keeps (a : NamedArtifact) : Nat := a.keep.getD defaultKeepVersions

def claimVersion (fs : Fs) (name : String) (body : Bytes) (now : Instant) : (attempts : Nat) → Except Error Fs
  | 0 => .error .leaseHeld
  | attempts + 1 => do
    let next ← claimTarget fs name
    match putExclusive fs (versionFile name next) body now with
    | .error .alreadyExists => claimVersion fs name body now attempts
    | .error err => .error err
    | .ok fs' => .ok fs'

section
variable (fs : Fs) (name : String)
def removeVersions (seqs : List Nat) : Fs := seqs.foldl (fun fs seq => remove fs (versionFile name seq)) fs

def prune (keep : Nat) : Fs :=
  match pruneTargets fs name keep with
  | .error _ => fs
  | .ok targets => removeVersions fs name targets

def removeAll : Except Error Fs := do return removeVersions fs name (← listVersions fs name)
def removeCell : Except Error Fs := do return remove fs (← cellPath name)

end

section
variable {ε : Type} (x : Host) (r : Resolver ε)
def envelopeBytes (a : NamedArtifact) : Except Error Bytes :=
  if a.externalRef ≠ "" then x.marshalEnvelope ⟨x.storeID,[],a.externalRef⟩
  else do x.marshalEnvelope ⟨x.storeID,← a.payload,""⟩

def prepare (a : NamedArtifact) : Except Halt Bytes := do
  (validateName a.name).mapError .failed
  let env ← (envelopeBytes x a).mapError .failed
  buildInlineManifest {x.codec with encode := a.encode} (some x.hashes) a.name env x.contentHasher a.now

def put (σ : State ε) (a : NamedArtifact) : State ε × Except Halt Unit :=
  match prepare x a with
  | .error halt => (σ,.error halt)
  | .ok body =>
    if a.keeps = 0 then
      match writeCell σ.fs a.name body a.now with
      | .error halt => (σ,.error halt)
      | .ok fs => ({σ with fs := fs},.ok ())
    else match claimVersion σ.fs a.name body a.now maxClaimAttempts with
      | .error err => (σ,.error (.failed err))
      | .ok fs => ({σ with fs := prune fs a.name a.keeps},.ok ())

def activePath (fs : Fs) (name : String) : Except Error String := do
  match ← resolveActiveSeq fs name with
  | some seq => versionPath name seq
  | none => cellPath name

def loadActive (fs : Fs) (name : String) : Except Halt Manifest := do
  let path ← (activePath fs name).mapError .failed
  StoreDescriptor.load x.codec (some x.hashes) fs path

def openEnvelope (blob : Bytes) : Except Error Envelope :=
  match x.parseEnvelope blob with
  | .error _ => .error (.other "system artifact malformed")
  | .ok env =>
    if env.storeID = "" then .error (.other "system artifact malformed: envelope has no store_id")
    else if x.storeID ≠ "" ∧ env.storeID ≠ x.storeID then .error (.other "system artifact foreign")
    else .ok env

def loadEnvelope (fs : Fs) (name : String) : Except Halt Envelope := do
  let m ← loadActive x fs name
  (openEnvelope x m.inlineBlob).mapError .failed

def resolve (external : ε) (env : Envelope) : Except Halt Bytes :=
  if env.externalPayloadRef ≠ "" then r.openExternal external env.externalPayloadRef else .ok env.inlinePayload

section
variable (σ : State ε) (name : String)
def get : Except Halt Bytes := do resolve r σ.external (← loadEnvelope x σ.fs name)

def cascade : ε × Except Halt Unit :=
  match loadEnvelope x σ.fs name with
  | .error _ => (σ.external,.ok ())
  | .ok env => if env.externalPayloadRef ≠ "" then r.deleteExternal σ.external env.externalPayloadRef else (σ.external,.ok ())

def delete : State ε × Except Halt Unit :=
  match cascade x r σ name with
  | (external,.error halt) => ({σ with external := external},.error halt)
  | (external,.ok ()) =>
    match (do removeCell (← removeAll σ.fs name) name) with
    | .error err => ({σ with external := external},.error (.failed err))
    | .ok fs => (⟨fs,external⟩,.ok ())

end

def walk (fs : Fs) (pfx : String) : List (String × Manifest) :=
  ((listActive fs pfx ++ listCells fs pfx).insertionSort byName).filterMap fun a =>
    match StoreDescriptor.load x.codec (some x.hashes) fs a.path with
    | .ok m => some (a.name,m)
    | .error _ => none

end

section
variable {fs fs' name path body now}
theorem claimOk {attempts} (ok : claimVersion fs name body now attempts = .ok fs') :
    ∃ next, claimTarget fs name = .ok next ∧ versionFile name next ∉ fs ∧ fs' = LocalFs.put fs (versionFile name next) body now := by
  induction attempts with
  | zero => cases ok
  | succ attempts ih =>
    obtain ⟨next,chosen,rest⟩ := bindOk.mp ok
    unfold putExclusive at rest
    by_cases taken : versionFile name next ∈ fs
    · rw [if_pos taken] at rest
      exact ih rest
    · rw [if_neg taken] at rest
      exact ⟨next,chosen,taken,(Except.ok.inj rest).symm⟩

theorem lookupRemoved (seqs : List Nat) (fs : Fs) :
    (removeVersions fs name seqs).lookup path = if ∃ seq ∈ seqs, path = versionFile name seq then none else fs.lookup path := by
  induction seqs generalizing fs with
  | nil => simp [removeVersions]
  | cons seq rest ih =>
    have tail : removeVersions fs name (seq::rest) = removeVersions (remove fs (versionFile name seq)) name rest := rfl
    rw [tail,ih,remove,lookupErase]
    simp only [List.mem_cons,exists_eq_or_imp]
    by_cases first : path = versionFile name seq
    · simp [first]
    · simp [first]

theorem lookupPruned (keep : Nat) (fs : Fs) (other : ∀ old, path = versionFile name old → ∀ newest ∈ scanSeqs fs name, newest ≤ old) :
    (prune fs name keep).lookup path = fs.lookup path := by
  unfold prune
  split
  · rfl
  next targets found =>
  rw [lookupRemoved,if_neg]
  rintro ⟨old,mem,same⟩
  obtain ⟨newest,there,above⟩ := pruneTargetsOk found old mem
  exact absurd (other old same newest there) (Nat.not_le.mpr above)

theorem memLookupSome {fs : Fs} : path ∈ fs ↔ fs.lookup path ≠ none := by
  rw [← AList.lookup_isSome,Option.isSome_iff_ne_none]

theorem memPruned {keep} (mem : path ∈ prune fs name keep) : path ∈ fs := by
  unfold prune at mem
  split at mem
  · exact mem
  rw [memLookupSome,lookupRemoved] at mem
  split at mem
  · exact absurd rfl mem
  · exact memLookupSome.mpr mem

theorem removedAll (ok : removeAll fs name = .ok fs') :
    validateName name = .ok () ∧ ∀ path, fs'.lookup path =
      if ∃ seq ∈ scanSeqs fs name, path = versionFile name seq then none else fs.lookup path := by
  obtain ⟨seqs,listed,last⟩ := bindOk.mp ok
  obtain ⟨_,valid,sorted⟩ := bindOk.mp listed
  cases sorted
  cases last
  refine ⟨valid,fun path => ?_⟩
  rw [lookupRemoved]
  simp only [List.mem_insertionSort]

end

end Scrinium.SystemStore
