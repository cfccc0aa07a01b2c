import Scrinium.Config
import Scrinium.StoreDescriptor
import Scrinium.StoreOpen

/-! Initialising a store: the checks, the probe and wipe of the primary descriptor cell, and the writes, in the order of
the source. -/
namespace Scrinium.InitStore
open Keyed Domain Layout LocalFs Pipeline SqliteIndex Cas Named
open Config (Setting ManifestCrypto ContentHashAlgorithm ConfigError resolveInit)
open StoreDescriptor (Codec Descriptor HashRegistry Halt KDFParams)
open Orphanscan (Faults stagingPrefix)
open StoreOpen (Session)

inductive AtRest where
  | plaintext
  | encrypted
  | ephemeral
  deriving DecidableEq

structure IndexKind where
  resetter : Bool
  atRest : Option AtRest
  deriving DecidableEq

structure InitOptions where
  cfg : Option Config.StoreConfig
  identityMode : Setting Config.IdentityMode
  storeIndex : Option IndexKind
  forceReinit : Bool
  purgeOnReinit : Bool
  hashRegistry : Option HashRegistry
  readRegistry : Option TransformerRegistry
  passphrase : Bool

structure Draw where
  now : Instant
  storeID : String
  dek : Except Error Bytes
  wrapped : Bytes → Except Error (Bytes × KDFParams)

structure Host where
  codec : Codec
  marshalConfig : Config.StoreConfig → Except Error Bytes
  engine : Engine
  opening : StoreOpen.StoreOptions

inductive Refusal where
  | invalidConfig (err : ConfigError)
  | indexRequired
  | purgeWithoutForce
  | storeAlreadyExists (storeID : String)
  | storeCorrupted
  | notImplemented
  | passphraseRequired
  | unsupportedCombination
  | key (err : Error)
  | writeDescriptor (halt : Halt)
  | writeConfig (halt : Halt)
  | invalidPipeline
  | bootstrap (err : Error)
  deriving DecidableEq

inductive Outcome where
  | refused (r : Refusal)
  | panicked
  | initialised (session : Session) (desc : Descriptor)

def Outcome.created : Outcome → Bool
  | .initialised _ _ => true
  | _ => false

def Outcome.refusal : Outcome → Option Refusal
  | .refused r => some r
  | _ => none

def Halt.outcome (refusal : Halt → Refusal) : Halt → Outcome
  | .panicked => .panicked
  | halt => .refused (refusal halt)

def checkArguments (o : InitOptions) : Except Refusal (Config.StoreConfig × IndexKind) := do
  let cfg ← (resolveInit (o.cfg.getD default) o.identityMode).mapError .invalidConfig
  let some kind := o.storeIndex | throw .indexRequired
  if o.purgeOnReinit && !o.forceReinit then throw .purgeWithoutForce
  return (cfg,kind)

def blobRoots : List String := [rootFor .regular,rootFor .chunk,rootFor .pack]
def sweepPrefix (fs : Fs) (dir : String) : Fs := (listObjects fs dir).foldl remove fs

def sweepTombstone (tx : Index) (fs : Fs) (ref : String) : Fs :=
  match resolve tx ref with
  | .error _ => fs
  | .ok path =>
    match tombstoneInfo fs path with
    | none => fs
    | some _ => removeTombstone fs path

def sweepBlobTombstones (tx : Index) (fs : Fs) : Fs := (listOrphanBlobs tx).foldl (sweepTombstone tx) fs

def resetIndex (keepBlobs : Bool) (tx : Index) : Index :=
  { blobs := if keepBlobs then
      tx.blobs.keys.foldl (fun blobs key => update key (fun row => {row with refCount := 0}) blobs) tx.blobs else ∅
    manifests := ∅, manifestBlobs := ∅, manifestHandles := ∅, projExt := ∅, csn := 0, pruneCsn := 0 }

def sweepTargets (purge : Bool) : List String := ["manifests",root,stagingPrefix] ++ if purge then blobRoots else []

def wipeForReinit (purge : Bool) (s : State) : State :=
  let fs := if purge then sweepBlobTombstones s.index s.fs else s.fs
  ⟨(sweepTargets purge).foldl sweepPrefix fs,resetIndex (!purge) s.index⟩

def wipeOr (refusal : Refusal) (o : InitOptions) (kind : IndexKind) (s : State) : State × Option Outcome :=
  if !o.forceReinit then (s,some (.refused refusal))
  else if !kind.resetter then (s,some (.refused .notImplemented))
  else (wipeForReinit o.purgeOnReinit s,none)

def prepareInitLocation (x : Host) (o : InitOptions) (kind : IndexKind) (s : State) : State × Option Outcome :=
  match StoreDescriptor.read x.codec o.hashRegistry s.fs with
  | .ok existing => wipeOr (.storeAlreadyExists existing.storeID) o kind s
  | .error .artifactNotFound => (s,none)
  | .error .panicked => (s,some .panicked)
  | .error _ => wipeOr .storeCorrupted o kind s

def guardIndexAtRest (crypto : Setting ManifestCrypto) (kind : IndexKind) : Bool :=
  crypto ≠ .named .paranoid || kind.atRest.getD .plaintext ≠ .plaintext

def describe (o : InitOptions) (draw : Draw) (cfg : Config.StoreConfig) (kind : IndexKind) : Except Refusal Descriptor := do
  if cfg.manifestCrypto ≠ .named .plain && !o.passphrase then throw .passphraseRequired
  if !guardIndexAtRest cfg.manifestCrypto kind then throw .unsupportedCombination
  let dek ← draw.dek.mapError .key
  if o.passphrase then
    let (wrapped,params) ← (draw.wrapped dek).mapError .key
    return ⟨draw.storeID,StoreDescriptor.currentSchemaVersion,1,wrapped,true,some params⟩
  else return ⟨draw.storeID,StoreDescriptor.currentSchemaVersion,1,dek,false,none⟩

def configName : String := "store.config"

def claimVersion (fs : Fs) (name : String) (body : Bytes) (now : Instant) : Except Error Fs := do
  let next ← claimTarget fs name
  let path ← versionPath name next
  match putExclusive fs path body now with
  | .error .alreadyExists => throw .leaseHeld
  | done => done

def writeConfig (x : Host) (hashes : Option HashRegistry) (cfg : Config.StoreConfig) (now : Instant) (fs : Fs) :
    Except Halt Fs := do
  let payload ← (x.marshalConfig cfg).mapError .failed
  let body ← StoreDescriptor.buildInlineManifest x.codec hashes configName payload
    (cfg.contentHasher.render ContentHashAlgorithm.text) now
  (claimVersion fs configName body now).mapError .failed

def persistInitState (x : Host) (o : InitOptions) (draw : Draw) (cfg : Config.StoreConfig) (desc : Descriptor)
    (fs : Fs) : Fs × Option Outcome :=
  match StoreDescriptor.writeBoth x.codec o.hashRegistry desc draw.now fs with
  | (fs,some halt) => (fs,some (Halt.outcome .writeDescriptor halt))
  | (fs,none) =>
    match writeConfig x o.hashRegistry cfg draw.now fs with
    | .error halt => (fs,some (Halt.outcome .writeConfig halt))
    | .ok fs => (fs,none)

def validateComposition (registry : TransformerRegistry) : List String → Bool
  | [] => true
  | algo::rest =>
    match registry algo with
    | none => validateComposition registry rest
    | some factory => !(factory.aead && rest ≠ []) && validateComposition registry rest

def buildStore (o : InitOptions) (cfg : Config.StoreConfig) : Bool :=
  match o.readRegistry with
  | none => true
  | some registry => validateComposition registry cfg.pipeline

variable (x : Host) (o : InitOptions) (draw : Draw)

def createStore (cfg : Config.StoreConfig) (kind : IndexKind) (s : State) : State × Outcome :=
  match describe o draw cfg kind with
  | .error r => (s,.refused r)
  | .ok desc =>
    match persistInitState x o draw cfg desc s.fs with
    | (fs,some stop) => ({s with fs := fs},stop)
    | (fs,none) =>
      let s := {s with fs := fs}
      if !buildStore o cfg then (s,.refused .invalidPipeline)
      else match StoreOpen.unlockBootstrap x.engine Faults.none x.opening draw.now s true with
        | (session,some err) => (session.state,.refused (.bootstrap err))
        | (session,none) => (session.state,.initialised session desc)

def initStore (s : State) : State × Outcome :=
  match checkArguments o with
  | .error r => (s,.refused r)
  | .ok (cfg,kind) =>
    match prepareInitLocation x o kind s with
    | (s,some stop) => (s,stop)
    | (s,none) => createStore x o draw cfg kind s

end Scrinium.InitStore
