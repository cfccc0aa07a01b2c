import Scrinium.Domain
import Scrinium.FieldKit

/-! The store configuration (package config): the record, the registry with one row per field, and the operations derived
from it. -/
namespace Scrinium.Config
open Domain FieldKit List

inductive Setting (α : Type) where
  | unset
  | named (value : α)
  | other (text : String)
  deriving DecidableEq, Inhabited

def Setting.render {α : Type} (text : α → String) : Setting α → String
  | .unset => ""
  | .named value => text value
  | .other text => text

inductive PathTopology where
  | flat
  | sharded
  deriving DecidableEq

def PathTopology.text : PathTopology → String
  | .flat => "Flat"
  | .sharded => "Sharded"

inductive ManifestEncoding where
  | json
  | binary
  deriving DecidableEq

def ManifestEncoding.text : ManifestEncoding → String
  | .json => "JSON"
  | .binary => "Binary"

inductive ManifestCrypto where
  | plain
  | sealed
  | paranoid
  deriving DecidableEq

def ManifestCrypto.text : ManifestCrypto → String
  | .plain => "Plain"
  | .sealed => "Sealed"
  | .paranoid => "Paranoid"

inductive EncryptedDedup where
  | disabled
  | convergent
  deriving DecidableEq

def EncryptedDedup.text : EncryptedDedup → String
  | .disabled => "Disabled"
  | .convergent => "Convergent"

inductive ContentHashAlgorithm where
  | sha256
  | blake3
  deriving DecidableEq

def ContentHashAlgorithm.text : ContentHashAlgorithm → String
  | .sha256 => "sha256"
  | .blake3 => "blake3"

inductive IdentityMode where
  | unique
  | coalesced
  deriving DecidableEq

def IdentityMode.text : IdentityMode → String
  | .unique => "unique"
  | .coalesced => "coalesced"

inductive DeletionPolicy where
  | noDelete
  | retention
  | free
  deriving DecidableEq

def DeletionPolicy.text : DeletionPolicy → String
  | .noDelete => "NoDelete"
  | .retention => "Retention"
  | .free => "Free"

inductive GCLeasePolicy where
  | auto
  | singleHost
  | leaderElection
  deriving DecidableEq

def GCLeasePolicy.text : GCLeasePolicy → String
  | .auto => "Auto"
  | .singleHost => "SingleHost"
  | .leaderElection => "LeaderElection"

inductive SessionOverridesPolicy where
  | allow
  | deny
  deriving DecidableEq

def SessionOverridesPolicy.text : SessionOverridesPolicy → String
  | .allow => "Allow"
  | .deny => "Deny"

inductive BlobStorage where
  | target
  | inline
  deriving DecidableEq

def BlobStorage.text : BlobStorage → String
  | .target => "Target"
  | .inline => "Inline"

inductive VerifyOnReadPolicy where
  | auto
  | forceEnabled
  | disabled
  deriving DecidableEq

def VerifyOnReadPolicy.text : VerifyOnReadPolicy → String
  | .auto => "Auto"
  | .forceEnabled => "ForceEnabled"
  | .disabled => "Disabled"

/- PackAlignmentPolicy is an integer type; its zero is both PackAlignmentNone and left out. -/
def packAlignmentAuto : Int := -1
def packAlignmentNone : Int := 0
def packAlignment512 : Int := 512
def packAlignment4096 : Int := 4096

structure KDFParams where
  time : UInt32
  memory : UInt32
  threads : UInt8
  deriving DecidableEq

structure StoreConfig where
  pathTopology : Setting PathTopology
  blobStorage : Setting BlobStorage
  manifestEncoding : Setting ManifestEncoding
  manifestCrypto : Setting ManifestCrypto
  encryptedDedup : Setting EncryptedDedup
  packAlignment : Int
  eagerFetchLimit : Int
  pipeline : List String
  contentHasher : Setting ContentHashAlgorithm
  verifyOnRead : Setting VerifyOnReadPolicy
  segmentSize : Int
  identityMode : Setting IdentityMode
  deletionPolicy : Setting DeletionPolicy
  deletionPolicyLock : Bool
  retentionPeriod : Int
  tombstoneGracePeriod : Int
  inlineBlobLimit : Int
  gcLeasePolicy : Setting GCLeasePolicy
  sessionOverrides : Setting SessionOverridesPolicy
  maxArtifactSize : Int
  kdfParams : Option KDFParams
  deriving DecidableEq, Inhabited

/- The limits of limits.go; a duration is a number of nanoseconds. -/
def hour : Int := 3600 * 1000000000
def defaultSegmentSize : Int := 1048576
def minSegmentSize : Int := 4 * 1024
def maxSegmentSize : Int := 1073741824
def minTombstoneGracePeriod : Int := hour
def maxInlineBlobLimit : Int := 64 * 1024
def minRetentionPeriod : Int := hour

inductive Sentinel where
  | invalidConfig
  | invalidTombstoneGracePeriod
  | configMismatch
  | governanceMismatch
  | storeCorrupted
  deriving DecidableEq

structure ConfigError where
  sentinel : Sentinel
  detail : String
  deriving DecidableEq

def invalidConfig (detail : String) : ConfigError := ⟨.invalidConfig,detail⟩

inductive FieldClass where
  | immutable
  | governance
  | session
  deriving DecidableEq

def isEncryptingConfig (cfg : StoreConfig) : Bool :=
  (cfg.manifestCrypto ≠ .unset && cfg.manifestCrypto ≠ .named .plain) || cfg.pipeline.any isCryptoAlgorithm

def fraction (value width : Nat) : String :=
  let digits := (Nat.repr value).toList
  let padded := List.replicate (width - digits.length) '0' ++ digits
  let kept := (padded.reverse.dropWhile (· = '0')).reverse
  if kept = [] then "" else "." ++ String.ofList kept

def unsignedDurationText (u : Nat) : String :=
  if u = 0 then "0s"
  else if u < 1000 then Nat.repr u ++ "ns"
  else if u < 1000000 then Nat.repr (u / 1000) ++ fraction (u % 1000) 3 ++ "µs"
  else if u < 1000000000 then Nat.repr (u / 1000000) ++ fraction (u % 1000000) 6 ++ "ms"
  else
    let seconds := u / 1000000000
    let tail := Nat.repr (seconds % 60) ++ fraction (u % 1000000000) 9 ++ "s"
    let minutes := seconds / 60
    if minutes = 0 then tail
    else
      let tail := Nat.repr (minutes % 60) ++ "m" ++ tail
      if minutes / 60 = 0 then tail else Nat.repr (minutes / 60) ++ "h" ++ tail

def durationText (d : Int) : String :=
  if d < 0 then "-" ++ unsignedDurationText d.natAbs else unsignedDurationText d.natAbs

def boolText (b : Bool) : String := if b then "true" else "false"

def encodingCheck (e : Setting ManifestEncoding) : Except ConfigError Unit :=
  match e with
  | .unset => .ok ()
  | .named .json => .ok ()
  | .named .binary => .error (invalidConfig "ManifestEncoding=Binary deferred")
  | .other _ => .error (invalidConfig "")

def pathTopology : Field StoreConfig (Setting PathTopology) FieldClass ConfigError where
  name := "PathTopology"
  kind := .immutable
  get c := c.pathTopology
  set c v := {c with pathTopology := v}
  render := Setting.render PathTopology.text
  check := some (enum invalidConfig (Setting.render PathTopology.text) [.named .flat,.named .sharded])
  defaultTo := .named .sharded

def manifestEncoding : Field StoreConfig (Setting ManifestEncoding) FieldClass ConfigError where
  name := "ManifestEncoding"
  kind := .immutable
  get c := c.manifestEncoding
  set c v := {c with manifestEncoding := v}
  render := Setting.render ManifestEncoding.text
  check := some encodingCheck
  defaultTo := .named .json

def manifestCrypto : Field StoreConfig (Setting ManifestCrypto) FieldClass ConfigError where
  name := "ManifestCrypto"
  kind := .immutable
  get c := c.manifestCrypto
  set c v := {c with manifestCrypto := v}
  render := Setting.render ManifestCrypto.text
  check := some (enum invalidConfig (Setting.render ManifestCrypto.text)
    [.named .plain,.named .sealed,.named .paranoid])
  defaultTo := .named .plain

def encryptedDedup : Field StoreConfig (Setting EncryptedDedup) FieldClass ConfigError where
  name := "EncryptedDedup"
  kind := .immutable
  get c := c.encryptedDedup
  set c v := {c with encryptedDedup := v}
  render := Setting.render EncryptedDedup.text
  check := some (enum invalidConfig (Setting.render EncryptedDedup.text) [.named .disabled,.named .convergent])
  defaultFn := some fun c =>
    if c.encryptedDedup = .unset ∧ isEncryptingConfig c then some (.named .disabled) else none

def contentHasher : Field StoreConfig (Setting ContentHashAlgorithm) FieldClass ConfigError where
  name := "ContentHasher"
  kind := .immutable
  get c := c.contentHasher
  set c v := {c with contentHasher := v}
  render := Setting.render ContentHashAlgorithm.text
  check := some (enum invalidConfig (Setting.render ContentHashAlgorithm.text) [.named .sha256,.named .blake3])
  defaultTo := .named .sha256

def segmentSize : Field StoreConfig Int FieldClass ConfigError where
  name := "SegmentSize"
  kind := .immutable
  get c := c.segmentSize
  set c v := {c with segmentSize := v}
  render := toString
  check := some (rangeVal invalidConfig toString "SegmentSize" minSegmentSize maxSegmentSize)
  defaultFn := some fun c =>
    if c.segmentSize = 0 ∧ isEncryptingConfig c then some defaultSegmentSize else none

def identityMode : Field StoreConfig (Setting IdentityMode) FieldClass ConfigError where
  name := "IdentityMode"
  kind := .immutable
  get c := c.identityMode
  set c v := {c with identityMode := v}
  render := Setting.render IdentityMode.text
  check := some (enum invalidConfig (Setting.render IdentityMode.text) [.named .unique,.named .coalesced])

def deletionPolicyLock : Field StoreConfig Bool FieldClass ConfigError where
  name := "DeletionPolicyLock"
  kind := .immutable
  get c := c.deletionPolicyLock
  set c v := {c with deletionPolicyLock := v}
  render := boolText

def deletionPolicy : Field StoreConfig (Setting DeletionPolicy) FieldClass ConfigError where
  name := "DeletionPolicy"
  kind := .governance
  get c := c.deletionPolicy
  set c v := {c with deletionPolicy := v}
  render := Setting.render DeletionPolicy.text
  check := some (enum invalidConfig (Setting.render DeletionPolicy.text)
    [.named .free,.named .retention,.named .noDelete])
  defaultTo := .named .free

def retentionPeriod : Field StoreConfig Int FieldClass ConfigError where
  name := "RetentionPeriod"
  kind := .governance
  get c := c.retentionPeriod
  set c v := {c with retentionPeriod := v}
  render := durationText
  check := some (minVal invalidConfig durationText "RetentionPeriod" minRetentionPeriod)

def tombstoneGracePeriod : Field StoreConfig Int FieldClass ConfigError where
  name := "TombstoneGracePeriod"
  kind := .governance
  get c := c.tombstoneGracePeriod
  set c v := {c with tombstoneGracePeriod := v}
  render := durationText
  check := some (withSentinel (minVal invalidConfig durationText "TombstoneGracePeriod" minTombstoneGracePeriod)
    ⟨.invalidTombstoneGracePeriod,""⟩)
  defaultFn := some fun c => if c.tombstoneGracePeriod = 0 then some (24 * hour) else none

def gcLeasePolicy : Field StoreConfig (Setting GCLeasePolicy) FieldClass ConfigError where
  name := "GCLeasePolicy"
  kind := .governance
  get c := c.gcLeasePolicy
  set c v := {c with gcLeasePolicy := v}
  render := Setting.render GCLeasePolicy.text
  check := some (enum invalidConfig (Setting.render GCLeasePolicy.text)
    [.named .auto,.named .singleHost,.named .leaderElection])
  defaultTo := .named .auto

def sessionOverrides : Field StoreConfig (Setting SessionOverridesPolicy) FieldClass ConfigError where
  name := "SessionOverrides"
  kind := .governance
  get c := c.sessionOverrides
  set c v := {c with sessionOverrides := v}
  render := Setting.render SessionOverridesPolicy.text
  check := some (enum invalidConfig (Setting.render SessionOverridesPolicy.text) [.named .allow,.named .deny])
  defaultTo := .named .allow

def maxArtifactSize : Field StoreConfig Int FieldClass ConfigError where
  name := "MaxArtifactSize"
  kind := .governance
  get c := c.maxArtifactSize
  set c v := {c with maxArtifactSize := v}
  render := toString
  check := some (nonNegative invalidConfig toString "MaxArtifactSize")

def blobStorage : Field StoreConfig (Setting BlobStorage) FieldClass ConfigError where
  name := "BlobStorage"
  kind := .session
  get c := c.blobStorage
  set c v := {c with blobStorage := v}
  render := Setting.render BlobStorage.text
  check := some (enum invalidConfig (Setting.render BlobStorage.text) [.named .target,.named .inline])
  defaultTo := .named .target

def verifyOnRead : Field StoreConfig (Setting VerifyOnReadPolicy) FieldClass ConfigError where
  name := "VerifyOnRead"
  kind := .session
  get c := c.verifyOnRead
  set c v := {c with verifyOnRead := v}
  render := Setting.render VerifyOnReadPolicy.text
  check := some (enum invalidConfig (Setting.render VerifyOnReadPolicy.text)
    [.named .auto,.named .forceEnabled,.named .disabled])
  defaultTo := .named .auto

def inlineBlobLimit : Field StoreConfig Int FieldClass ConfigError where
  name := "InlineBlobLimit"
  kind := .session
  get c := c.inlineBlobLimit
  set c v := {c with inlineBlobLimit := v}
  render := toString
  check := some (maxVal invalidConfig toString "InlineBlobLimit" maxInlineBlobLimit)

/- A zero is promoted to Auto, so None cannot be asked for. -/
def packAlignment : Field StoreConfig Int FieldClass ConfigError where
  name := "PackAlignment"
  kind := .session
  get c := c.packAlignment
  set c v := {c with packAlignment := v}
  render := toString
  check := some (enum invalidConfig toString
    [packAlignmentAuto,packAlignmentNone,packAlignment512,packAlignment4096])
  defaultFn := some fun c => if c.packAlignment = 0 then some packAlignmentAuto else none

def eagerFetchLimit : Field StoreConfig Int FieldClass ConfigError where
  name := "EagerFetchLimit"
  kind := .session
  get c := c.eagerFetchLimit
  set c v := {c with eagerFetchLimit := v}
  render := toString

def pipelineDesc : Desc StoreConfig FieldClass ConfigError where
  name := "Pipeline"
  kind := .session
  validate _ := .ok ()
  diverges req active :=
    if req.pipeline = [] ∨ req.pipeline = active.pipeline then none
    else some ("Pipeline: requested " ++ listText id req.pipeline ++ ", active " ++ listText id active.pipeline)
  applyDefault c := c

def registry : List (Desc StoreConfig FieldClass ConfigError) :=
  [pathTopology.desc,manifestEncoding.desc,manifestCrypto.desc,encryptedDedup.desc,contentHasher.desc,
    segmentSize.desc,identityMode.desc,deletionPolicyLock.desc,
    deletionPolicy.desc,retentionPeriod.desc,tombstoneGracePeriod.desc,gcLeasePolicy.desc,
    sessionOverrides.desc,maxArtifactSize.desc,
    blobStorage.desc,verifyOnRead.desc,inlineBlobLimit.desc,packAlignment.desc,eagerFetchLimit.desc,
    pipelineDesc]

def applyDefaults (cfg : StoreConfig) : StoreConfig := FieldKit.applyDefaults registry cfg
def validateImmutable (cfg : StoreConfig) : Except ConfigError Unit := validateAll registry cfg

def validateAgainstActive (req active : StoreConfig) : Except ConfigError Unit :=
  mismatchAgainst (fun detail => ⟨.configMismatch,detail⟩) registry .immutable req active

/- InitStore's resolution of the config it makes active; WithIdentityMode overrides the default. -/
def resolveInit (cfg : StoreConfig) (mode : Setting IdentityMode) : Except ConfigError StoreConfig := do
  let cfg := applyDefaults cfg
  let cfg := if mode ≠ .unset then {cfg with identityMode := mode} else cfg
  validateImmutable cfg
  return cfg

structure ClassI where
  pathTopology : Setting PathTopology
  manifestEncoding : Setting ManifestEncoding
  manifestCrypto : Setting ManifestCrypto
  encryptedDedup : Setting EncryptedDedup
  contentHasher : Setting ContentHashAlgorithm
  segmentSize : Int
  identityMode : Setting IdentityMode
  deletionPolicyLock : Bool
  deriving DecidableEq

def StoreConfig.classI (c : StoreConfig) : ClassI :=
  ⟨c.pathTopology,c.manifestEncoding,c.manifestCrypto,c.encryptedDedup,c.contentHasher,c.segmentSize,
    c.identityMode,c.deletionPolicyLock⟩

theorem encryptingDefaulted {c d} (crypto : d.manifestCrypto = orElse c.manifestCrypto (.named .plain))
    (pipeline : d.pipeline = c.pipeline) : isEncryptingConfig d = isEncryptingConfig c := by
  unfold isEncryptingConfig
  rw [crypto,pipeline]
  cases c.manifestCrypto with
  | unset => rfl
  | named value => rfl
  | other text => rfl

theorem encryptedDefault {T : Type} [Inhabited T] [DecidableEq T] (f : Field StoreConfig T FieldClass ConfigError) (v : T)
    (fill : f.defaultFn = some fun c => if f.get c = default ∧ isEncryptingConfig c then some v else none)
    (c : StoreConfig) {d} (crypto : d.manifestCrypto = orElse c.manifestCrypto (.named .plain))
    (pipeline : d.pipeline = c.pipeline) :
    f.applyDefault d = f.set d (if isEncryptingConfig c then orElse (f.get d) v else f.get d) :=
  f.conditionalDefault v fill (encryptingDefaulted crypto pipeline)

/-- What one pass over the registry leaves in each field. The conditional defaults read fields that the pass fills with
values they do not tell from none, so they may be read off the request. -/
theorem applyDefaultsEq (c : StoreConfig) : applyDefaults c = {c with
    pathTopology := orElse c.pathTopology (.named .sharded)
    manifestEncoding := orElse c.manifestEncoding (.named .json)
    manifestCrypto := orElse c.manifestCrypto (.named .plain)
    encryptedDedup := if isEncryptingConfig c then orElse c.encryptedDedup (.named .disabled) else c.encryptedDedup
    contentHasher := orElse c.contentHasher (.named .sha256)
    segmentSize := if isEncryptingConfig c then orElse c.segmentSize defaultSegmentSize else c.segmentSize
    deletionPolicy := orElse c.deletionPolicy (.named .free)
    tombstoneGracePeriod := orElse c.tombstoneGracePeriod (24 * hour)
    gcLeasePolicy := orElse c.gcLeasePolicy (.named .auto)
    sessionOverrides := orElse c.sessionOverrides (.named .allow)
    blobStorage := orElse c.blobStorage (.named .target)
    verifyOnRead := orElse c.verifyOnRead (.named .auto)
    packAlignment := orElse c.packAlignment packAlignmentAuto} := by
  simp only [Config.applyDefaults,FieldKit.applyDefaults,registry,foldl_cons,foldl_nil,Field.desc]
  rw [pathTopology.plainDefault rfl (by decide),manifestEncoding.plainDefault rfl (by decide),
    manifestCrypto.plainDefault rfl (by decide),encryptedDefault encryptedDedup (.named .disabled) rfl c,
    contentHasher.plainDefault rfl (by decide),encryptedDefault segmentSize defaultSegmentSize rfl c,
    identityMode.noDefault rfl rfl,deletionPolicyLock.noDefault rfl rfl]
  rw [deletionPolicy.plainDefault rfl (by decide),retentionPeriod.noDefault rfl rfl,
    tombstoneGracePeriod.promotedDefault (24 * hour) rfl,gcLeasePolicy.plainDefault rfl (by decide),
    sessionOverrides.plainDefault rfl (by decide),maxArtifactSize.noDefault rfl rfl]
  rw [blobStorage.plainDefault rfl (by decide),verifyOnRead.plainDefault rfl (by decide),
    inlineBlobLimit.noDefault rfl rfl,packAlignment.promotedDefault packAlignmentAuto rfl,
    eagerFetchLimit.noDefault rfl rfl]
  all_goals rfl

theorem againstActive {req active} : validateAgainstActive req active = .ok () ↔
    (req.pathTopology = .unset ∨ req.pathTopology = active.pathTopology) ∧
    (req.manifestEncoding = .unset ∨ req.manifestEncoding = active.manifestEncoding) ∧
    (req.manifestCrypto = .unset ∨ req.manifestCrypto = active.manifestCrypto) ∧
    (req.encryptedDedup = .unset ∨ req.encryptedDedup = active.encryptedDedup) ∧
    (req.contentHasher = .unset ∨ req.contentHasher = active.contentHasher) ∧
    (req.segmentSize = 0 ∨ req.segmentSize = active.segmentSize) ∧
    (req.identityMode = .unset ∨ req.identityMode = active.identityMode) ∧
    (req.deletionPolicyLock = false ∨ req.deletionPolicyLock = active.deletionPolicyLock) := by
  have rows : registry.filter (fun row => row.kind = .immutable) =
      [pathTopology.desc,manifestEncoding.desc,manifestCrypto.desc,encryptedDedup.desc,contentHasher.desc,
        segmentSize.desc,identityMode.desc,deletionPolicyLock.desc] := rfl
  rw [validateAgainstActive,mismatchNone,rows]
  simp only [forall_mem_cons,not_mem_nil,false_imp_iff,implies_true,and_true,Field.desc,
    Field.divergesNone]
  rfl

end Scrinium.Config
