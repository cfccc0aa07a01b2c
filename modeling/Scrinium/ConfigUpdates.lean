import Scrinium.Config
import Scrinium.Trace

/-! UpdateConfig (admin_config.go) over runs: a request that passes the checks becomes the active config as a whole. -/
namespace Scrinium.Config
open Domain FieldKit Trace

inductive UpdateError where
  | entry (err : Error)
  | config (err : ConfigError)
  | write (err : Error)
  deriving DecidableEq

structure UpdateCall where
  entered : Except Error Unit
  request : StoreConfig
  written : Except Error Unit

def asConfig (x : Except ConfigError Unit) : Except UpdateError Unit := x.mapError .config

def lockGuard (current requested : StoreConfig) : Except ConfigError Unit :=
  if current.deletionPolicyLock ∧ current.deletionPolicy = .named .noDelete ∧
      requested.deletionPolicy ≠ .named .noDelete then
    .error ⟨.configMismatch,"DeletionPolicy locked at NoDelete by InitStore"⟩
  else .ok ()

section
variable (current : StoreConfig) (call : UpdateCall)
def checkUpdate : Except UpdateError StoreConfig := do
  call.entered.mapError .entry
  let requested := applyDefaults call.request
  asConfig (validateImmutable requested)
  asConfig (validateAgainstActive requested current)
  asConfig (lockGuard current requested)
  call.written.mapError .write
  return requested

def updateConfig : StoreConfig × Except UpdateError Unit :=
  match checkUpdate current call with
  | .ok requested => (requested,.ok ())
  | .error err => (current,.error err)

def updated : StoreConfig := (updateConfig current call).1

end

variable {current requested call} {T : Type} {fallback}

theorem updatedRefused {err} (refused : checkUpdate current call = .error err) : updated current call = current := by
  unfold updated updateConfig
  rw [refused]

theorem updatedAdmitted (admitted : checkUpdate current call = .ok requested) : updated current call = requested := by
  unfold updated updateConfig
  rw [admitted]

structure Admitted (current : StoreConfig) (call : UpdateCall) (requested : StoreConfig) : Prop where
  entered : call.entered = .ok ()
  defaulted : requested = applyDefaults call.request
  valid : validateImmutable requested = .ok ()
  compared : validateAgainstActive requested current = .ok ()
  unlocked : lockGuard current requested = .ok ()
  written : call.written = .ok ()

theorem admitOk : checkUpdate current call = .ok requested ↔ Admitted current call requested := by
  simp only [checkUpdate,asConfig,bindOk,mapErrorOk,pure,Except.pure,Except.ok.injEq]
  constructor
  · rintro ⟨_,entered,_,valid,_,compared,_,unlocked,_,written,rfl⟩
    exact ⟨entered,rfl,valid,compared,unlocked,written⟩
  · rintro ⟨entered,rfl,valid,compared,unlocked,written⟩
    exact ⟨(),entered,(),valid,(),compared,(),unlocked,(),written,rfl⟩

/-- The request names every field of class I that the active config has filled and that defaulting would not fill for it.
-/
structure Names (active request : StoreConfig) : Prop where
  encryptedDedup : active.encryptedDedup ≠ .unset → request.encryptedDedup ≠ .unset ∨ isEncryptingConfig request
  segmentSize : active.segmentSize ≠ 0 → request.segmentSize ≠ 0 ∨ isEncryptingConfig request
  identityMode : active.identityMode ≠ .unset → request.identityMode ≠ .unset
  deletionPolicyLock : active.deletionPolicyLock → request.deletionPolicyLock

theorem orElseNe [Inhabited T] [DecidableEq T] (fills : fallback ≠ default) (v : T) : orElse v fallback ≠ default := by
  unfold orElse
  split
  · exact fills
  · assumption

theorem defaultedFills (c : StoreConfig) :
    (applyDefaults c).pathTopology ≠ .unset ∧ (applyDefaults c).manifestEncoding ≠ .unset ∧
    (applyDefaults c).manifestCrypto ≠ .unset ∧ (applyDefaults c).contentHasher ≠ .unset := by
  rw [applyDefaultsEq]
  exact ⟨orElseNe (by decide) c.pathTopology,orElseNe (by decide) c.manifestEncoding,
    orElseNe (by decide) c.manifestCrypto,orElseNe (by decide) c.contentHasher⟩

theorem encryptedNe [Inhabited T] [DecidableEq T] (fills : fallback ≠ default) (v : T) (encrypting : Bool) :
    (if encrypting then orElse v fallback else v) ≠ default ↔ v ≠ default ∨ encrypting := by
  cases encrypting with
  | true => simpa using orElseNe fills v
  | false => simp

section
variable (c : StoreConfig)
theorem defaultedDedup :
    (applyDefaults c).encryptedDedup ≠ .unset ↔ c.encryptedDedup ≠ .unset ∨ isEncryptingConfig c := by
  rw [applyDefaultsEq]
  exact encryptedNe (by decide) c.encryptedDedup (isEncryptingConfig c)

theorem defaultedSegment : (applyDefaults c).segmentSize ≠ 0 ↔ c.segmentSize ≠ 0 ∨ isEncryptingConfig c := by
  rw [applyDefaultsEq]
  exact encryptedNe (by decide) c.segmentSize (isEncryptingConfig c)

theorem defaultedMode : (applyDefaults c).identityMode = c.identityMode := by rw [applyDefaultsEq]

theorem defaultedLock : (applyDefaults c).deletionPolicyLock = c.deletionPolicyLock := by
  rw [applyDefaultsEq]

end

theorem agreesIff {zero requested active : T} (compared : requested = zero ∨ requested = active) :
    requested = active ↔ (active ≠ zero → requested ≠ zero) := by
  constructor
  · rintro rfl filled
    exact filled
  · intro kept
    rcases compared with empty | same
    · by_contra differ
      exact kept (fun h => differ (empty.trans h.symm)) empty
    · exact same

theorem keepsClassI (a : Admitted current call requested) :
    requested.classI = current.classI ↔ Names current call.request := by
  obtain ⟨topology,encoding,crypto,dedup,hasher,segment,mode,lock⟩ := againstActive.mp a.compared
  have filled := defaultedFills call.request
  rw [← a.defaulted] at filled
  -- The always defaulted fields agree, so the equation is about the other four.
  have always : requested.pathTopology = current.pathTopology ∧ requested.manifestEncoding = current.manifestEncoding ∧
      requested.manifestCrypto = current.manifestCrypto ∧ requested.contentHasher = current.contentHasher :=
    ⟨topology.resolve_left filled.1,encoding.resolve_left filled.2.1,crypto.resolve_left filled.2.2.1,
      hasher.resolve_left filled.2.2.2⟩
  have four : requested.classI = current.classI ↔ requested.encryptedDedup = current.encryptedDedup ∧
      requested.segmentSize = current.segmentSize ∧ requested.identityMode = current.identityMode ∧
      requested.deletionPolicyLock = current.deletionPolicyLock := by
    simp only [StoreConfig.classI,ClassI.mk.injEq,always,true_and]
  rw [four,agreesIff dedup,agreesIff segment,agreesIff mode,agreesIff lock,a.defaulted,defaultedDedup,
    defaultedSegment,defaultedMode,defaultedLock]
  simp only [ne_eq,Bool.not_eq_false]
  exact ⟨fun h => ⟨h.1,h.2.1,h.2.2.1,h.2.2.2⟩,fun h => ⟨h.1,h.2,h.3,h.4⟩⟩

def NamesOrRefused (current : StoreConfig) (call : UpdateCall) : Prop :=
  Admitted current call (applyDefaults call.request) → Names current call.request

theorem updatedClassI (current : StoreConfig) (call : UpdateCall) :
    (updated current call).classI = current.classI ↔ NamesOrRefused current call := by
  unfold NamesOrRefused
  cases verdict : checkUpdate current call with
  | error err =>
    rw [updatedRefused verdict]
    refine iff_of_true rfl fun admitted => ?_
    rw [← admitOk,verdict] at admitted
    contradiction
  | ok requested =>
    have admitted := admitOk.mp verdict
    rw [updatedAdmitted verdict,keepsClassI admitted]
    have again := admitted
    rw [admitted.defaulted] at again
    exact ⟨fun names _ => names,fun kept => kept again⟩

/-- At every point of every run of UpdateConfig calls the fields of class I are those of the first config, exactly
when every call that passes the checks names those that defaulting does not fill again. -/
theorem classIKept (active : StoreConfig) (calls : List UpdateCall) :
    (∀ n, (after updated active (calls.take n)).classI = active.classI) ↔
      Along updated NamesOrRefused active calls := by
  rw [constantIff]
  exact forall₂_congr fun visit _ => updatedClassI visit.1 visit.2

def encryptedStore : StoreConfig := {(default : StoreConfig) with
  pipeline := ["aes-gcm"]
  encryptedDedup := .named .convergent
  segmentSize := 8192
  identityMode := .named .coalesced
  deletionPolicyLock := true
  deletionPolicy := .named .noDelete}

def plainCall (request : StoreConfig) : UpdateCall := ⟨.ok (),request,.ok ()⟩

theorem classIEmptied :
    let initial := applyDefaults encryptedStore
    let request := {(default : StoreConfig) with deletionPolicy := .named .noDelete}
    resolveInit encryptedStore .unset = .ok initial ∧
      (updateConfig initial (plainCall request)).2 = .ok () ∧
      initial.encryptedDedup = .named .convergent ∧ (updated initial (plainCall request)).encryptedDedup = .unset ∧
      initial.segmentSize = 8192 ∧ (updated initial (plainCall request)).segmentSize = 0 ∧
      initial.identityMode = .named .coalesced ∧ (updated initial (plainCall request)).identityMode = .unset ∧
      initial.deletionPolicyLock = true ∧ (updated initial (plainCall request)).deletionPolicyLock = false := by
  decide +kernel

end Scrinium.Config
