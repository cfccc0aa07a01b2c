import Scrinium.ConfigUpdates
import Scrinium.Rollback

/-! The WORM lock over runs of UpdateConfig: a request that leaves the lock out drops it. -/
namespace Scrinium.Config
open Domain FieldKit Trace

def StoreConfig.settings (c : StoreConfig) : Cas.StoreConfig where
  blobStorage := if c.blobStorage = .named .inline then .inline else .target
  inlineBlobLimit := c.inlineBlobLimit.toNat
  pipeline := c.pipeline
  maxArtifactSize := c.maxArtifactSize.toNat
  identityMode := if c.identityMode = .named .coalesced then .coalesced else .unique
  deletionPolicy := if c.deletionPolicy = .named .noDelete then .noDelete else .allow

/- Delete is refused, and RollbackSession deletes nothing and is refused wherever it finds something. -/
structure RefusesRemoval (cfg : Cas.StoreConfig) : Prop where
  delete : ∀ e s id now, ∃ err, Cas.delete e cfg s id now = (s,.error err)
  rollback : ∀ e order clock s sessionID, ∃ outcome, Rollback.rollbackSession e cfg order clock s sessionID = (s,outcome) ∧
    (Rollback.getBySession order s.index sessionID ≠ [] → ∃ err, outcome = .error err)

theorem noDeleteRefuses {cfg} (policy : cfg.deletionPolicy = .noDelete) : RefusesRemoval cfg where
  delete := by
    intro e s id now
    have refused : ∀ m, ∃ err, Cas.deleteChecks cfg m now = .error err := by
      intro m
      unfold Cas.deleteChecks
      rw [if_pos policy]
      split
      · exact ⟨_,rfl⟩
      split <;> exact ⟨_,rfl⟩
    unfold Cas.delete
    cases Cas.load e s id with
    | error err => exact ⟨err,rfl⟩
    | ok m =>
      obtain ⟨err,stopped⟩ := refused m
      refine ⟨err,?_⟩
      simp only [stopped,bind,Except.bind]
  rollback := by
    intro e order clock s sessionID
    unfold Rollback.rollbackSession
    split
    · exact ⟨_,rfl,fun _ => ⟨_,rfl⟩⟩
    split
    · next empty => exact ⟨_,rfl,fun some' => absurd empty some'⟩
    split
    · exact ⟨_,rfl,fun _ => ⟨_,rfl⟩⟩
    · exact ⟨_,rfl,fun _ => ⟨_,rfl⟩⟩

def Worm (c : StoreConfig) : Prop := c.deletionPolicy = .named .noDelete ∧ RefusesRemoval c.settings

theorem wormIff {c} : Worm c ↔ c.deletionPolicy = .named .noDelete := by
  refine ⟨fun worm => worm.1,fun policy => ⟨policy,noDeleteRefuses ?_⟩⟩
  unfold StoreConfig.settings
  rw [if_pos policy]

section

structure Resting (c : StoreConfig) : Prop where
  defaulted : applyDefaults c = c
  valid : validateImmutable c = .ok ()

variable {T : Type} {c}

theorem orElseTwice [Inhabited T] [DecidableEq T] (v fallback : T) :
    orElse (orElse v fallback) fallback = orElse v fallback := by
  unfold orElse
  split
  · split <;> simp_all
  · rfl

theorem encryptedTwice [Inhabited T] [DecidableEq T] (v fallback : T) (encrypting : Bool) :
    (if encrypting then orElse (if encrypting then orElse v fallback else v) fallback
      else if encrypting then orElse v fallback else v) = if encrypting then orElse v fallback else v := by
  cases encrypting with
  | true => exact orElseTwice v fallback
  | false => rfl

theorem defaultedTwice (c : StoreConfig) : applyDefaults (applyDefaults c) = applyDefaults c := by
  have same : isEncryptingConfig (applyDefaults c) = isEncryptingConfig c := by
    rw [applyDefaultsEq]
    exact encryptingDefaulted rfl rfl
  rw [applyDefaultsEq (applyDefaults c),same,applyDefaultsEq c]
  simp only [orElseTwice,encryptedTwice]

theorem restingInit {cfg mode} (init : resolveInit cfg mode = .ok c) : Resting c := by
  obtain ⟨_,valid,same⟩ := bindOk.mp init
  cases same
  refine ⟨?_,valid⟩
  split
  · have moved : ∀ d : StoreConfig, applyDefaults {d with identityMode := mode} = {applyDefaults d with identityMode := mode} := by
      intro d
      rw [applyDefaultsEq,applyDefaultsEq d]
      rfl
    rw [moved,defaultedTwice]
  · exact defaultedTwice cfg

theorem restingUpdated (resting : Resting c) (call : UpdateCall) : Resting (updated c call) := by
  cases verdict : checkUpdate c call with
  | error err => rwa [updatedRefused verdict]
  | ok requested =>
    have admitted := admitOk.mp verdict
    rw [updatedAdmitted verdict]
    refine ⟨?_,admitted.valid⟩
    rw [admitted.defaulted]
    exact defaultedTwice call.request

theorem restingFree (resting : Resting c) : Resting {c with deletionPolicy := .named .free} where
  defaulted := by
    have fixed := resting.defaulted
    rw [applyDefaultsEq] at fixed ⊢
    exact congrArg (fun d : StoreConfig => {d with deletionPolicy := .named .free}) fixed
  valid := by
    have rows := forMOk.mp resting.valid
    refine forMOk.mpr ?_
    simp only [registry,List.forall_mem_cons] at rows ⊢
    obtain ⟨r1,r2,r3,r4,r5,r6,r7,r8,_,r10,r11,r12,r13,r14,r15,r16,r17,r18,r19,r20,_⟩ := rows
    exact ⟨r1,r2,r3,r4,r5,r6,r7,r8,rfl,r10,r11,r12,r13,r14,r15,r16,r17,r18,r19,r20,List.forall_mem_nil _⟩

end

structure Locked (c : StoreConfig) : Prop where
  lock : c.deletionPolicyLock = true
  policy : c.deletionPolicy = .named .noDelete

def NamesLock (current : StoreConfig) (call : UpdateCall) : Prop :=
  Admitted current call (applyDefaults call.request) → call.request.deletionPolicyLock = true

section
variable {c call}
theorem guardKeeps {requested} (locked : Locked c) (admitted : Admitted c call requested) :
    requested.deletionPolicy = .named .noDelete := by
  by_contra other
  have stopped := admitted.unlocked
  unfold lockGuard at stopped
  rw [if_pos ⟨locked.lock,locked.policy,other⟩] at stopped
  cases stopped

theorem lockedPolicy (locked : Locked c) (call : UpdateCall) : (updated c call).deletionPolicy = .named .noDelete := by
  cases verdict : checkUpdate c call with
  | error err => rw [updatedRefused verdict]; exact locked.policy
  | ok requested => rw [updatedAdmitted verdict]; exact guardKeeps locked (admitOk.mp verdict)

theorem lockedUpdated (locked : Locked c) : Locked (updated c call) ↔ NamesLock c call := by
  unfold NamesLock
  cases verdict : checkUpdate c call with
  | error err =>
    rw [updatedRefused verdict]
    refine iff_of_true locked fun admitted => ?_
    rw [← admitOk,verdict] at admitted
    contradiction
  | ok requested =>
    have admitted := admitOk.mp verdict
    have policy := guardKeeps locked admitted
    rw [updatedAdmitted verdict]
    cases admitted.defaulted
    constructor
    · intro kept _
      rw [← defaultedLock]
      exact kept.lock
    · intro names
      exact ⟨(defaultedLock call.request).trans (names admitted),policy⟩

theorem unlockedFrees (resting : Resting c) (open' : c.deletionPolicyLock = false) :
    updated c ⟨.ok (),{c with deletionPolicy := .named .free},.ok ()⟩ = {c with deletionPolicy := .named .free} := by
  have free := restingFree resting
  refine updatedAdmitted (admitOk.mpr ⟨rfl,free.defaulted.symm,free.valid,?_,?_,rfl⟩)
  · exact againstActive.mpr ⟨.inr rfl,.inr rfl,.inr rfl,.inr rfl,.inr rfl,.inr rfl,.inr rfl,.inr rfl⟩
  · unfold lockGuard
    rw [if_neg (by simp [open'])]

theorem wormHeld (resting : Resting c) : (∀ call, Worm (updated c call)) ↔ Locked c := by
  simp only [wormIff]
  constructor
  · intro held
    have policy : c.deletionPolicy = .named .noDelete := held ⟨.error (.other "closed"),c,.ok ()⟩
    refine ⟨?_,policy⟩
    by_contra open'
    have freed := held ⟨.ok (),{c with deletionPolicy := .named .free},.ok ()⟩
    rw [unlockedFrees resting (Bool.eq_false_of_not_eq_true open')] at freed
    cases freed
  · exact fun locked call => lockedPolicy locked call

theorem restingResubmits (resting : Resting c) : updateConfig c (plainCall c) = (c,.ok ()) := by
  have unlocked : lockGuard c c = .ok () := if_neg fun guarded => guarded.2.2 guarded.2.1
  have compared : validateAgainstActive c c = .ok () :=
    againstActive.mpr ⟨.inr rfl,.inr rfl,.inr rfl,.inr rfl,.inr rfl,.inr rfl,.inr rfl,.inr rfl⟩
  have admitted : Admitted c (plainCall c) c := ⟨rfl,resting.defaulted.symm,resting.valid,compared,unlocked,rfl⟩
  unfold updateConfig
  rw [admitOk.mpr admitted]

end

/-- The active config of any run is valid and fully defaulted, and UpdateConfig takes it back as it is. -/
theorem activeResubmits {cfg initial : StoreConfig} {mode : Setting IdentityMode}
    (init : resolveInit cfg mode = .ok initial) (calls : List UpdateCall) :
    let active := after updated initial calls
    validateImmutable active = .ok () ∧ applyDefaults active = active ∧
      updateConfig active (plainCall active) = (active,.ok ()) := by
  have keep : ∀ (c : StoreConfig) (call : UpdateCall), Resting c → Resting (updated c call) :=
    fun _ call resting => restingUpdated resting call
  have resting : Resting (after updated initial calls) := invariantRun keep calls (restingInit init)
  exact ⟨resting.valid,resting.defaulted,restingResubmits resting⟩

/-- With the lock and NoDelete set at the start, at every point of a run of UpdateConfig calls nothing can be removed,
exactly when every call that passes the checks names the lock. -/
theorem wormKept {cfg initial : StoreConfig} {mode : Setting IdentityMode} (init : resolveInit cfg mode = .ok initial)
    (locked : Locked initial) (calls : List UpdateCall) :
    (∀ n call, Worm (updated (after updated initial (calls.take n)) call)) ↔ Along updated NamesLock initial calls := by
  have keep : ∀ (c : StoreConfig) (call : UpdateCall), Resting c → Resting (updated c call) :=
    fun c call resting => restingUpdated resting call
  have resting : ∀ n, Resting (after updated initial (calls.take n)) := fun n =>
    invariantRun keep (calls.take n) (restingInit init)
  rw [forall_congr' fun n => wormHeld (resting n)]
  rw [everywhereIff locked]
  have exact : ∀ (c : StoreConfig) (call : UpdateCall), Locked c → (Locked (updated c call) ↔ NamesLock c call) :=
    fun c call locked => lockedUpdated locked
  exact alongIff (fun c call locked names => (exact c call locked).mpr names) exact locked

def dropLock : List UpdateCall :=
  [plainCall {(default : StoreConfig) with deletionPolicy := .named .noDelete},
    plainCall {(default : StoreConfig) with deletionPolicy := .named .free}]

def lockedStore : StoreConfig := {(default : StoreConfig) with deletionPolicyLock := true, deletionPolicy := .named .noDelete}

theorem freedResubmits :
    let active := after updated (applyDefaults lockedStore) dropLock
    validateImmutable active = .ok () ∧ applyDefaults active = active ∧
      updateConfig active (plainCall active) = (active,.ok ()) :=
  @activeResubmits lockedStore _ .unset (by decide +kernel) dropLock

theorem lockDropped :
    let initial := applyDefaults lockedStore
    resolveInit lockedStore .unset = .ok initial ∧ initial.deletionPolicyLock = true ∧
      initial.deletionPolicy = .named .noDelete ∧
      (after updated initial (dropLock.take 1)).deletionPolicy = .named .noDelete ∧
      (after updated initial (dropLock.take 1)).deletionPolicyLock = false ∧
      (after updated initial dropLock).deletionPolicy = .named .free ∧
      (after updated initial dropLock).settings.deletionPolicy = .allow := by
  decide +kernel

def keepLock : List UpdateCall :=
  [plainCall {lockedStore with maxArtifactSize := 1024},plainCall {lockedStore with deletionPolicy := .named .free}]

theorem lockRetained :
    (after updated (applyDefaults lockedStore) keepLock).maxArtifactSize = 1024 ∧
    ∀ n call, Worm (updated (after updated (applyDefaults lockedStore) (keepLock.take n)) call) := by
  have init : resolveInit lockedStore .unset = .ok (applyDefaults lockedStore) := by decide +kernel
  refine ⟨by decide +kernel,(wormKept init ⟨by decide +kernel,by decide +kernel⟩ keepLock).mpr ?_⟩
  have names : ∀ call ∈ keepLock, call.request.deletionPolicyLock = true := by decide +kernel
  exact fun visit mem _ => alongOfMem names visit mem

end Scrinium.Config
