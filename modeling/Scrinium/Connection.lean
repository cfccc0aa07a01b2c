import Mathlib.Data.List.DropRight
import Scrinium.ConfigUpdates
import Scrinium.Readback

/-! Connecting with a config of one's own (config/classes.go, OpenStore's loadActiveConfig) and writing under the config
that results. -/
namespace Scrinium.Connection
open Domain FieldKit Config Trace List Option
open Cas (Engine State PutCall Result streamToTarget materializeInline)

def divergentGovernance (req active : StoreConfig) : List String := divergentByClass registry .governance req active
def divergentSession (req active : StoreConfig) : List String := divergentByClass registry .session req active
def cryptoTail (pipeline : List String) : List String := pipeline.rtakeWhile isCryptoAlgorithm

def validateCryptoTail (req active : List String) : Except ConfigError Unit :=
  let tail := cryptoTail active
  let split := req.length - tail.length
  if tail ≠ [] ∧ req.length < tail.length then
    .error ⟨.configMismatch,"client pipeline " ++ listText id req ++ " drops the store crypto tail " ++
      listText id tail ++ " (class I derivative, ADR-110)"⟩
  else if tail ≠ [] ∧ req.drop split ≠ tail then
    .error ⟨.configMismatch,"client pipeline " ++ listText id req ++ " does not end with the store crypto tail " ++
      listText id tail ++ " (class I derivative, ADR-110)"⟩
  else match (req.take split).find? isCryptoAlgorithm with
    | some algo => .error ⟨.configMismatch,"client pipeline " ++ listText id req ++ " adds crypto stage \"" ++ algo ++
        "\" outside the store crypto tail (ADR-110)"⟩
    | none => .ok ()

def sessionOverlay (req : StoreConfig) : StoreConfig :=
  { (default : StoreConfig) with
    blobStorage := req.blobStorage
    verifyOnRead := req.verifyOnRead
    inlineBlobLimit := req.inlineBlobLimit
    packAlignment := req.packAlignment
    eagerFetchLimit := req.eagerFetchLimit
    pipeline := req.pipeline }

def planConnection (req active : StoreConfig) : Except ConfigError StoreConfig := do
  validateAgainstActive req active
  let gov := divergentGovernance req active
  if gov ≠ [] then
    throw ⟨.governanceMismatch,"; ".intercalate gov ++ " — governance defaults (class II) change only by an " ++
      "explicit admin act (UpdateConfig), not by connecting"⟩
  let ses := divergentSession req active
  if ses ≠ [] ∧ active.sessionOverrides = .named .deny then
    throw ⟨.governanceMismatch,"SessionOverrides=Deny — session overrides (class III) are disabled on this store; " ++
      "diverging field(s): " ++ "; ".intercalate ses⟩
  if req.pipeline ≠ [] then validateCryptoTail req.pipeline active.pipeline
  return sessionOverlay req

def mergeSession (active overlay : StoreConfig) : StoreConfig :=
  let eff := active
  let eff := if overlay.blobStorage ≠ .unset then {eff with blobStorage := overlay.blobStorage} else eff
  let eff := if overlay.verifyOnRead ≠ .unset then {eff with verifyOnRead := overlay.verifyOnRead} else eff
  let eff := if overlay.inlineBlobLimit ≠ 0 then {eff with inlineBlobLimit := overlay.inlineBlobLimit} else eff
  let eff := if overlay.packAlignment ≠ 0 then {eff with packAlignment := overlay.packAlignment} else eff
  let eff := if overlay.eagerFetchLimit ≠ 0 then {eff with eagerFetchLimit := overlay.eagerFetchLimit} else eff
  if overlay.pipeline ≠ [] then {eff with pipeline := overlay.pipeline} else eff

/- What OpenStore makes of the stored config and of the caller's, if one was given. -/
def loadActiveConfig (stored : StoreConfig) (requested : Option StoreConfig) :
    Except ConfigError (StoreConfig × StoreConfig) :=
  let active := applyDefaults stored
  match validateImmutable active with
  | .error err => .error ⟨.storeCorrupted,"system.config produced invalid config: " ++ err.detail⟩
  | .ok () =>
    match requested with
    | none => .ok (active,default)
    | some req => do return (active,← planConnection req active)

def int64 (n : Int) : Int := n.bmod (2 ^ 64)

/- io.ReadAll over an io.LimitReader; a limit that is not positive reads nothing. -/
def readLimited (payload : Bytes) (limit : Int) : Bytes := if limit ≤ 0 then [] else payload.take limit.toNat

def writeConfig (cfg : StoreConfig) : Cas.StoreConfig :=
  { blobStorage := if cfg.blobStorage = .named .inline then .inline else .target
    inlineBlobLimit := cfg.inlineBlobLimit.toNat
    pipeline := cfg.pipeline
    maxArtifactSize := 0
    identityMode := if cfg.identityMode = .named .coalesced then .coalesced else .unique
    deletionPolicy := if cfg.deletionPolicy = .named .noDelete then .noDelete else .allow }

/- Materialize with the arithmetic of its own types. The bytes of the head are taken from the payload,
so what is streamed is the head and the rest. -/
def materialize (e : Engine) (cfg : StoreConfig) (s : State) (call : PutCall) : State × Except Error Result :=
  if cfg.blobStorage = .named .inline ∧ 0 < cfg.inlineBlobLimit then
    let head := readLimited call.payload (int64 (cfg.inlineBlobLimit + 1))
    if (head.length : Int) ≤ cfg.inlineBlobLimit then (s,.ok (materializeInline e head))
    else streamToTarget e (writeConfig cfg) s {call with payload := head ++ call.payload.drop head.length}
  else streamToTarget e (writeConfig cfg) s call

structure ClassII where
  deletionPolicy : Setting DeletionPolicy
  retentionPeriod : Int
  tombstoneGracePeriod : Int
  gcLeasePolicy : Setting GCLeasePolicy
  sessionOverrides : Setting SessionOverridesPolicy
  maxArtifactSize : Int
  deriving DecidableEq

def classII (c : StoreConfig) : ClassII :=
  ⟨c.deletionPolicy,c.retentionPeriod,c.tombstoneGracePeriod,c.gcLeasePolicy,c.sessionOverrides,c.maxArtifactSize⟩

def cryptoStages (c : StoreConfig) : List String := c.pipeline.filter isCryptoAlgorithm

def RecordsPayload (e : Engine) (payload : Bytes) (r : Result) : Prop :=
  r.contentHash = e.hasher.hex payload ∧ r.originalSize = payload.length ∧ ∀ body, r.inlineBytes = some body → body = payload

section
variable {active overlay req}
theorem mergeSessionEq (active overlay : StoreConfig) : mergeSession active overlay = {active with
    blobStorage := orElse overlay.blobStorage active.blobStorage
    verifyOnRead := orElse overlay.verifyOnRead active.verifyOnRead
    inlineBlobLimit := orElse overlay.inlineBlobLimit active.inlineBlobLimit
    packAlignment := orElse overlay.packAlignment active.packAlignment
    eagerFetchLimit := orElse overlay.eagerFetchLimit active.eagerFetchLimit
    pipeline := orElse overlay.pipeline active.pipeline} := by
  unfold mergeSession
  extract_lets start stored verified inlined packed fetched
  have h1 : stored = _ := blobStorage.overlaid overlay.blobStorage active
  have h2 : verified = _ := verifyOnRead.overlaid overlay.verifyOnRead stored
  have h3 : inlined = _ := inlineBlobLimit.overlaid overlay.inlineBlobLimit verified
  have h4 : packed = _ := packAlignment.overlaid overlay.packAlignment inlined
  have h5 : fetched = _ := eagerFetchLimit.overlaid overlay.eagerFetchLimit packed
  rw [h1] at h2
  rw [h2] at h3
  rw [h3] at h4
  rw [h4] at h5
  by_cases empty : overlay.pipeline = []
  · have old : orElse overlay.pipeline active.pipeline = active.pipeline := if_pos empty
    rw [if_neg (not_not.mpr empty),h5,old]
    rfl
  · have new : orElse overlay.pipeline active.pipeline = overlay.pipeline := if_neg empty
    rw [if_pos empty,h5,new]
    rfl

def coreRows : List (Desc StoreConfig FieldClass ConfigError) :=
  [pathTopology.desc,manifestEncoding.desc,manifestCrypto.desc,encryptedDedup.desc,contentHasher.desc,
    segmentSize.desc,identityMode.desc,deletionPolicyLock.desc,
    deletionPolicy.desc,retentionPeriod.desc,tombstoneGracePeriod.desc,gcLeasePolicy.desc,
    sessionOverrides.desc,maxArtifactSize.desc]

variable {c}

theorem validatedIff : validateImmutable c = .ok () ↔
    (∀ row ∈ coreRows, row.validate c = .ok ()) ∧ c.blobStorage ∈ [.unset,.named .target,.named .inline] ∧
      c.verifyOnRead ∈ [.unset,.named .auto,.named .forceEnabled,.named .disabled] ∧
      c.inlineBlobLimit ≤ maxInlineBlobLimit ∧
      c.packAlignment ∈ [packAlignmentAuto,packAlignmentNone,packAlignment512,packAlignment4096] := by
  have split : registry = coreRows ++ [blobStorage.desc,verifyOnRead.desc,inlineBlobLimit.desc,packAlignment.desc,
    eagerFetchLimit.desc,pipelineDesc] := rfl
  have free : eagerFetchLimit.desc.validate c = .ok () ∧ pipelineDesc.validate c = .ok () := ⟨rfl,rfl⟩
  have blob : blobStorage.desc.validate c = .ok () ↔ c.blobStorage ∈ [.unset,.named .target,.named .inline] := enumOk
  have verify : verifyOnRead.desc.validate c = .ok () ↔
      c.verifyOnRead ∈ [.unset,.named .auto,.named .forceEnabled,.named .disabled] := enumOk
  have inline : inlineBlobLimit.desc.validate c = .ok () ↔ c.inlineBlobLimit ≤ maxInlineBlobLimit := by
    refine maxValOk.trans ⟨?_,fun bound => .inr (not_lt.mpr bound)⟩
    rintro (zero | bound)
    · have none : c.inlineBlobLimit = 0 := zero
      rw [none]
      decide
    · exact not_lt.mp bound
  have pack : packAlignment.desc.validate c = .ok () ↔
      c.packAlignment ∈ [packAlignmentAuto,packAlignmentNone,packAlignment512,packAlignment4096] := by
    refine enumOk.trans (mem_cons.trans ⟨?_,.inr⟩)
    rintro (zero | known)
    · have none : c.packAlignment = 0 := zero
      rw [none]
      decide
    · exact known
  rw [validateImmutable,validateAll,forMOk,split]
  simp only [forall_mem_append,forall_mem_cons,not_mem_nil,false_imp_iff,implies_true,and_true,
    blob,verify,inline,pack,free]

structure InBounds (req : StoreConfig) : Prop where
  blobStorage : req.blobStorage ∈ [.unset,.named .target,.named .inline]
  verifyOnRead : req.verifyOnRead ∈ [.unset,.named .auto,.named .forceEnabled,.named .disabled]
  inlineBlobLimit : req.inlineBlobLimit ≤ maxInlineBlobLimit
  packAlignment : req.packAlignment ∈ [packAlignmentAuto,packAlignmentNone,packAlignment512,packAlignment4096]
instance (req : StoreConfig) : Decidable (InBounds req) :=
  decidable_of_iff (_ ∧ _ ∧ _ ∧ _) ⟨fun h => ⟨h.1,h.2.1,h.2.2.1,h.2.2.2⟩,
    fun h => ⟨h.blobStorage,h.verifyOnRead,h.inlineBlobLimit,h.packAlignment⟩⟩

theorem coreSame {d} (one : c.classI = d.classI) (two : classII c = classII d) :
    ∀ row ∈ coreRows, row.validate c = row.validate d := by
  cases c
  cases d
  simp only [StoreConfig.classI,ClassI.mk.injEq] at one
  simp only [classII,ClassII.mk.injEq] at two
  obtain ⟨rfl,rfl,rfl,rfl,rfl,rfl,rfl,rfl⟩ := one
  obtain ⟨rfl,rfl,rfl,rfl,rfl,rfl⟩ := two
  simp only [coreRows,forall_mem_cons,not_mem_nil,false_imp_iff,implies_true,and_true]
  exact ⟨rfl,rfl,rfl,rfl,rfl,rfl,rfl,rfl,rfl,rfl,rfl,rfl,rfl,rfl⟩

theorem mergedClasses (active overlay : StoreConfig) : (mergeSession active overlay).classI = active.classI ∧
    classII (mergeSession active overlay) = classII active := by
  rw [mergeSessionEq]
  exact ⟨rfl,rfl⟩

theorem mergedCheck {T : Type} [Inhabited T] [DecidableEq T] (good : T → Prop) {v old} (empty : good default)
    (stored : good old) : good (orElse v old) ↔ good v := by
  unfold orElse
  split
  · next none => exact ⟨fun _ => none ▸ empty,fun _ => stored⟩
  · exact Iff.rfl

theorem mergedValid (valid : validateImmutable active = .ok ()) :
    validateImmutable (mergeSession active (sessionOverlay req)) = .ok () ↔ InBounds req := by
  obtain ⟨core,blob,verify,inline,pack⟩ := validatedIff.mp valid
  have blobs := mergedCheck (· ∈ [.unset,.named .target,.named .inline]) (by decide) blob (v := req.blobStorage)
  have verifies := mergedCheck (· ∈ [.unset,.named .auto,.named .forceEnabled,.named .disabled]) (by decide) verify
    (v := req.verifyOnRead)
  have inlines := mergedCheck (· ≤ maxInlineBlobLimit) (by decide) inline (v := req.inlineBlobLimit)
  have packs := mergedCheck (· ∈ [packAlignmentAuto,packAlignmentNone,packAlignment512,packAlignment4096]) (by decide)
    pack (v := req.packAlignment)
  obtain ⟨one,two⟩ := mergedClasses active (sessionOverlay req)
  have same := coreSame one two
  rw [validatedIff]
  rw [mergeSessionEq] at same ⊢
  constructor
  · rintro ⟨_,blob',verify',inline',pack'⟩
    exact ⟨blobs.mp blob',verifies.mp verify',inlines.mp inline',packs.mp pack'⟩
  · intro bounds
    exact ⟨fun row mem => (same row mem).trans (core row mem),blobs.mpr bounds.blobStorage,
      verifies.mpr bounds.verifyOnRead,inlines.mpr bounds.inlineBlobLimit,packs.mpr bounds.packAlignment⟩

end

section
variable {req active}
theorem tailCrypto (pipeline : List String) : ∀ algo ∈ cryptoTail pipeline, isCryptoAlgorithm algo = true := by
  intro algo mem
  exact mem_rtakeWhile_imp mem

theorem cryptoTailOk (ok : validateCryptoTail req active = .ok ()) : req.filter isCryptoAlgorithm = cryptoTail active := by
  unfold validateCryptoTail at ok
  simp only at ok
  split at ok
  · cases ok
  split at ok
  · cases ok
  next ends =>
  split at ok
  · cases ok
  next plain =>
  have rest : req.drop (req.length - (cryptoTail active).length) = cryptoTail active := by
    by_cases none : cryptoTail active = []
    · rw [none,length_nil,Nat.sub_zero,drop_length]
    · exact not_not.mp fun differ => ends ⟨none,differ⟩
  have front : (req.take (req.length - (cryptoTail active).length)).filter isCryptoAlgorithm = [] := by
    rw [filter_eq_nil_iff]
    exact List.find?_eq_none.mp plain
  rw [← take_append_drop (req.length - (cryptoTail active).length) req,filter_append,front,rest,
    nil_append,filter_eq_self]
  exact tailCrypto active

def CryptoLast (pipeline : List String) : Prop :=
  pipeline.Pairwise fun earlier later => isCryptoAlgorithm earlier = true → isCryptoAlgorithm later = true
instance (pipeline : List String) : Decidable (CryptoLast pipeline) :=
  inferInstanceAs (Decidable (pipeline.Pairwise _))

theorem cryptoLastIff (pipeline : List String) :
    pipeline.filter isCryptoAlgorithm = cryptoTail pipeline ↔ CryptoLast pipeline := by
  induction pipeline using List.reverseRecOn with
  | nil => exact ⟨fun _ => List.Pairwise.nil,fun _ => rfl⟩
  | append_singleton front algo ih =>
    unfold CryptoLast cryptoTail at *
    rw [filter_append,rtakeWhile_concat,pairwise_append]
    cases crypto : isCryptoAlgorithm algo with
    | true => simp [crypto,ih]
    | false =>
      simp only [filter_cons,crypto,filter_nil,append_nil,filter_eq_nil_iff,
        pairwise_singleton,true_and,mem_singleton,forall_eq,Bool.false_eq_true,imp_false,if_false]
      refine ⟨fun none => ⟨?_,none⟩,fun both => both.2⟩
      exact pairwise_of_forall_mem_list fun a inside _ _ crypto => absurd crypto (none a inside)

end

variable {req active overlay}

theorem plannedOk (ok : planConnection req active = .ok overlay) :
    overlay = sessionOverlay req ∧ (req.pipeline ≠ [] → validateCryptoTail req.pipeline active.pipeline = .ok ()) ∧
      validateAgainstActive req active = .ok () ∧ divergentGovernance req active = [] := by
  obtain ⟨_,agrees,rest⟩ := bindOk.mp ok
  simp only at rest
  split at rest
  · cases rest
  next governed =>
  split at rest
  · cases rest
  split at rest
  · obtain ⟨_,tail,last⟩ := bindOk.mp rest
    exact ⟨(Except.ok.inj last).symm,fun _ => tail,agrees,not_not.mp governed⟩
  · next none =>
    exact ⟨(Except.ok.inj rest).symm,fun some' => absurd some' none,agrees,not_not.mp governed⟩

theorem mergedCrypto (ok : planConnection req active = .ok overlay) :
    cryptoStages (mergeSession active overlay) = cryptoStages active ↔ req.pipeline = [] ∨ CryptoLast active.pipeline := by
  obtain ⟨rfl,tail,_⟩ := plannedOk ok
  rw [← cryptoLastIff,cryptoStages,mergeSessionEq,cryptoStages]
  by_cases none : req.pipeline = []
  · have kept : orElse req.pipeline active.pipeline = active.pipeline := if_pos none
    simp only [sessionOverlay,kept]
    exact iff_of_true trivial (.inl none)
  · have own : orElse req.pipeline active.pipeline = req.pipeline := if_neg none
    simp only [sessionOverlay,own,cryptoTailOk (tail none),none,false_or]
    exact eq_comm

section
variable {e cfg s s' call r}
theorem streamedRecords {cfg} (ok : streamToTarget e cfg s call = (s',.ok r)) : RecordsPayload e call.payload r := by
  cases Cas.streamToTargetPlaced ok with
  | inline _ => exact ⟨rfl,rfl,fun _ same => (some.inj same).symm⟩
  | shared _ _ _ _ _ _ _ _ _ _ => exact ⟨rfl,rfl,fun _ none => (some_ne_none _ none.symm).elim⟩
  | fresh _ _ _ _ _ _ _ _ _ _ => exact ⟨rfl,rfl,fun _ none => (some_ne_none _ none.symm).elim⟩

variable {limit}

theorem int64Limit (positive : 0 < limit) (bound : limit < 2 ^ 63 - 1) : int64 (limit + 1) = limit + 1 := by
  unfold int64
  rw [Int.bmod_eq_of_le] <;> omega

theorem headFits (payload : Bytes) (positive : 0 < limit) (bound : limit < 2 ^ 63 - 1) :
    let head := readLimited payload (int64 (limit + 1))
    head ++ payload.drop head.length = payload ∧ ((head.length : Int) ≤ limit → head = payload) := by
  rw [int64Limit positive bound,readLimited,if_neg (by omega)]
  refine ⟨?_,fun short => take_of_length_le ?_⟩
  · rw [length_take]
    rcases Nat.le_total payload.length (limit + 1).toNat with all | part
    · rw [Nat.min_eq_right all,take_of_length_le all,drop_length,append_nil]
    · rw [Nat.min_eq_left part,take_append_drop]
  · rw [length_take] at short
    omega

theorem materializedRecords (bound : cfg.inlineBlobLimit < 2 ^ 63 - 1) (ok : materialize e cfg s call = (s',.ok r)) :
    RecordsPayload e call.payload r := by
  unfold materialize at ok
  split at ok
  · next inline =>
    obtain ⟨whole,exact⟩ := headFits call.payload inline.2 bound
    simp only at ok
    split at ok
    · next short =>
      cases ok
      rw [exact short]
      exact ⟨rfl,rfl,fun _ same => (some.inj same).symm⟩
    · have streamed := streamedRecords ok
      rw [whole] at streamed
      exact streamed
  · exact streamedRecords ok

theorem materializeWithin (bound : cfg.inlineBlobLimit < 2 ^ 63 - 1) (s : State) (call : PutCall) :
    materialize e cfg s call = Cas.materialize e (writeConfig cfg) s call := by
  have uncapped : (writeConfig cfg).limitGuard call.payload = none := rfl
  unfold materialize Cas.materialize
  simp only [uncapped]
  by_cases inline : cfg.blobStorage = .named .inline ∧ 0 < cfg.inlineBlobLimit
  · obtain ⟨whole,exact⟩ := headFits call.payload inline.2 bound
    have mode : (writeConfig cfg).inlineMode = true := by
      simp only [Cas.StoreConfig.inlineMode,writeConfig,if_pos inline.1,decide_true,Bool.true_and,decide_eq_true_eq]
      omega
    have fits : ((readLimited call.payload (int64 (cfg.inlineBlobLimit + 1))).length : Int) ≤ cfg.inlineBlobLimit ↔
        call.payload.length ≤ (writeConfig cfg).inlineBlobLimit := by
      rw [int64Limit inline.2 bound,readLimited,if_neg (by omega),length_take]
      simp only [writeConfig]
      omega
    simp only [if_pos inline,mode,Bool.true_and,decide_eq_true_eq]
    by_cases short : call.payload.length ≤ (writeConfig cfg).inlineBlobLimit
    · rw [if_pos (fits.mpr short),if_pos short,exact (fits.mpr short)]
    · rw [if_neg (mt fits.mp short),if_neg short,whole]
  · have mode : (writeConfig cfg).inlineMode = false := by
      rw [Cas.StoreConfig.inlineMode,writeConfig,Bool.and_eq_false_iff]
      by_cases asked : cfg.blobStorage = .named .inline
      · have none : cfg.inlineBlobLimit ≤ 0 := not_lt.mp fun positive => inline ⟨asked,positive⟩
        exact .inr (decide_eq_false (by simp only; omega))
      · exact .inl (decide_eq_false (by simp [asked]))
    rw [if_neg inline,mode]
    rfl

end

/-- The config a session writes under is valid, agrees with the store where it must and records payloads as they are,
exactly if the requested fields of class III are within bounds and the store's crypto stages come last. -/
theorem effectiveExactly (e : Engine) {stored req active overlay : StoreConfig}
    (loaded : loadActiveConfig stored (some req) = .ok (active,overlay)) :
    (validateImmutable (mergeSession active overlay) = .ok () ∧
      (mergeSession active overlay).classI = active.classI ∧
      classII (mergeSession active overlay) = classII active ∧
      cryptoStages (mergeSession active overlay) = cryptoStages active ∧
      ∀ s call s' r, materialize e (mergeSession active overlay) s call = (s',.ok r) → RecordsPayload e call.payload r) ↔
    InBounds req ∧ (req.pipeline = [] ∨ CryptoLast active.pipeline) := by
  unfold loadActiveConfig at loaded
  simp only at loaded
  split at loaded
  · cases loaded
  next valid =>
  obtain ⟨planned,ok,last⟩ := bindOk.mp loaded
  obtain ⟨rfl,rfl⟩ := Prod.mk.inj (Except.ok.inj last)
  have merged : planned = sessionOverlay req := (plannedOk ok).1
  have classes := mergedClasses (applyDefaults stored) planned
  constructor
  · rintro ⟨checked,_,_,crypto,_⟩
    rw [merged] at checked
    exact ⟨(mergedValid valid).mp checked,(mergedCrypto ok).mp crypto⟩
  · rintro ⟨bounds,tail⟩
    have checked : validateImmutable (mergeSession (applyDefaults stored) planned) = .ok () := by
      rw [merged]
      exact (mergedValid valid).mpr bounds
    have limit := (validatedIff.mp checked).2.2.2.1
    refine ⟨checked,classes.1,classes.2,(mergedCrypto ok).mpr tail,fun s call s' r done => ?_⟩
    exact materializedRecords (lt_of_le_of_lt limit (by decide)) done

def inlineStore : StoreConfig := {(default : StoreConfig) with blobStorage := .named .inline}
def unbounded : StoreConfig := {(default : StoreConfig) with inlineBlobLimit := 2 ^ 63 - 1}
def unboundedSession : StoreConfig := mergeSession (applyDefaults inlineStore) (sessionOverlay unbounded)

theorem largestLimitEmpties :
    loadActiveConfig inlineStore (some unbounded) = .ok (applyDefaults inlineStore,sessionOverlay unbounded) ∧
    validateImmutable unboundedSession ≠ .ok () ∧
    (Readback.sampleCall "u1" 1 10).payload = [1,2] ∧
    (materialize Readback.sampleEngine unboundedSession ⟨∅,SqliteIndex.Index.empty⟩ (Readback.sampleCall "u1" 1 10)).2.map
      (fun r => (r.contentHash,r.originalSize,r.inlineBytes)) =
        .ok (Readback.sampleEngine.hasher.hex [],0,some []) := by
  refine ⟨by decide +kernel,by decide +kernel,rfl,by decide +kernel⟩

theorem boundedSessionRecords :
    let req := {(default : StoreConfig) with inlineBlobLimit := 4096}
    loadActiveConfig inlineStore (some req) = .ok (applyDefaults inlineStore,sessionOverlay req) ∧
    ∀ s call s' r, materialize Readback.sampleEngine (mergeSession (applyDefaults inlineStore) (sessionOverlay req)) s call =
      (s',.ok r) → RecordsPayload Readback.sampleEngine call.payload r := by
  have loaded : loadActiveConfig inlineStore (some {(default : StoreConfig) with inlineBlobLimit := 4096}) =
      .ok (applyDefaults inlineStore,sessionOverlay {(default : StoreConfig) with inlineBlobLimit := 4096}) := by
    decide +kernel
  exact ⟨loaded,((effectiveExactly Readback.sampleEngine loaded).mpr ⟨by decide,.inl rfl⟩).2.2.2.2⟩

section
variable {req active overlay : StoreConfig}

def Met {T : Type} [Inhabited T] (asked got : T) : Prop := asked = default ∨ got = asked

def Applied (req eff : StoreConfig) : Prop :=
  (Met req.pathTopology eff.pathTopology ∧ Met req.manifestEncoding eff.manifestEncoding ∧
    Met req.manifestCrypto eff.manifestCrypto ∧ Met req.encryptedDedup eff.encryptedDedup ∧
    Met req.contentHasher eff.contentHasher ∧ Met req.segmentSize eff.segmentSize ∧
    Met req.identityMode eff.identityMode ∧ Met req.deletionPolicyLock eff.deletionPolicyLock) ∧
  (Met req.deletionPolicy eff.deletionPolicy ∧ Met req.retentionPeriod eff.retentionPeriod ∧
    Met req.tombstoneGracePeriod eff.tombstoneGracePeriod ∧ Met req.gcLeasePolicy eff.gcLeasePolicy ∧
    Met req.sessionOverrides eff.sessionOverrides ∧ Met req.maxArtifactSize eff.maxArtifactSize) ∧
  (Met req.blobStorage eff.blobStorage ∧ Met req.verifyOnRead eff.verifyOnRead ∧
    Met req.inlineBlobLimit eff.inlineBlobLimit ∧ Met req.packAlignment eff.packAlignment ∧
    Met req.eagerFetchLimit eff.eagerFetchLimit ∧ Met req.pipeline eff.pipeline) ∧
  Met req.kdfParams eff.kdfParams

theorem metOrElse {T : Type} [Inhabited T] [DecidableEq T] (asked old : T) : Met asked (orElse asked old) := by
  unfold orElse
  split
  · next unset => exact .inl unset
  · exact .inr rfl

theorem metAgreed {T : Type} [Inhabited T] {asked got : T} : asked = default ∨ asked = got ↔ Met asked got :=
  or_congr_right eq_comm

theorem governed (agrees : divergentGovernance req active = []) :
    Met req.deletionPolicy active.deletionPolicy ∧ Met req.retentionPeriod active.retentionPeriod ∧
      Met req.tombstoneGracePeriod active.tombstoneGracePeriod ∧ Met req.gcLeasePolicy active.gcLeasePolicy ∧
      Met req.sessionOverrides active.sessionOverrides ∧ Met req.maxArtifactSize active.maxArtifactSize := by
  have rows : registry.filter (fun row => row.kind = .governance) = [deletionPolicy.desc,retentionPeriod.desc,
      tombstoneGracePeriod.desc,gcLeasePolicy.desc,sessionOverrides.desc,maxArtifactSize.desc] := rfl
  have ok : mismatchAgainst (fun detail => ⟨.governanceMismatch,detail⟩) registry .governance req active = .ok () := by
    rw [mismatchAgainst,show divergentByClass registry .governance req active = [] from agrees]
  rw [mismatchNone,rows] at ok
  simp only [forall_mem_cons,not_mem_nil,false_imp_iff,implies_true,and_true,Field.desc,Field.divergesNone,metAgreed] at ok
  exact ok

/-- A request that PlanConnection accepts is applied in every field it fills but the KDF parameters, which no class covers:
these are as asked exactly if they are left out or are those of the store. -/
theorem requestAppliedExactly (ok : planConnection req active = .ok overlay) :
    Applied {req with kdfParams := none} (mergeSession active overlay) ∧
      (Applied req (mergeSession active overlay) ↔ req.kdfParams = none ∨ req.kdfParams = active.kdfParams) := by
  obtain ⟨rfl,_,agrees,governs⟩ := plannedOk ok
  obtain ⟨topology,encoding,crypto,dedup,hasher,segment,identity,lock⟩ := againstActive.mp agrees
  have others : Applied {req with kdfParams := none} (mergeSession active (sessionOverlay req)) := by
    rw [mergeSessionEq]
    refine ⟨⟨metAgreed.mp topology,metAgreed.mp encoding,metAgreed.mp crypto,metAgreed.mp dedup,metAgreed.mp hasher,
      metAgreed.mp segment,metAgreed.mp identity,metAgreed.mp lock⟩,governed governs,?_,metAgreed.mp (.inl rfl)⟩
    exact ⟨metOrElse _ _,metOrElse _ _,metOrElse _ _,metOrElse _ _,metOrElse _ _,metOrElse _ _⟩
  refine ⟨others,?_,?_⟩
  · intro applied
    rw [mergeSessionEq] at applied
    exact metAgreed.mpr applied.2.2.2
  · intro kdf
    refine ⟨others.1,others.2.1,others.2.2.1,?_⟩
    rw [mergeSessionEq]
    exact metAgreed.mp kdf

def kdfRequest : StoreConfig := {(default : StoreConfig) with kdfParams := some ⟨3,65536,4⟩}

theorem kdfIgnored :
    planConnection kdfRequest (applyDefaults inlineStore) = .ok (sessionOverlay kdfRequest) ∧
      (mergeSession (applyDefaults inlineStore) (sessionOverlay kdfRequest)).kdfParams = none := by
  decide +kernel

theorem inlineApplied : planConnection inlineStore (applyDefaults default) = .ok (sessionOverlay inlineStore) ∧
    Applied inlineStore (mergeSession (applyDefaults default) (sessionOverlay inlineStore)) := by
  have ok : planConnection inlineStore (applyDefaults default) = .ok (sessionOverlay inlineStore) := by decide +kernel
  exact ⟨ok,(requestAppliedExactly ok).2.mpr (.inl rfl)⟩

end

end Scrinium.Connection
