import Scrinium.StoreRuns

/-! One Put in flight while garbage collection cycles run. The Put goes in its three writes: the blob renamed into place,
the manifest file, the index transaction. -/
namespace Scrinium.MidFlight
open Keyed Domain Layout LocalFs Pipeline SqliteIndex Cas Gc StoreRuns Function List

inductive Cycle where
  | idle
  | marking (refs : List String) (target : Option String)
  | probing (paths unknown : List String)
  | burying (unknown : List String) (target : Option String)
  | sweeping (now : Instant) (refs : List String)
  | done
  deriving DecidableEq

def cycleStep (complete : Bool) (grace : Nat) (now : Instant) (s : State) : Cycle → State × Cycle
  | .idle => (s,.marking (listOrphanBlobs s.index) none)
  | .marking refs (some path) => ({s with fs := markTombstone s.fs path now},.marking refs none)
  | .marking (ref::refs) none =>
    match resolve s.index ref with
    | .error _ => (s,.marking refs none)
    | .ok path => (s,.marking refs (if path = "" then none else some path))
  | .marking [] none =>
    (s,if complete then .probing (listObjects s.fs "blobs") [] else .sweeping now (listOrphanBlobs s.index))
  | .probing (path::paths) unknown =>
    (s,.probing paths (if isUnknown s.index path then unknown ++ [path] else unknown))
  | .probing [] unknown => (s,.burying unknown none)
  | .burying unknown (some path) => ({s with fs := markTombstone s.fs path now},.burying unknown none)
  | .burying (path::unknown) none => (s,.burying unknown (if isTombstone s.fs path then none else some path))
  | .burying [] none => (s,.sweeping now (listOrphanBlobs s.index))
  | .sweeping t (ref::refs) => ((sweepRef grace t ⟨s,[]⟩ ref).state,.sweeping t refs)
  | .sweeping _ [] => (s,.done)
  | .done => (s,.done)

def Leads (complete : Bool) (grace : Nat) (now : Instant) (p q : State × Cycle) : Prop :=
  ∃ n, (fun p : State × Cycle => cycleStep complete grace now p.1 p.2)^[n] p = q

section
variable {complete grace now p q r s}
theorem leadsTrans (first : Leads complete grace now p q) (second : Leads complete grace now q r) :
    Leads complete grace now p r := by
  obtain ⟨n,rfl⟩ := first
  obtain ⟨m,rfl⟩ := second
  exact ⟨m + n,iterate_add_apply _ m n p⟩

theorem leadsStep (rest : Leads complete grace now (cycleStep complete grace now p.1 p.2) q) :
    Leads complete grace now p q := leadsTrans ⟨1,rfl⟩ rest

theorem markingAlone (refs : List String) :
    Leads complete grace now (s,.marking refs none)
      ({s with fs := refs.foldl (markRef s.index now) s.fs},.marking [] none) := by
  induction refs generalizing s with
  | nil => exact ⟨0,rfl⟩
  | cons ref refs ih =>
    apply leadsStep
    rw [foldl_cons,markRef]
    simp only [cycleStep]
    cases resolve s.index ref with
    | error err => exact ih
    | ok path =>
      by_cases packed : path = ""
      · simp only [if_pos packed]
        exact ih
      · simp only [if_neg packed]
        exact leadsStep ih

theorem probingAlone (paths unknown : List String) :
    Leads complete grace now (s,.probing paths unknown)
      (s,.burying (unknown ++ paths.filter (isUnknown s.index)) none) := by
  induction paths generalizing unknown with
  | nil => exact ⟨1,by simp [cycleStep]⟩
  | cons path paths ih =>
    apply leadsStep
    rw [filter_cons]
    simp only [cycleStep]
    by_cases lost : isUnknown s.index path = true
    · simp only [if_pos lost]
      simpa using ih (unknown ++ [path])
    · simp only [if_neg lost]
      exact ih unknown

theorem buryingAlone (unknown : List String) :
    Leads complete grace now (s,.burying unknown none)
      ({s with fs := unknown.foldl (markUnknown now) s.fs},.burying [] none) := by
  induction unknown generalizing s with
  | nil => exact ⟨0,rfl⟩
  | cons path unknown ih =>
    apply leadsStep
    rw [foldl_cons,markUnknown]
    simp only [cycleStep]
    by_cases waiting : isTombstone s.fs path = true
    · simp only [if_pos waiting]
      exact ih
    · simp only [if_neg waiting]
      exact leadsStep ih

theorem sweepRefState (w : Swept) (ref : String) :
    (sweepRef grace now w ref).state = (sweepRef grace now ⟨w.state,[]⟩ ref).state := by
  unfold sweepRef
  cases resolve w.state.index ref with
  | error err => rfl
  | ok path =>
    simp only
    split
    · rfl
    cases tombstoneInfo w.state.fs path with
    | none => rfl
    | some since =>
      simp only
      split
      · rfl
      · split <;> rfl

theorem sweepingAlone (refs : List String) (t : Instant) (w : Swept) :
    Leads complete grace now (w.state,.sweeping t refs) ((refs.foldl (sweepRef grace t) w).state,.done) := by
  induction refs generalizing w with
  | nil => exact ⟨1,rfl⟩
  | cons ref refs ih =>
    apply leadsStep
    rw [foldl_cons]
    simp only [cycleStep]
    rw [← sweepRefState w ref]
    exact ih (sweepRef grace t w ref)

/-- A cycle nothing interferes with does what the collector's whole cycle does. -/
theorem cycleAlone (complete : Bool) (grace : Nat) (tMark tSweep : Instant) (s : State) :
    ∃ mid, Leads complete grace tMark (s,.idle) mid ∧
      Leads complete grace tSweep mid ((runCycle complete grace tMark tSweep s).state,.done) := by
  have marked : Leads complete grace tMark (s,.idle) (mark s tMark,.marking [] none) :=
    leadsStep (markingAlone (listOrphanBlobs s.index))
  cases complete with
  | false => exact ⟨_,marked,leadsStep (sweepingAlone _ tSweep ⟨mark s tMark,[]⟩)⟩
  | true =>
    have hidden : Leads true grace tMark (mark s tMark,.marking [] none)
        (reconcileMedia true (mark s tMark) tMark,.burying [] none) :=
      leadsStep (leadsTrans (probingAlone _ []) (buryingAlone _))
    exact ⟨_,leadsTrans marked hidden,leadsStep (sweepingAlone _ tSweep ⟨reconcileMedia true (mark s tMark) tMark,[]⟩)⟩

end

inductive Stage where
  | ready
  | placed (blob : Result)
  | written (m : Manifest) (addr : String)
  | done (m : Manifest)
  | failed (err : Error)

def Stage.manifest : Stage → Option Manifest
  | .done m => some m
  | _ => none

def putStep (e : Engine) (cfg : StoreConfig) (call : PutCall) (s : State) : Stage → State × Stage
  | .ready =>
    match (do validatePutInputs call; checkPutSupported e cfg) with
    | .error err => (s,.failed err)
    | .ok () =>
      match materialize e cfg s call with
      | (s,.error err) => (s,.failed err)
      | (s,.ok blob) => (s,.placed blob)
  | .placed blob =>
    match assembleManifest e cfg call blob with
    | .error err => (s,.failed err)
    | .ok (m,fileBytes) =>
      match manifestPath m.digest with
      | .error err => (s,.failed err)
      | .ok path => ({s with fs := LocalFs.put s.fs path fileBytes call.now},.written m blob.addr)
  | .written m addr =>
    match indexManifest e.indexes s.index m addr call.now with
    | .error err => (s,.failed err)
    | .ok tx => ({s with index := tx},.done m)
  | .done m => (s,.done m)
  | .failed err => (s,.failed err)

def Stage.outcome : Stage → Option (Except Error Manifest)
  | .done m => some (.ok m)
  | .failed err => some (.error err)
  | _ => none

/-- A Put nothing interferes with is the whole Put. -/
theorem putAlone (e : Engine) (cfg : StoreConfig) (call : PutCall) (s : State) :
    let p := (fun p : State × Stage => putStep e cfg call p.1 p.2)^[3] (s,.ready)
    p.1 = (Cas.put e cfg s call).1 ∧ p.2.outcome = some (Cas.put e cfg s call).2 := by
  simp only [iterate_succ,iterate_zero,comp,id]
  cases checked : (do validatePutInputs call; checkPutSupported e cfg) with
  | error err => simp only [Cas.put,putStep,checked,Stage.outcome,and_self]
  | ok _ =>
    rcases stored : materialize e cfg s call with ⟨s',outcome⟩
    cases outcome with
    | error err => simp only [Cas.put,putStep,checked,stored,Stage.outcome,and_self]
    | ok blob =>
      cases made : assembleManifest e cfg call blob with
      | error err => simp only [Cas.put,putStep,checked,stored,made,Stage.outcome,and_self]
      | ok pair =>
        obtain ⟨m,fileBytes⟩ := pair
        cases laid : manifestPath m.digest with
        | error err =>
          simp only [Cas.put,putStep,checked,stored,made,persistManifest,laid,Stage.outcome,and_self]
        | ok path =>
          cases told : indexManifest e.indexes s'.index m blob.addr call.now with
          | error err =>
            simp only [Cas.put,putStep,checked,stored,made,persistManifest,laid,told,Stage.outcome,and_self]
          | ok tx =>
            simp only [Cas.put,putStep,checked,stored,made,persistManifest,laid,told,Stage.outcome,and_self]

structure Setting where
  engine : Engine
  config : StoreConfig
  call : PutCall
  complete : Bool
  grace : Nat

structure Flight where
  store : State
  cycles : Nat → Cycle
  put : Stage

inductive Turn where
  | put
  | collect (cycle : Nat) (now : Instant)
  deriving DecidableEq

def turn (x : Setting) (f : Flight) : Turn → Flight
  | .put =>
    let next := putStep x.engine x.config x.call f.store f.put
    {f with store := next.1, put := next.2}
  | .collect i now =>
    let next := cycleStep x.complete x.grace now f.store (f.cycles i)
    {f with store := next.1, cycles := update f.cycles i next.2}

def opened (s : State) : Flight := ⟨s,fun _ => .idle,.ready⟩

def renames (x : Setting) (s : State) : Option (Bytes × String) :=
  if x.config.inlineMode && x.call.payload.length ≤ x.config.inlineBlobLimit then none
  else match buildPut x.engine.hasher x.engine.registry x.config.pipeline x.call.payload with
    | .error _ => none
    | .ok (output,stages) =>
      match dedupProbe x.engine s.index (x.engine.hasher.hex x.call.payload) x.call.payload.length
          (x.engine.hasher.hex output) (cryptoIdentityOf stages), blobPath x.engine.topology .regular (x.engine.hasher.hex output) with
      | .ok none, .ok final => some (output,final)
      | _, _ => none

end Scrinium.MidFlight
