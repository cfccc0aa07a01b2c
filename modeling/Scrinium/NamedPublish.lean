import Mathlib.Logic.Function.Basic
import Scrinium.Named

/-! Concurrent Puts on one system name, each driver operation one step. No call reads `log` and `removed`. -/
namespace Scrinium.NamedPublish
open Keyed Domain LocalFs Named Function

structure Claim where
  seq : Nat
  body : Bytes
  deriving DecidableEq

inductive Stage where
  | unused
  | scanning (body : Bytes) (keep attempt : Nat)
  | creating (body : Bytes) (keep attempt next : Nat)
  | pruning (keep : Nat)
  | removing (todo : List Nat)
  | writing (body : Bytes)
  | returned
  | failed (err : Error)
  deriving DecidableEq

structure State where
  fs : Fs
  calls : Nat → Stage
  log : List Claim
  removed : List Nat

def State.start (fs : Fs) : State := ⟨fs,fun _ => .unused,[],[]⟩

inductive Action where
  | put (id : Nat) (body : Bytes) (keep : Option Nat)
  | advance (id : Nat) (fault : Option Error) (now : Instant)

def defaultKeepVersions : Nat := 1
def setCall (s : State) (id : Nat) (stage : Stage) : State := {s with calls := update s.calls id stage}

variable {id name s a}

theorem callsUpdated {ok : Stage → Prop} {calls : Nat → Stage} {stage : Stage} (old : ∀ other, ok (calls other))
    (new : ok stage) : ∀ other, ok (update calls id stage other) :=
  (forall_update_iff calls fun _ => ok).mpr ⟨new,fun other _ => old other⟩

def admitted (name : String) (body : Bytes) (keep : Option Nat) : Stage :=
  match validateName name with
  | .error err => .failed err
  | .ok () =>
    if keep.getD defaultKeepVersions = 0 then .writing body
    else .scanning body (keep.getD defaultKeepVersions) 0

def scanned (name : String) (fs : Fs) (body : Bytes) (keep attempt : Nat) : Stage :=
  match claimTarget fs name with
  | .error err => .failed err
  | .ok next => .creating body keep attempt next

def lostRace (body : Bytes) (keep attempt : Nat) : Stage :=
  if attempt + 1 < maxClaimAttempts then .scanning body keep (attempt + 1) else .failed .leaseHeld

section
variable (name : String)
def create (s : State) (id : Nat) (body : Bytes) (keep attempt next : Nat) (now : Instant) : State :=
  match versionPath name next with
  | .error err => setCall s id (.failed err)
  | .ok path =>
    match putExclusive s.fs path body now with
    | .ok fs => {setCall s id (.pruning keep) with fs := fs, log := ⟨next,body⟩::s.log}
    | .error _ => setCall s id (lostRace body keep attempt)

def listed (fs : Fs) (keep : Nat) : Stage :=
  match pruneTargets fs name keep with
  | .error _ => .returned
  | .ok todo => .removing todo

def removeOne (s : State) (id old : Nat) (rest : List Nat) : State :=
  match versionPath name old with
  | .error _ => setCall s id (.removing rest)
  | .ok path => {setCall s id (.removing rest) with fs := remove s.fs path, removed := old::s.removed}

def writeCell (s : State) (id : Nat) (body : Bytes) (now : Instant) : State :=
  match cellPath name with
  | .error err => setCall s id (.failed err)
  | .ok path => {setCall s id .returned with fs := put s.fs path body now}

def advance (s : State) (id : Nat) (now : Instant) : State :=
  match s.calls id with
  | .scanning body keep attempt => setCall s id (scanned name s.fs body keep attempt)
  | .creating body keep attempt next => create name s id body keep attempt next now
  | .pruning keep => setCall s id (listed name s.fs keep)
  | .removing [] => setCall s id .returned
  | .removing (old::rest) => removeOne name s id old rest
  | .writing body => writeCell name s id body now
  | _ => s

end

def fail (s : State) (id : Nat) (err : Error) : State :=
  match s.calls id with
  | .scanning .. | .creating .. | .writing _ => setCall s id (.failed err)
  | .pruning _ => setCall s id .returned
  | .removing (_::rest) => setCall s id (.removing rest)
  | _ => s

def step (name : String) (s : State) : Action → State
  | .put id body keep =>
    match s.calls id with
    | .unused => setCall s id (admitted name body keep)
    | _ => s
  | .advance id none now => advance name s id now
  | .advance id (some err) _ => fail s id err

def target (s : State) : Action → Option Nat
  | .advance id none _ =>
    match s.calls id with
    | .creating _ _ _ next => some next
    | _ => none
  | _ => none

def Bounded (s : State) (a : Action) : Prop := ∀ next ∈ target s a, next < seqLimit
def Unpruned (s : State) (a : Action) : Prop := ∀ next ∈ target s a, next ∉ s.removed
instance (s : State) (a : Action) : Decidable (Bounded s a) :=
  inferInstanceAs (Decidable (∀ next ∈ target s a, next < seqLimit))
instance (s : State) (a : Action) : Decidable (Unpruned s a) :=
  inferInstanceAs (Decidable (∀ next ∈ target s a, next ∉ s.removed))

def Rises (name : String) (s : State) (a : Action) : Prop :=
  ∀ claim, (step name s a).log = claim::s.log → ∀ earlier ∈ s.log, earlier.seq < claim.seq

def Enters (name : String) (s : State) (id : Nat) : Stage → Prop
  | .creating _ _ _ next => claimTarget s.fs name = .ok next
  | .removing todo =>
    (∃ keep, pruneTargets s.fs name keep = .ok todo) ∨ ∃ old, s.calls id = .removing (old::todo)
  | _ => True

inductive Moves (name : String) (s : State) (a : Action) : State → Prop where
  | stays : Moves name s a s
  | enters {id stage} (reads : Enters name s id stage) : Moves name s a (setCall s id stage)
  | claims {id body keep attempt next now} (creating : s.calls id = .creating body keep attempt next)
      (targeted : target s a = some next) (free : versionFile name next ∉ s.fs) :
      Moves name s a {setCall s id (.pruning keep) with
        fs := put s.fs (versionFile name next) body now
        log := ⟨next,body⟩::s.log}
  | prunes {id old rest} (removing : s.calls id = .removing (old::rest)) :
      Moves name s a {setCall s id (.removing rest) with
        fs := remove s.fs (versionFile name old)
        removed := old::s.removed}
  | cells {id body now} : Moves name s a {setCall s id .returned with fs := put s.fs (cellFile name) body now}

theorem admittedMoves (id : Nat) (body : Bytes) (keep : Option Nat) :
    Moves name s a (setCall s id (admitted name body keep)) := by
  unfold admitted
  split
  · exact .enters trivial
  · split <;> exact .enters trivial

theorem scannedMoves (id : Nat) (body : Bytes) (keep attempt : Nat) :
    Moves name s a (setCall s id (scanned name s.fs body keep attempt)) := by
  unfold scanned
  split
  · exact .enters trivial
  · next read => exact .enters read

theorem lostRaceMoves (id : Nat) (body : Bytes) (keep attempt : Nat) :
    Moves name s a (setCall s id (lostRace body keep attempt)) := by
  unfold lostRace
  split <;> exact .enters trivial

theorem createMoves {keep attempt next body} (now : Instant)
    (creating : s.calls id = .creating body keep attempt next) (targeted : target s a = some next) :
    Moves name s a (create name s id body keep attempt next now) := by
  unfold create
  split
  · exact .enters trivial
  next path built =>
  cases (versionPathOk built).2
  unfold putExclusive
  split
  · next fs created =>
    split at created
    · cases created
    · next free =>
      cases created
      exact .claims creating targeted free
  · exact lostRaceMoves id body keep attempt

theorem listedMoves (id keep : Nat) : Moves name s a (setCall s id (listed name s.fs keep)) := by
  unfold listed
  split
  · exact .enters trivial
  · next read => exact .enters (.inl ⟨keep,read⟩)

theorem removeOneMoves {old rest} (removing : s.calls id = .removing (old::rest)) :
    Moves name s a (removeOne name s id old rest) := by
  unfold removeOne
  split
  · exact .enters (.inr ⟨old,removing⟩)
  · next path built =>
    cases (versionPathOk built).2
    exact .prunes removing

theorem writeCellMoves (id : Nat) (body : Bytes) (now : Instant) : Moves name s a (writeCell name s id body now) := by
  unfold writeCell
  split
  · exact .enters trivial
  · next path built =>
    cases (cellPathOk built)
    exact .cells

theorem stepMoves (name : String) (s : State) (a : Action) : Moves name s a (step name s a) := by
  cases a with
  | put id body keep =>
    simp only [step]
    split
    · exact admittedMoves id body keep
    · exact .stays
  | advance id fault now =>
    cases fault with
    | none =>
      simp only [step,advance]
      split
      · next body keep attempt _ => exact scannedMoves id body keep attempt
      · next body keep attempt next creating =>
        exact createMoves now creating (by simp only [target,creating])
      · next keep _ => exact listedMoves id keep
      · exact .enters trivial
      · next removing => exact removeOneMoves removing
      · next body _ => exact writeCellMoves id body now
      · exact .stays
    | some err =>
      simp only [step,fail]
      split
      · exact .enters trivial
      · exact .enters trivial
      · exact .enters trivial
      · exact .enters trivial
      · next removing => exact .enters (.inr ⟨_,removing⟩)
      · exact .stays

end Scrinium.NamedPublish
