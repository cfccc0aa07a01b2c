import Scrinium.Orphanscan
import Scrinium.Named

/-! Opening a store: the index is kept when it holds manifests, recovered when it is empty or damaged and that is expected
or allowed, refused otherwise. -/
namespace Scrinium.StoreOpen
open Keyed Domain LocalFs SqliteIndex Cas Orphanscan

inductive IndexPosture where
  | populated
  | empty
  | damaged
  deriving DecidableEq

structure IndexPlan where
  recover : Bool
  complete : Bool
  err : Option Error
  deriving DecidableEq

/- What an open is given. Restoring leaves the index itself where there is no checkpoint or it fails. -/
structure StoreOptions where
  unlocked : Bool
  ephemeral : Bool
  allowRecovery : Bool
  recoverIndex : Option (State → Except Error Index)
  restoreCheckpoint : State → Index
  iterate : Option Error
  locate : Option Error
  cursor : Except Error Bytes

section
variable (o : StoreOptions)
def probeIndex (tx : Index) : IndexPosture :=
  match o.iterate with
  | some _ => .damaged
  | none => if tx.manifests.entries.any fun entry => entry.2.artifactID.isSome then .populated else .empty

def locationHasManifests (fs : Fs) : Except Error Bool :=
  match o.locate with
  | some err => .error err
  | none => .ok !(listObjects fs "manifests").isEmpty

def planIndexOpen (s : State) : IndexPlan :=
  match probeIndex o s.index with
  | .damaged => if o.allowRecovery then ⟨true,false,none⟩ else ⟨false,false,some .indexDamaged⟩
  | .populated => ⟨false,true,none⟩
  | .empty =>
    if o.ephemeral then ⟨true,false,none⟩
    else match locationHasManifests o s.fs with
      | .error err => ⟨false,false,some err⟩
      | .ok false => ⟨false,true,none⟩
      | .ok true => if o.allowRecovery then ⟨true,false,none⟩ else ⟨false,false,some .indexIncomplete⟩

def settleIndex (plan : IndexPlan) (s : State) : Except Error (State × Bool) :=
  match plan.err with
  | some err => .error err
  | none =>
    if plan.recover then
      match o.recoverIndex with
      | some procedure => do
        let tx ← procedure s
        return ({s with index := tx},true)
      | none => .ok ({s with index := o.restoreCheckpoint s},false)
    else .ok (s,true)

end

inductive StoreState where
  | bootstrapping
  | locked
  | unlocked
  deriving DecidableEq

structure Session where
  state : State
  indexComplete : Bool
  status : StoreState
  errors : List PassError

def orphanScanCursorName : String := "store.agent.orphanscan.last"

def recordCursor (o : StoreOptions) (now : Instant) (s : State) : State :=
  match o.cursor with
  | .error _ => s
  | .ok body => {s with fs := LocalFs.put s.fs (Named.cellFile orphanScanCursorName) body now}

section
variable (e : Engine) (f : Faults) (o : StoreOptions) (now : Instant) (s : State)
def unlockBootstrap (complete : Bool) : Session × Option Error :=
  match reconcile f (some (storeIngester e f now)) s with
  | (p,some err) => (⟨p.state,complete,.bootstrapping,p.report.errors⟩,some err)
  | (p,none) => (⟨recordCursor o now p.state,true,.unlocked,p.report.errors⟩,none)

def bootstrap : Session × Option Error :=
  match settleIndex o (planIndexOpen o s) s with
  | .error err => (⟨s,false,.bootstrapping,[]⟩,some err)
  | .ok (settled,complete) => unlockBootstrap e f o now settled complete

def openStore : Except Error Session :=
  if o.unlocked then
    match bootstrap e f o now s with
    | (_,some err) => .error err
    | (session,none) => .ok session
  else .ok ⟨s,false,.locked,[]⟩

end

def unlock (e : Engine) (f : Faults) (o : StoreOptions) (now : Instant) (c : Session) : Session × Option Error :=
  match c.status with
  | .unlocked => (c,none)
  | .bootstrapping => (c,some (.other "state rejects unlock"))
  | .locked =>
    match bootstrap e f o now c.state with
    | (next,some err) => ({next with status := .locked},some err)
    | (next,none) => (next,none)

end Scrinium.StoreOpen
