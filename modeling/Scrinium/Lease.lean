import Mathlib.Logic.Function.Basic
import Scrinium.Domain
import Scrinium.Trace

/-! Leases over one cell. Each driver operation on the cell is one step, and the steps of any number of calls interleave,
with the clock moving between them. -/
namespace Scrinium.Lease
open Domain Function

structure Record where
  hostID : String
  acquiredAt : Nat
  expiresAt : Nat
  agentType : String
  nonce : String
  storeID : String
  deriving DecidableEq

def Record.expired (r : Record) (now : Instant) : Bool := r.expiresAt ≤ now

structure Config where
  hostID : String
  agentType : String
  ttl : Nat
  storeID : String
  force : Bool
  deriving DecidableEq

inductive StoreOwnership where
  | unknown
  | own
  | foreign
  deriving DecidableEq

def classifyStoreOwnership (recorded authoritative : String) : StoreOwnership :=
  if recorded = "" ∨ authoritative = "" then .unknown
  else if recorded = authoritative then .own
  else .foreign

def record (cfg : Config) (nonce : String) (now : Instant) : Record :=
  { hostID := cfg.hostID, acquiredAt := formatTime now * second, expiresAt := formatTime (now + cfg.ttl) * second
    agentType := cfg.agentType, nonce := nonce, storeID := cfg.storeID }

inductive Cell where
  | empty
  | corrupt
  | holds (r : Record)
  deriving DecidableEq

inductive AcquireError where
  | invalid
  | held
  | heldBy (hostID agentType : String) (expiresAt : Nat)
  | unverified
  deriving DecidableEq

inductive Stage where
  | unused
  | reading (cfg : Config)
  | creating (cfg : Config)
  | deciding (cfg : Config) (current : Record) (seen : Nat)
  | overwriting (cfg : Config) (current : Record) (seen : Nat)
  | verifying (cfg : Config) (current : Record) (seen : Nat)
  | granted (cfg : Config) (prev : Option Record)
  | failed (err : AcquireError)

inductive UpkeepKind where
  | renew
  | release
  deriving DecidableEq

structure Upkeep where
  kind : UpkeepKind
  cfg : Config
  nonce : String
  read : Option (Record × Nat)

structure State where
  cell : Cell
  now : Instant
  stage : String → Stage
  upkeep : Nat → Option Upkeep
  held : String → Option Nat
  lastDone : String → Nat
  steps : Nat

def State.start (cell : Cell) (now : Instant) : State :=
  ⟨cell,now,fun _ => .unused,fun _ => none,fun _ => none,fun _ => 0,0⟩

inductive Action where
  | tick (passed : Nat)
  | acquire (nonce : String) (cfg : Config)
  | advance (nonce : String) (stamp : Instant)
  | begin (id : Nat) (kind : UpkeepKind) (nonce : String)
  | finish (id : Nat) (stamp : Instant)

def Believes (s : State) (host : String) : Prop := ∃ expiry, s.held host = some expiry ∧ s.now < expiry
def believes (s : State) (host : String) : Bool := (s.held host).any fun expiry => s.now < expiry

def refuses (cfg : Config) (current : Record) (now : Instant) : Bool :=
  classifyStoreOwnership current.storeID cfg.storeID ≠ .foreign && !current.expired now &&
    current.hostID ≠ cfg.hostID && !cfg.force

variable (s : State)

def setStage (nonce : String) (stage : Stage) : State := {s with stage := update s.stage nonce stage}

def confirm (host : String) (r : Record) : State :=
  {s with
    held := update s.held host (some r.expiresAt)
    lastDone := update s.lastDone host (s.steps + 1)}

def dropHeld (host : String) : State := {s with held := update s.held host none}

def advance (nonce : String) (stamp : Instant) : State :=
  match s.stage nonce with
  | .reading cfg =>
    match s.cell with
    | .holds current => setStage s nonce (.deciding cfg current s.steps)
    | _ => setStage s nonce (.creating cfg)
  | .creating cfg =>
    match s.cell with
    | .empty =>
      let r := record cfg nonce stamp
      setStage (confirm {s with cell := .holds r} cfg.hostID r) nonce (.granted cfg none)
    | _ => setStage s nonce (.failed .held)
  | .deciding cfg current seen =>
    if refuses cfg current s.now then
      setStage s nonce (.failed (.heldBy current.hostID current.agentType current.expiresAt))
    else setStage s nonce (.overwriting cfg current seen)
  | .overwriting cfg current seen =>
    -- a holder that takes its own lease again records a new expiry with this write
    let r := record cfg nonce stamp
    let written := {s with cell := .holds r}
    setStage (if believes s cfg.hostID then confirm written cfg.hostID r else written) nonce (.verifying cfg current seen)
  | .verifying cfg current _ =>
    match s.cell with
    | .holds after =>
      if after.nonce = nonce then
        setStage (confirm s cfg.hostID after) nonce
          (.granted cfg (if current.hostID ≠ cfg.hostID then some current else none))
      else setStage s nonce (.failed .held)
    | _ => setStage s nonce (.failed .unverified)
  | _ => s

def begin (id : Nat) (kind : UpkeepKind) (nonce : String) : State :=
  match s.stage nonce, s.upkeep id with
  | .granted cfg _, none => {s with upkeep := update s.upkeep id (some ⟨kind,cfg,nonce,none⟩)}
  | _, _ => s

/- Renew writes what it read to be its own again, Release removes it; a lease gone or taken over stops either, and an
unreadable cell is an error. -/
def finish (id : Nat) (stamp : Instant) : State :=
  match s.upkeep id with
  | none => s
  | some call =>
    let done := {s with upkeep := update s.upkeep id none}
    match call.read with
    | none =>
      match s.cell with
      | .corrupt => done
      | .empty => dropHeld done call.cfg.hostID
      | .holds current =>
        if current.hostID = call.cfg.hostID ∧ current.nonce = call.nonce then
          {s with upkeep := update s.upkeep id (some {call with read := some (current,s.steps)})}
        else dropHeld done call.cfg.hostID
    | some _ =>
      match call.kind with
      | .renew =>
        let r := record call.cfg call.nonce stamp
        confirm {done with cell := .holds r} call.cfg.hostID r
      | .release => dropHeld {done with cell := .empty} call.cfg.hostID

def apply : Action → State
  | .tick passed => {s with now := s.now + passed}
  | .acquire nonce cfg =>
    match s.stage nonce with
    | .unused => setStage s nonce (if cfg.hostID = "" ∨ cfg.ttl = 0 then .failed .invalid else .reading cfg)
    | _ => s
  | .advance nonce stamp => if stamp ≤ s.now then advance s nonce stamp else s
  | .begin id kind nonce => begin s id kind nonce
  | .finish id stamp => if stamp ≤ s.now then finish s id stamp else s

def step (a : Action) : State := {apply s a with steps := s.steps + 1}

end Scrinium.Lease
