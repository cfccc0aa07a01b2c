import Scrinium.Domain
import Scrinium.Trace

/-! The liveness sentinel and the operator's maintenance mode (liveness.go, admin_state.go). -/
namespace Scrinium.Liveness
open Domain Trace

inductive MaintenanceMode where
  | none
  | readOnly
  | offline
  deriving DecidableEq

def MaintenanceMode.ofCode (code : UInt8) : Option MaintenanceMode :=
  if code = 0 then some .none else if code = 1 then some .readOnly else if code = 2 then some .offline else Option.none

structure Guard where
  maintenance : MaintenanceMode
  offlineBySentinel : Bool
  substituted : Bool
  deriving DecidableEq

def Guard.opened : Guard := ⟨.none,false,false⟩

inductive Notice where
  | degraded (reason : String)
  | recovered (reason : String)
  deriving DecidableEq

inductive Reading where
  | descriptor (storeID : String)
  | timedOut
  | unreadable (detail : String)
  deriving DecidableEq

def operatorOffline (g : Guard) : Bool := g.maintenance = .offline && !g.offlineBySentinel

def sentinelLost (g : Guard) (reason : String) : Guard × List Notice :=
  if operatorOffline g then (g,[])
  else
    let notices := if g.offlineBySentinel then [] else [.degraded reason]
    ({g with maintenance := .offline, offlineBySentinel := true},notices)

def sentinelSubstituted (g : Guard) (foreignID : String) : Guard × List Notice :=
  if operatorOffline g then (g,[])
  else
    let notices := if g.substituted then [] else [.degraded ("store substituted: foreign store_id " ++ foreignID)]
    (⟨.offline,true,true⟩,notices)

def sentinelHealthy (g : Guard) : Guard × List Notice :=
  if !g.offlineBySentinel || g.substituted then (g,[])
  else ({g with maintenance := .none, offlineBySentinel := false},[.recovered "descriptor readable again, same store_id"])

def probeLiveness (storeID : String) (g : Guard) : Reading → Guard × List Notice
  | .timedOut => (g,[])
  | .unreadable detail => sentinelLost g ("descriptor unreadable: " ++ detail)
  | .descriptor found => if found ≠ storeID then sentinelSubstituted g found else sentinelHealthy g

def setMaintenanceMode (g : Guard) (context : Except Error Unit) (code : UInt8) : Guard × Except Error Unit :=
  match context with
  | .error err => (g,.error err)
  | .ok () =>
    match MaintenanceMode.ofCode code with
    | none => (g,.error (.other ("store.SetMaintenanceMode: invalid mode " ++ toString code.toNat)))
    | some mode => ({g with maintenance := mode},.ok ())

inductive Action where
  | probe (reading : Reading)
  | set (context : Except Error Unit) (code : UInt8)

def Action.asks : Action → Option MaintenanceMode
  | .set (.ok ()) code => MaintenanceMode.ofCode code
  | _ => none

inductive Verdict where
  | healthy
  | lost
  | substituted
  deriving DecidableEq

def verdict (storeID : String) : Action → Option Verdict
  | .probe (.descriptor found) => some (if found = storeID then .healthy else .substituted)
  | .probe (.unreadable _) => some .lost
  | _ => none

/-- Whether the last result is a loss, whether a substitution was seen, and the operator's last mode. -/
structure Ledger where
  lost : Bool
  substituted : Bool
  operator : MaintenanceMode
  deriving DecidableEq

def Ledger.opened : Ledger := ⟨false,false,.none⟩
def Ledger.down (l : Ledger) : Bool := l.lost || l.substituted
def Ledger.mode (l : Ledger) : MaintenanceMode := if l.down then .offline else l.operator

def Ledger.record (storeID : String) (l : Ledger) (a : Action) : Ledger :=
  match verdict storeID a with
  | some .healthy => {l with lost := false}
  | some .lost => {l with lost := true}
  | some .substituted => {l with lost := false, substituted := true}
  | none => {l with operator := a.asks.getD l.operator}

def act (storeID : String) (g : Guard) : Action → Guard
  | .probe reading => (probeLiveness storeID g reading).1
  | .set context code => (setMaintenanceMode g context code).1

structure Watched where
  guard : Guard
  ledger : Ledger
  deriving DecidableEq

def Watched.opened : Watched := ⟨.opened,.opened⟩
def watch (storeID : String) (w : Watched) (a : Action) : Watched := ⟨act storeID w.guard a,w.ledger.record storeID a⟩
def Faithful (w : Watched) : Prop := w.guard.maintenance = w.ledger.mode

def NotLifted (storeID : String) (w : Watched) : Action → Prop
  | .probe reading => w.ledger.operator ≠ .none →
      (watch storeID w (.probe reading)).guard.maintenance = w.ledger.operator ∨
      (watch storeID w (.probe reading)).guard.maintenance = .offline
  | .set _ _ => True

/-- While the store is down the operator asks for nothing but Offline; and a healthy probe that finds it offline by the
sentinel finds no substitution and the operator's mode None. -/
def Orderly (storeID : String) (w : Watched) (a : Action) : Prop :=
  (∀ mode, a.asks = some mode → w.ledger.down = true → mode = .offline) ∧
  (verdict storeID a = some .healthy → w.guard.offlineBySentinel = true → w.guard.substituted = false →
    w.ledger.operator = .none)

section
variable {storeID w a}
structure Aligned (w : Watched) : Prop where
  faithful : Faithful w
  flagged : w.guard.substituted = true → w.ledger.substituted = true
  sticky : w.guard.offlineBySentinel = true → w.ledger.substituted = true → w.guard.substituted = true
  operated : w.guard.offlineBySentinel = false → w.ledger.down = true → w.ledger.operator = .offline

theorem alignedOpened : Aligned .opened := ⟨rfl,nofun,nofun,nofun⟩

inductive Effect (storeID : String) (w : Watched) (a : Action) : Prop where
  | lost (reason : String) (seen : verdict storeID a = some .lost) (asks : a.asks = none)
      (done : act storeID w.guard a = (sentinelLost w.guard reason).1)
  | substituted (foreign : String) (seen : verdict storeID a = some .substituted) (asks : a.asks = none)
      (done : act storeID w.guard a = (sentinelSubstituted w.guard foreign).1)
  | healthy (seen : verdict storeID a = some .healthy) (asks : a.asks = none)
      (done : act storeID w.guard a = (sentinelHealthy w.guard).1)
  | set (mode : MaintenanceMode) (seen : verdict storeID a = none) (asks : a.asks = some mode)
      (done : act storeID w.guard a = {w.guard with maintenance := mode})
  | idle (seen : verdict storeID a = none) (asks : a.asks = none) (done : act storeID w.guard a = w.guard)

theorem effect (storeID : String) (w : Watched) (a : Action) : Effect storeID w a := by
  cases a with
  | probe reading =>
    cases reading with
    | timedOut => exact .idle rfl rfl rfl
    | unreadable detail => exact .lost _ rfl rfl rfl
    | descriptor found =>
      by_cases same : found = storeID
      · exact .healthy (by simp [verdict,same]) rfl (by simp [act,probeLiveness,same])
      · exact .substituted found (by simp [verdict,same]) rfl (by simp [act,probeLiveness,same])
  | set context code =>
    cases context with
    | error err => exact .idle rfl rfl rfl
    | ok entered =>
      cases known : MaintenanceMode.ofCode code with
      | none => exact .idle rfl known (by simp [act,setMaintenanceMode,known])
      | some mode => exact .set mode rfl known (by simp [act,setMaintenanceMode,known])

theorem operatorOfflineIff {g} : operatorOffline g = true ↔ g.maintenance = .offline ∧ g.offlineBySentinel = false := by
  simp [operatorOffline]

theorem lostOffline (g : Guard) (reason : String) : (sentinelLost g reason).1.maintenance = .offline := by
  unfold sentinelLost
  split
  · next own => exact (operatorOfflineIff.mp own).1
  · rfl

theorem substitutedOffline (g : Guard) (foreign : String) : (sentinelSubstituted g foreign).1.maintenance = .offline := by
  unfold sentinelSubstituted
  split
  · next own => exact (operatorOfflineIff.mp own).1
  · rfl

section
variable (aligned : Aligned w)
include aligned
theorem offlineAsked (own : operatorOffline w.guard = true) : w.ledger.operator = .offline := by
  obtain ⟨offline,ours⟩ := operatorOfflineIff.mp own
  cases down : w.ledger.down with
  | true => exact aligned.operated ours down
  | false =>
    have same := aligned.faithful
    rw [Faithful,Ledger.mode,down] at same
    exact same.symm.trans offline

theorem entersUnsubstituted (enters : operatorOffline w.guard = false)
    (seen : w.ledger.substituted = true) : w.guard.substituted = true := by
  cases ours : w.guard.offlineBySentinel with
  | true => exact aligned.sticky ours seen
  | false =>
    have down : w.ledger.down = true := by simp [Ledger.down,seen]
    have same := aligned.faithful
    rw [Faithful,Ledger.mode,down] at same
    rw [operatorOfflineIff.mpr ⟨same,ours⟩] at enters
    contradiction

theorem alignedLost (reason : String) : Aligned ⟨(sentinelLost w.guard reason).1,{w.ledger with lost := true}⟩ := by
  have asked := offlineAsked aligned
  have unsubstituted := entersUnsubstituted aligned
  refine ⟨lostOffline w.guard reason,?_,?_,?_⟩ <;> unfold sentinelLost <;> split
  · exact aligned.flagged
  · exact aligned.flagged
  · exact aligned.sticky
  · next enters => exact fun _ seen => unsubstituted (Bool.eq_false_of_not_eq_true enters) seen
  · next own => exact fun _ _ => asked own
  · nofun

theorem alignedSubstituted (foreign : String) :
    Aligned ⟨(sentinelSubstituted w.guard foreign).1,{w.ledger with lost := false, substituted := true}⟩ := by
  have asked := offlineAsked aligned
  refine ⟨substitutedOffline w.guard foreign,fun _ => rfl,?_,?_⟩ <;> unfold sentinelSubstituted <;> split
  · next own =>
    intro ours
    rw [(operatorOfflineIff.mp own).2] at ours
    contradiction
  · exact fun _ _ => rfl
  · next own => exact fun _ _ => asked own
  · nofun

theorem alignedHealthy (rests : (!w.guard.offlineBySentinel || w.guard.substituted) = true) :
    Aligned ⟨w.guard,{w.ledger with lost := false}⟩ := by
  refine ⟨?_,aligned.flagged,aligned.sticky,?_⟩
  · cases seen : w.ledger.substituted with
    | true =>
      have down : w.ledger.down = true := by simp [Ledger.down,seen]
      have same := aligned.faithful
      rw [Faithful,Ledger.mode,down] at same
      simpa [Faithful,Ledger.mode,Ledger.down,seen] using same
    | false =>
      have ours : w.guard.offlineBySentinel = false := by
        rcases Bool.or_eq_true_iff.mp rests with free | flagged
        · simpa using free
        · rw [aligned.flagged flagged] at seen
          contradiction
      have same := aligned.faithful
      cases down : w.ledger.down with
      | true =>
        rw [Faithful,Ledger.mode,down,if_pos rfl] at same
        simp [Faithful,Ledger.mode,Ledger.down,seen,same,aligned.operated ours down]
      | false =>
        rw [Faithful,Ledger.mode,down] at same
        simpa [Faithful,Ledger.mode,Ledger.down,seen] using same
  · intro ours down
    have seen : w.ledger.substituted = true := by simpa [Ledger.down] using down
    exact aligned.operated ours (by simp [Ledger.down,seen])

theorem healedFaithful (ours : w.guard.offlineBySentinel = true) (known : w.guard.substituted = false) :
    Faithful ⟨{w.guard with maintenance := .none, offlineBySentinel := false},{w.ledger with lost := false}⟩ ↔
      w.ledger.operator = .none := by
  have unseen : w.ledger.substituted = false := by
    by_contra seen
    rw [aligned.sticky ours (Bool.eq_true_of_not_eq_false seen)] at known
    contradiction
  simp only [Faithful,Ledger.mode,Ledger.down,unseen,Bool.or_self,Bool.false_eq_true,if_false]
  exact eq_comm

end

theorem alignedHealed (operator : w.ledger.operator = .none) (aligned : Aligned w) (ours : w.guard.offlineBySentinel = true)
    (known : w.guard.substituted = false) :
    Aligned ⟨{w.guard with maintenance := .none, offlineBySentinel := false},{w.ledger with lost := false}⟩ := by
  refine ⟨(healedFaithful aligned ours known).mpr operator,?_,nofun,?_⟩
  · intro flagged
    rw [known] at flagged
    contradiction
  · intro _ down
    have seen : w.ledger.substituted = true := by simpa [Ledger.down] using down
    rw [aligned.sticky ours seen] at known
    contradiction

theorem setFaithful (w : Watched) (mode : MaintenanceMode) :
    Faithful ⟨{w.guard with maintenance := mode},{w.ledger with operator := mode}⟩ ↔ (w.ledger.down = true → mode = .offline) := by
  cases down : w.ledger.down with
  | true =>
    have still : Ledger.down {w.ledger with operator := mode} = true := down
    simp [Faithful,Ledger.mode,still]
  | false =>
    have still : Ledger.down {w.ledger with operator := mode} = false := down
    simp [Faithful,Ledger.mode,still]

theorem alignedSet (aligned : Aligned w) {mode} (orderly : w.ledger.down = true → mode = .offline) :
    Aligned ⟨{w.guard with maintenance := mode},{w.ledger with operator := mode}⟩ :=
  ⟨(setFaithful w mode).mpr orderly,aligned.flagged,aligned.sticky,fun _ down => orderly down⟩

theorem healthyFirst (g : Guard) : (sentinelHealthy g).1 =
    if !g.offlineBySentinel || g.substituted then g else {g with maintenance := .none, offlineBySentinel := false} := by
  unfold sentinelHealthy
  split <;> rfl

theorem alignedWatch (aligned : Aligned w) (orderly : Orderly storeID w a) : Aligned (watch storeID w a) := by
  unfold watch Ledger.record
  cases effect storeID w a with
  | lost reason seen asks done => rw [seen,done]; exact alignedLost aligned reason
  | substituted foreign seen asks done => rw [seen,done]; exact alignedSubstituted aligned foreign
  | healthy seen asks done =>
    rw [seen,done,healthyFirst]
    split
    · next rests => exact alignedHealthy aligned rests
    · next heals =>
      rw [Bool.not_eq_true,Bool.or_eq_false_iff,Bool.not_eq_false_eq_eq_true] at heals
      exact alignedHealed (orderly.2 seen heals.1 heals.2) aligned heals.1 heals.2
  | set mode seen asks done => rw [seen,done,asks]; exact alignedSet aligned (orderly.1 mode asks)
  | idle seen asks done => rw [seen,done,asks]; exact aligned

theorem faithfulWatch (aligned : Aligned w) : Faithful (watch storeID w a) ↔ Orderly storeID w a := by
  refine ⟨fun faithful => ?_,fun orderly => (alignedWatch aligned orderly).faithful⟩
  unfold watch Ledger.record at faithful
  cases effect storeID w a with
  | lost reason seen asks done => exact ⟨by simp [asks],by simp [seen]⟩
  | substituted foreign seen asks done => exact ⟨by simp [asks],by simp [seen]⟩
  | healthy seen asks done =>
    refine ⟨by simp [asks],fun _ ours known => ?_⟩
    rw [seen,done,healthyFirst,if_neg (by simp [ours,known])] at faithful
    exact (healedFaithful aligned ours known).mp faithful
  | set mode seen asks done =>
    rw [seen,done,asks] at faithful
    refine ⟨fun other same => ?_,by simp [seen]⟩
    cases someSame asks same
    exact (setFaithful w mode).mp faithful
  | idle seen asks done => exact ⟨by simp [asks],by simp [seen]⟩

theorem faithfulKeeps (faithful : Faithful (watch storeID w a)) : NotLifted storeID w a := by
  cases a with
  | set context code => exact trivial
  | probe reading =>
    intro _
    have same : ((watch storeID w (.probe reading)).ledger).operator = w.ledger.operator := by
      unfold watch Ledger.record
      cases verdict storeID (.probe reading) with
      | none => rfl
      | some result => cases result <;> rfl
    rw [Faithful,Ledger.mode] at faithful
    rw [faithful,← same]
    split
    · exact .inr rfl
    · exact .inl rfl

end

/-- Under every interleaving the store is Offline while lost or substituted and otherwise in the operator's last mode,
and no probe lifts an operator's mode, exactly when every action of the run is orderly. -/
theorem provenanceKept (storeID : String) (actions : List Action) :
    ((∀ n, Faithful (after (watch storeID) .opened (actions.take n))) ∧
      Along (watch storeID) (NotLifted storeID) .opened actions) ↔
    Along (watch storeID) (Orderly storeID) .opened actions := by
  rw [everywhereIff alignedOpened.faithful,← alongAnd]
  refine alongIff (fun w a => alignedWatch) (fun w a aligned => ?_) alignedOpened
  rw [← faithfulWatch aligned]
  exact and_iff_left_of_imp faithfulKeeps

theorem operatorLifted :
    let down : Action := .probe (.unreadable "no such file")
    let up : Action := .probe (.descriptor "s1")
    (after (watch "s1") .opened [.set (.ok ()) 1,down,up]).guard.maintenance = .none ∧
    (after (watch "s1") .opened [.set (.ok ()) 1,down,up]).ledger.mode = .readOnly ∧
    (after (watch "s1") .opened [down,.set (.ok ()) 1]).guard.maintenance = .readOnly ∧
    (after (watch "s1") .opened [down,.set (.ok ()) 1]).ledger.mode = .offline ∧
    (after (watch "s1") .opened [down,.set (.ok ()) 2,up]).guard.maintenance = .none ∧
    (after (watch "s1") .opened [down,.set (.ok ()) 2,up]).ledger.mode = .offline := by
  decide +kernel

end Scrinium.Liveness
