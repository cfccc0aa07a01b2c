import Scrinium.Connection
import Scrinium.ManifestRemoval
import Scrinium.RollbackFrame
import Scrinium.WormLock

/-! Retention over runs of a store: Puts, Deletes, session rollbacks and reopenings. -/
namespace Scrinium.Retention
open Keyed Domain Layout LocalFs SqliteIndex Cas StoreRuns ManifestFiles Rollback Trace Orphanscan Reconciliation
open Config (applyDefaults)
open ManifestCodec (wholeSeconds)
open Connection (mergeSession loadActiveConfig)

structure Opened where
  stored : Config.StoreConfig
  overlay : Config.StoreConfig
  store : State

def Opened.config (w : Opened) : Cas.StoreConfig := (mergeSession (applyDefaults w.stored) w.overlay).settings

inductive Call where
  | put (call : PutCall)
  | delete (id : String) (now : Instant)
  | rollback (order : RowOrder) (clock : Nat → Instant) (sessionID : String)
  | reopen (client : Option Config.StoreConfig) (now : Instant)

def connect (w : Opened) (client : Option Config.StoreConfig) (store : State) : Opened :=
  match loadActiveConfig w.stored client with
  | .error _ => w
  | .ok (_,overlay) => ⟨w.stored,overlay,store⟩

def perform (e : Engine) (w : Opened) : Call → Opened
  | .put call => {w with store := (Cas.put e w.config w.store call).1}
  | .delete id now => {w with store := (Cas.delete e w.config w.store id now).1}
  | .rollback order clock sessionID => {w with store := (rollbackSession e w.config order clock w.store sessionID).1}
  | .reopen client now => connect w client (reconcile .none (some (storeIngester e .none now)) w.store).1.state

def deletions (e : Engine) (cfg : StoreConfig) : (clock : Nat → Instant) → State → List String → List (Instant × State)
  | _, _, [] => []
  | clock, s, id::rest =>
    (clock 0,(Cas.delete e cfg s id (clock 0)).1)::
      match Cas.delete e cfg s id (clock 0) with
      | (s,.ok ()) => deletions e cfg (fun n => clock (n + 1)) s rest
      | (s,.error .artifactNotFound) => deletions e cfg (fun n => clock (n + 1)) s rest
      | (_,.error _) => []

def sessionSteps (e : Engine) (cfg : StoreConfig) (order : RowOrder) (clock : Nat → Instant) (s : State) (sessionID : String) :
    List (Instant × State) :=
  if sessionID = "" then []
  else match retentionCheck e s (clock 0) (getBySession order s.index sessionID) with
    | .error _ => []
    | .ok () =>
      if cfg.deletionPolicy = .noDelete then []
      else deletions e cfg (fun n => clock (n + 1)) s (getBySession order s.index sessionID)

def steps (e : Engine) (w : Opened) : Call → List (Instant × State)
  | .put call => [(call.now,(perform e w (.put call)).store)]
  | .delete id now => [(now,(perform e w (.delete id now)).store)]
  | .rollback order clock sessionID => sessionSteps e w.config order clock w.store sessionID
  | .reopen client now => [(now,(perform e w (.reopen client now)).store)]

def Chain (R : Instant → State → State → Prop) : State → List (Instant × State) → Prop
  | _, [] => True
  | s, (now,s')::rest => R now s s' ∧ Chain R s' rest

def Held (e : Engine) (fs : Fs) (key : Key) (m : Manifest) : Prop := ∃ row, Filed e fs key row m

def RemovesPast (e : Engine) (past : Manifest → Instant → Prop) (now : Instant) (s s' : State) : Prop :=
  ∀ key m, Held e s.fs key m → Held e s'.fs key m ∨ past m now

def Expired (m : Manifest) (now : Instant) : Prop := ∀ u, m.retentionUntil = some u → u ≤ now
def Aged (r : Nat) (m : Manifest) (now : Instant) : Prop := ∀ t, m.createdAt = some t → t + r ≤ now

variable {e cfg} {s : State}

section
variable {s' : State} {now}
structure Moves (e : Engine) (made : Manifest → Prop) (now : Instant) (s s' : State) : Prop where
  removes : RemovesPast e Expired now s s'
  makes : ∀ key m, Held e s'.fs key m → Held e s.fs key m ∨ made m

theorem heldOver {key m} (held : Held e s.fs key m)
    (files : ∀ path file, manifestPath (hexOut key) = .ok path → s.fs.lookup path = some file → s'.fs.lookup path = some file) :
    Held e s'.fs key m := by
  obtain ⟨row,filed⟩ := held
  obtain ⟨path,file,laid,found,rest⟩ := filed.file
  exact ⟨row,⟨path,file,laid,files path file laid found,rest⟩,filed.handle,filed.named,filed.session⟩

theorem putMoves (codec : Codec e) {call : PutCall} (apart : ∀ made ∈ offered e cfg s call, Apart e s.fs made.2) :
    Moves e (fun m => m.createdAt = some (wholeSeconds call.now) ∧ m.retentionUntil = call.retentionUntil.map wholeSeconds) call.now s
      (Cas.put e cfg s call).1 := by
  rcases done : Cas.put e cfg s call with ⟨s',outcome⟩
  refine ⟨fun key m ⟨row,filed⟩ => .inl ⟨row,filedPut apart done filed⟩,fun key m ⟨row,filed⟩ => ?_⟩
  obtain ⟨path,file,laid,found,fits,decoded,hash⟩ := filed.file
  rcases putWrites done with ⟨files,_⟩ | ⟨m',raw,place,wrote,_⟩
  · exact .inl (heldOver ⟨row,filed⟩ fun path _ laid found => (files path (manifestPathHead laid)).symm.trans found)
  have kept := (wrote.files path (manifestPathHead laid)).symm.trans found
  split at kept
  · cases kept
    obtain ⟨ext,usr,rfl⟩ := codec.carries wrote.encoded decoded
    exact .inr ⟨congrArg (Option.map wholeSeconds) wrote.dates.1,congrArg (Option.map wholeSeconds) wrote.dates.2⟩
  · exact .inl ⟨row,⟨path,file,laid,kept,fits,decoded,hash⟩,filed.handle,filed.named,filed.session⟩

theorem deleteMoves (cfg : StoreConfig) (s : State) (id : String) (now : Instant) :
    Moves e (fun _ => False) now s (Cas.delete e cfg s id now).1 := by
  have only : ∀ digest place, manifestPath digest = .ok place →
      (∀ key m, manifestPath (hexOut key) = .ok place → Held e s.fs key m → Expired m now) →
      ∀ tx, Moves e (fun _ => False) now s ⟨remove s.fs place,tx⟩ := by
    intro digest place built checked tx
    refine ⟨fun key m held => ?_,fun key m held => .inl (heldOver held fun path file _ found => ?_)⟩
    · by_cases here : manifestPath (hexOut key) = .ok place
      · exact .inr (checked key m here held)
      · refine .inl (heldOver held fun path file laid found => ?_)
        have away : path ≠ place := fun same => here (same ▸ laid)
        exact (lookupErase _ _ _).trans ((if_neg away).trans found)
    · exact (lookupErased _ found).2
  unfold Cas.delete
  split
  · exact ⟨fun _ _ held => .inl held,fun _ _ held => .inl held⟩
  next digest place found =>
  obtain ⟨m,loaded,rest⟩ := bindOk.mp found
  obtain ⟨_,allowed,rest⟩ := bindOk.mp rest
  obtain ⟨_,built,last⟩ := bindOk.mp rest
  cases last
  have checked : ∀ key m', manifestPath (hexOut key) = .ok place → Held e s.fs key m' → Expired m' now := by
    rintro key m' here ⟨row,filed⟩ u until'
    obtain ⟨resolved,read,byDigest,rfl⟩ := loadResolved loaded
    obtain ⟨key',_,spelled,_⟩ := resolvesNewest resolved
    rw [spelled] at built byDigest
    cases manifestPathKey built here
    cases okSame (loadFiled filed) byDigest
    unfold deleteChecks at allowed
    split at allowed
    · cases allowed
    split at allowed
    · cases allowed
    · next free =>
      have past : ¬ (m'.retentionUntil.any fun until' => decide (now < until')) = true := free
      simpa [until'] using past
  simp only
  split
  · exact only _ _ built checked _
  · exact only _ _ built checked _

theorem reopenMoves (heard : ∀ m, observed e.indexes m ≠ .error .corruptedManifest) (s : State)
    (now : Instant) : Moves e (fun _ => False) now s (reconcile .none (some (storeIngester e .none now)) s).1.state := by
  obtain ⟨p0,swept,walked⟩ := IndexCompleteness.reconcileVisits .none (storeIngester e .none now) s
  rw [walked]
  refine ⟨fun key m held => .inl ?_,fun key m held => .inl (heldOver held fun path file laid found => ?_)⟩
  · refine heldOver held fun path file laid found => ?_
    have names : ManifestRemoval.Names (hexOut key) path key := ⟨placedShape laid,laid,bindKeyOk.mpr (hexKeyPlaced laid),rfl⟩
    have start := swept.files _ _ laid
    have sound : ¬ ManifestRemoval.CalledFragment e .none now p0.state (hexOut key) := by
      rw [ManifestRemoval.calledSame names start]
      intro called
      obtain ⟨row,filed⟩ := held
      have ingested : ingestManifest e now s.fs s.index (hexOut key) = .error .corruptedManifest := called
      rcases bindError.mp ingested with unread | ⟨m',_,rest⟩
      · rw [loadFiled filed] at unread
        cases unread
      · rcases bindError.mp rest with unplaced | ⟨_,_,refused⟩
        · exact ManifestRemoval.ingestAddrHonest m' unplaced
        · exact heard m' (ManifestRemoval.indexCorrupted.mp refused).2
    rw [(ManifestRemoval.soundLater names sound _).2,start,found]
  · rw [← swept.files _ _ laid]
    exact (foldProgress e .none now _ p0).files path file found

theorem movesRefl (made : Manifest → Prop) (now : Instant) (s : State) : Moves e made now s s :=
  ⟨fun _ _ held => .inl held,fun _ _ held => .inl held⟩

end

section
variable {R}
def last (s : State) (steps : List (Instant × State)) : State := steps.foldl (fun _ step => step.2) s

theorem chainKeeps {R' : Instant → State → State → Prop} {I : State → Prop}
    (keep : ∀ now s s', I s → R now s s' → R' now s s' ∧ I s') {steps : List (Instant × State)} (start : I s)
    (chain : Chain R s steps) : Chain R' s steps ∧ I (last s steps) := by
  induction steps generalizing s with
  | nil => exact ⟨trivial,start⟩
  | cons step rest ih =>
    obtain ⟨here,next⟩ := keep step.1 s step.2 start chain.1
    obtain ⟨later,ends⟩ := ih next chain.2
    exact ⟨⟨here,later⟩,ends⟩

theorem deletionsChain (one : ∀ s id now, R now s (Cas.delete e cfg s id now).1) (clock : Nat → Instant) (s : State)
    (ids : List String) :
    Chain R s (deletions e cfg clock s ids) ∧ last s (deletions e cfg clock s ids) = (deleteAll e cfg clock s ids).1 := by
  induction ids generalizing clock s with
  | nil => exact ⟨trivial,rfl⟩
  | cons id rest ih =>
    have here := one s id (clock 0)
    unfold deletions deleteAll
    generalize Cas.delete e cfg s id (clock 0) = pair at here
    obtain ⟨s',outcome⟩ := pair
    have later := ih (fun n => clock (n + 1)) s'
    cases outcome with
    | ok done => exact ⟨⟨here,later.1⟩,later.2⟩
    | error err =>
      cases err with
      | artifactNotFound => exact ⟨⟨here,later.1⟩,later.2⟩
      | _ => exact ⟨⟨here,trivial⟩,rfl⟩

theorem sessionChain (one : ∀ s id now, R now s (Cas.delete e cfg s id now).1) (order : RowOrder) (clock : Nat → Instant)
    (s : State) (sessionID : String) : Chain R s (sessionSteps e cfg order clock s sessionID) ∧
      last s (sessionSteps e cfg order clock s sessionID) = (rollbackSession e cfg order clock s sessionID).1 := by
  unfold sessionSteps rollbackSession
  split
  · exact ⟨trivial,rfl⟩
  generalize getBySession order s.index sessionID = ids
  cases ids with
  | nil =>
    have none' : retentionCheck e s (clock 0) [] = .ok () := rfl
    simp only [none',deletions,ite_self]
    exact ⟨trivial,rfl⟩
  | cons id rest =>
    simp only
    cases retentionCheck e s (clock 0) (id::rest) with
    | error err => exact ⟨trivial,rfl⟩
    | ok checked =>
      simp only
      split
      · exact ⟨trivial,rfl⟩
      · exact deletionsChain one _ s _

theorem chainOne {now s'} (one : R now s s') : Chain R s [(now,s')] ∧ last s [(now,s')] = s' := ⟨⟨one,trivial⟩,rfl⟩

end

/- Measured in the whole seconds that are recorded. -/
def NamesTerm (r : Nat) : Call → Prop
  | .put call => ∃ u, call.retentionUntil = some u ∧ wholeSeconds call.now + r ≤ wholeSeconds u
  | _ => True

def WritesApart (e : Engine) (w : Opened) : Call → Prop
  | .put call => ∀ made ∈ offered e w.config w.store call, Apart e w.store.fs made.2
  | _ => True

def Covered (r : Nat) (m : Manifest) : Prop := ∃ u, m.retentionUntil = some u ∧ ∀ t, m.createdAt = some t → t + r ≤ u

def Makes : Call → Manifest → Prop
  | .put call, m => m.createdAt = some (wholeSeconds call.now) ∧ m.retentionUntil = call.retentionUntil.map wholeSeconds
  | _, _ => False

instance {w : Opened} (call : Call) : Decidable (WritesApart e w call) :=
  match call with
  | .put call => inferInstanceAs (Decidable (∀ made ∈ offered e w.config w.store call, Apart e w.store.fs made.2))
  | .delete _ _ | .rollback _ _ _ | .reopen _ _ => isTrue trivial

theorem connected (w : Opened) (client : Option Config.StoreConfig) (store : State) :
    (connect w client store).store = w.store ∨ (connect w client store).store = store := by
  unfold connect
  split
  · exact .inl rfl
  · exact .inr rfl

theorem stepsMove (codec : Codec e) (heard : ∀ m, observed e.indexes m ≠ .error .corruptedManifest) (w : Opened) (call : Call)
    (apart : WritesApart e w call) :
    Chain (Moves e (Makes call)) w.store (steps e w call) ∧ last w.store (steps e w call) = (perform e w call).store := by
  cases call with
  | put call => exact chainOne (putMoves codec apart)
  | delete id now => exact chainOne (deleteMoves w.config w.store id now)
  | rollback order clock sessionID =>
    exact sessionChain (fun s id now => deleteMoves w.config s id now) order clock w.store sessionID
  | reopen client now =>
    have one : Moves e (fun _ => False) now w.store (perform e w (.reopen client now)).store := by
      rcases connected w client (reconcile .none (some (storeIngester e .none now)) w.store).1.state with same | same
      · rw [perform,same]
        exact movesRefl _ now w.store
      · rw [perform,same]
        exact reopenMoves heard w.store now
    exact chainOne one

theorem coveredMade {r call m} (term : NamesTerm r call) (made : Makes call m) : Covered r m := by
  cases call with
  | put call =>
    obtain ⟨u,named,far⟩ := term
    refine ⟨wholeSeconds u,made.2.trans (by rw [named]; rfl),fun t created => ?_⟩
    cases someSame made.1 created
    exact far
  | _ => cases made

/-- Along every run no artifact is removed before its recorded RetentionUntil, and none before its CreatedAt and the
store's RetentionPeriod where the Puts of the run name a RetentionUntil at least that far in whole seconds. -/
theorem retainedWhereNamed (codec : Codec e) (heard : ∀ m, observed e.indexes m ≠ .error .corruptedManifest)
    (stored overlay : Config.StoreConfig) (calls : List Call)
    (apart : Along (perform e) (WritesApart e) ⟨stored,overlay,emptyStore⟩ calls) :
    Along (perform e) (fun w call => Chain (RemovesPast e Expired) w.store (steps e w call)) ⟨stored,overlay,emptyStore⟩ calls ∧
    ((∀ call ∈ calls, NamesTerm (applyDefaults stored).retentionPeriod.toNat call) →
      Along (perform e) (fun w call => Chain (RemovesPast e (Aged (applyDefaults stored).retentionPeriod.toNat)) w.store
        (steps e w call)) ⟨stored,overlay,emptyStore⟩ calls) := by
  generalize (applyDefaults stored).retentionPeriod.toNat = r
  constructor
  · refine alongMono apart fun w call ok => ?_
    have free : ∀ now s s', True → Moves e (Makes call) now s s' → RemovesPast e Expired now s s' ∧ True :=
      fun _ _ _ _ moves => ⟨moves.removes,trivial⟩
    exact (chainKeeps free trivial (stepsMove codec heard w call ok).1).1
  · intro terms
    have ages : ∀ (w : Opened) call, (∀ key m, Held e w.store.fs key m → Covered r m) →
        NamesTerm r call ∧ WritesApart e w call →
        Chain (RemovesPast e (Aged r)) w.store (steps e w call) ∧
          ∀ key m, Held e (perform e w call).store.fs key m → Covered r m := by
      intro w call covered ⟨term,ok⟩
      obtain ⟨chain,ends⟩ := stepsMove codec heard w call ok
      rw [← ends]
      have keep : ∀ now s s', (∀ key m, Held e s.fs key m → Covered r m) → Moves e (Makes call) now s s' →
          RemovesPast e (Aged r) now s s' ∧ ∀ key m, Held e s'.fs key m → Covered r m := ?_
      · exact chainKeeps keep covered chain
      refine fun now s s' covered moves => ⟨fun key m held => ?_,fun key m held => ?_⟩
      · refine (moves.removes key m held).imp_right fun expired t created => ?_
        obtain ⟨u,named,far⟩ := covered key m held
        exact (far t created).trans (expired u named)
      · exact (moves.makes key m held).elim (covered key m) (coveredMade term)
    have start : ∀ key m, Held e emptyStore.fs key m → Covered r m := by
      rintro key m ⟨row,filed⟩
      obtain ⟨path,file,_,found,_⟩ := filed.file
      cases found
    exact alongMono (alongInvariant (fun w call covered term => (ages w call covered term).2) start
      (alongAnd.mpr ⟨alongOfMem terms,apart⟩))
      fun w call both => (ages w call both.1 both.2).1

def keeping : Config.StoreConfig :=
  {(default : Config.StoreConfig) with
    deletionPolicy := .named .retention, retentionPeriod := 3600000000000, identityMode := .named .coalesced}

def untermed : PutCall := Readback.sampleCall "u1" 1 (10 * second)
def termed : PutCall := {untermed with retentionUntil := some (3610 * second)}
def keeper : Engine := tabled [noted "" (10 * second),{noted "" (10 * second) with retentionUntil := some (3610 * second)}]

theorem deletedWithinPeriod : keeping.deletionPolicy = .named .retention ∧ keeping.retentionPeriod = 3600000000000 ∧
    ¬ Along (perform keeper) (fun w call => Chain (RemovesPast keeper (Aged (applyDefaults keeping).retentionPeriod.toNat))
      w.store (steps keeper w call)) ⟨keeping,default,emptyStore⟩ [.put untermed,.delete "sha256-00000102" (11 * second)] := by
  refine ⟨rfl,rfl,fun along => ?_⟩
  obtain ⟨_,along⟩ := alongCons.mp along
  have removes := (alongCons.mp along).1.1
  have there : Held keeper (perform keeper ⟨keeping,default,emptyStore⟩ (.put untermed)).store.fs [0,0,0] (noted "" (10 * second)) :=
    ⟨⟨some "sha256-00000102","",none,0,none,none,0⟩,⟨"manifests/00/00/000000",⟨[0],10 * second,10 * second⟩,by decide +kernel⟩,rfl,by decide,rfl⟩
  rcases removes [0,0,0] (noted "" (10 * second)) there with ⟨row,filed⟩ | aged
  · obtain ⟨path,file,laid,found,_⟩ := filed.file
    have place : path = "manifests/00/00/000000" := (Except.ok.inj laid).symm
    rw [place] at found
    have gone : (perform keeper (perform keeper ⟨keeping,default,emptyStore⟩ (.put untermed))
      (.delete "sha256-00000102" (11 * second))).store.fs.lookup "manifests/00/00/000000" = none := by decide +kernel
    rw [gone] at found
    cases found
  · exact absurd (aged (10 * second) rfl) (by decide +kernel)

theorem namedTermHeld :
    Along (perform keeper) (fun w call => Chain (RemovesPast keeper (Aged (applyDefaults keeping).retentionPeriod.toNat))
      w.store (steps keeper w call)) ⟨keeping,default,emptyStore⟩ [.put termed,.delete "sha256-00000102" (11 * second)] ∧
    (Cas.delete keeper (⟨keeping,default,emptyStore⟩ : Opened).config
      (perform keeper ⟨keeping,default,emptyStore⟩ (.put termed)).store "sha256-00000102" (11 * second)).2 = .error .retentionNotExpired := by
  have heard : ∀ m, observed keeper.indexes m ≠ .error .corruptedManifest := by
    intro m
    unfold observed
    split <;> nofun
  refine ⟨(retainedWhereNamed (tabledCodec _) heard keeping default _ (by decide +kernel)).2 ?_,by decide +kernel⟩
  intro call mem
  rcases List.mem_pair.mp mem with rfl | rfl
  · exact ⟨3610 * second,rfl,by decide +kernel⟩
  · trivial

end Scrinium.Retention
