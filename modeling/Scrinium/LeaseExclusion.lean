import Scrinium.Lease

/-! Mutual exclusion of the lease. A host that believes finds its own record in the cell, so an unraced write is over no
holder. -/
namespace Scrinium.Lease
open Domain Trace Function

section
variable {S} {s s' : State}

def Witnessed (S : String) (s : State) (host : String) (current : Record) (seen : Nat) : Prop :=
  seen ≤ s.steps ∧ ∀ h, h ≠ host → Believes s h → s.lastDone h ≤ seen →
    current.hostID = h ∧ s.held h = some current.expiresAt ∧ current.storeID = S

def PlainConfig (S : String) (cfg : Config) : Prop := cfg.storeID = S ∧ cfg.force = false

def Verified (S : String) (s : State) (nonce : String) (cfg : Config) (seen : Nat) : Prop :=
  ∀ r, s.cell = .holds r → r.nonce = nonce → r.hostID = cfg.hostID ∧ r.storeID = S ∧
    ∀ h, h ≠ cfg.hostID → s.lastDone h ≤ seen

def StageOk (S : String) (s : State) (nonce : String) : Stage → Prop
  | .unused => True
  | .reading cfg => PlainConfig S cfg
  | .creating cfg => PlainConfig S cfg
  | .deciding cfg current seen => PlainConfig S cfg ∧ Witnessed S s cfg.hostID current seen
  | .overwriting cfg current seen =>
      PlainConfig S cfg ∧ Witnessed S s cfg.hostID current seen ∧ refuses cfg current s.now = false
  | .verifying cfg _ seen => PlainConfig S cfg ∧ Verified S s nonce cfg seen
  | .granted cfg _ => PlainConfig S cfg
  | .failed _ => True

structure UpkeepOk (S : String) (s : State) (call : Upkeep) : Prop where
  lease : ∃ prev, s.stage call.nonce = .granted call.cfg prev
  read : ∀ current seen, call.read = some (current,seen) →
    current.hostID = call.cfg.hostID ∧ Witnessed S s call.cfg.hostID current seen

def Holder (S : String) (s : State) (host : String) : Prop :=
  ∃ r, s.cell = .holds r ∧ r.hostID = host ∧ s.held host = some r.expiresAt ∧ r.storeID = S

def LeasesStay (s s' : State) : Prop := ∀ nonce cfg prev, s.stage nonce = .granted cfg prev → s'.stage nonce = .granted cfg prev

def UpkeepsOk (S : String) (s s' : State) : Prop :=
  ∀ id call, s'.upkeep id = some call → s.upkeep id = some call ∨ UpkeepOk S s' call

structure Inv (S : String) (s : State) : Prop where
  holder : ∀ h, Believes s h → Holder S s h
  done : ∀ h, s.lastDone h ≤ s.steps
  stages : ∀ nonce, StageOk S s nonce (s.stage nonce)
  upkeeps : ∀ id call, s.upkeep id = some call → UpkeepOk S s call

def Keeps (s s' : State) : Prop :=
  ∀ h, Believes s' h → (Believes s h ∧ s'.held h = s.held h ∧ s'.lastDone h = s.lastDone h) ∨
    s'.lastDone h = s.steps + 1

structure Moves (s s' : State) : Prop where
  keeps : Keeps s s'
  time : s.now ≤ s'.now
  count : s'.steps = s.steps + 1

variable {host nonce current r seen id cfg stage call}

theorem witnessedMoves (w : Witnessed S s host current seen) (moves : Moves s s') :
    Witnessed S s' host current seen := by
  obtain ⟨bound,known⟩ := w
  refine ⟨by rw [moves.count]; exact Nat.le_succ_of_le bound,fun h other believing before => ?_⟩
  rcases moves.keeps h believing with ⟨already,same,done⟩ | late
  · rw [same]
    exact known h other already (done ▸ before)
  · rw [late] at before
    exact absurd (Nat.le_trans before bound) (Nat.not_succ_le_self _)

theorem refusesLater {now later} (time : now ≤ later) (no : refuses cfg current now = false) :
    refuses cfg current later = false := by
  have expires : current.expired later = false → current.expired now = false := by
    simp only [Record.expired,decide_eq_false_iff_not]
    exact fun live expired => live (Nat.le_trans expired time)
  cases late : refuses cfg current later with
  | false => rfl
  | true =>
    simp only [refuses,Bool.and_eq_true,Bool.not_eq_true'] at late
    obtain ⟨⟨⟨store,live⟩,other⟩,unforced⟩ := late
    simp [refuses,of_decide_eq_true store,expires live,of_decide_eq_true other,unforced] at no

theorem stageMoves (ok : StageOk S s nonce stage) (moves : Moves s s')
    (verified : ∀ cfg current seen, stage = .verifying cfg current seen → Verified S s nonce cfg seen → Verified S s' nonce cfg seen) :
    StageOk S s' nonce stage := by
  cases stage with
  | unused => trivial
  | reading cfg => exact ok
  | creating cfg => exact ok
  | deciding cfg current seen => exact ⟨ok.1,witnessedMoves ok.2 moves⟩
  | overwriting cfg current seen => exact ⟨ok.1,witnessedMoves ok.2.1 moves,refusesLater moves.time ok.2.2⟩
  | verifying cfg current seen => exact ⟨ok.1,verified cfg current seen rfl ok.2⟩
  | granted cfg prev => exact ok
  | failed err => trivial

theorem invMoves (inv : Inv S s) (moves : Moves s s') (holder : ∀ h, Believes s' h → Holder S s' h)
    (done : ∀ h, s'.lastDone h ≤ s'.steps)
    (stages : ∀ nonce, s'.stage nonce = s.stage nonce ∧ (∀ cfg current seen,
        s.stage nonce = .verifying cfg current seen → Verified S s nonce cfg seen → Verified S s' nonce cfg seen) ∨
      StageOk S s' nonce (s'.stage nonce))
    (leases : LeasesStay s s') (upkeeps : UpkeepsOk S s s') : Inv S s' := by
  refine ⟨holder,done,fun nonce => ?_,fun id call running => ?_⟩
  · rcases stages nonce with ⟨same,verified⟩ | ok
    · rw [same]
      exact stageMoves (inv.stages nonce) moves verified
    · exact ok
  · rcases upkeeps id call running with before | ok
    · obtain ⟨⟨prev,lease⟩,read⟩ := inv.upkeeps id call before
      refine ⟨⟨prev,leases _ _ _ lease⟩,fun current seen found => ?_⟩
      obtain ⟨own,witnessed⟩ := read current seen found
      exact ⟨own,witnessedMoves witnessed moves⟩
    · exact ok

theorem believesIff : believes s host = true ↔ Believes s host := by
  unfold believes Believes
  cases s.held host <;> simp

theorem believesSame (held : s'.held host = s.held host) (time : s.now ≤ s'.now) (believing : Believes s' host) :
    Believes s host := by
  obtain ⟨expiry,mine,live⟩ := believing
  exact ⟨expiry,held ▸ mine,Nat.lt_of_le_of_lt time live⟩

theorem invQuiet (inv : Inv S s) (cell : s'.cell = s.cell) (held : s'.held = s.held) (last : s'.lastDone = s.lastDone)
    (time : s.now ≤ s'.now) (count : s'.steps = s.steps + 1)
    (stages : ∀ nonce, s'.stage nonce = s.stage nonce ∨ StageOk S s' nonce (s'.stage nonce))
    (leases : LeasesStay s s') (upkeeps : UpkeepsOk S s s') : Inv S s' := by
  have before : ∀ h, Believes s' h → Believes s h := fun h => believesSame (by rw [held]) time
  have moves : Moves s s' := ⟨fun h b => .inl ⟨before h b,by rw [held],by rw [last]⟩,time,count⟩
  refine invMoves inv moves (fun h b => ?_) (fun h => ?_) (fun nonce => ?_) leases upkeeps
  · simpa only [Holder,cell,held] using inv.holder h (before h b)
  · rw [last,count]
    exact Nat.le_succ_of_le (inv.done h)
  · rcases stages nonce with same | ok
    · refine .inl ⟨same,fun cfg current seen _ verified => ?_⟩
      simpa only [Verified,cell,last] using verified
    · exact .inr ok

theorem invConfirm (inv : Inv S s) (cell : s'.cell = .holds r) (held : s'.held = update s.held host (some r.expiresAt))
    (last : s'.lastDone = update s.lastDone host (s.steps + 1)) (time : s'.now = s.now)
    (count : s'.steps = s.steps + 1) (alone : ∀ h, h ≠ host → ¬ Believes s h) (own : r.hostID = host) (store : r.storeID = S)
    (stages : ∀ nonce, s'.stage nonce = s.stage nonce ∧ (∀ cfg current seen, s.stage nonce = .verifying cfg current seen → r.nonce ≠ nonce) ∨ StageOk S s' nonce (s'.stage nonce))
    (leases : LeasesStay s s') (upkeeps : UpkeepsOk S s s') : Inv S s' := by
  have only : ∀ h, Believes s' h → h = host := by
    intro h believing
    by_contra other
    refine alone h other (believesSame ?_ (Nat.le_of_eq time.symm) believing)
    rw [held,update_of_ne other]
  have moves : Moves s s' := by
    refine ⟨fun h believing => .inr ?_,Nat.le_of_eq time.symm,count⟩
    rw [only h believing,last,update_self]
  refine invMoves inv moves (fun h believing => ?_) (fun h => ?_) (fun nonce => ?_) leases upkeeps
  · cases only h believing
    exact ⟨r,cell,own,by rw [held,update_self],store⟩
  · rw [last,count,update_apply]
    split
    · exact Nat.le_refl _
    · exact Nat.le_succ_of_le (inv.done h)
  · rcases stages nonce with ⟨same,others⟩ | ok
    · refine .inl ⟨same,fun cfg current seen verifying _ found there named => ?_⟩
      cases Cell.holds.inj (cell.symm.trans there)
      exact absurd named (others cfg current seen verifying)
    · exact .inr ok

theorem invDrop (inv : Inv S s) (cell : s'.cell = s.cell ∨ s'.cell = .empty ∧ ∀ h, h ≠ host → ¬ Believes s h)
    (held : s'.held = update s.held host none) (last : s'.lastDone = s.lastDone) (time : s'.now = s.now)
    (count : s'.steps = s.steps + 1) (stages : s'.stage = s.stage)
    (upkeeps : ∀ id call, s'.upkeep id = some call → s.upkeep id = some call) : Inv S s' := by
  have before : ∀ h, Believes s' h → h ≠ host ∧ s'.held h = s.held h ∧ Believes s h := by
    intro h believing
    by_cases mine : h = host
    · obtain ⟨expiry,found,_⟩ := believing
      rw [held,mine,update_self] at found
      contradiction
    · have same : s'.held h = s.held h := by rw [held,update_of_ne mine]
      exact ⟨mine,same,believesSame same (Nat.le_of_eq time.symm) believing⟩
  have moves : Moves s s' := by
    refine ⟨fun h believing => .inl ?_,Nat.le_of_eq time.symm,count⟩
    obtain ⟨_,same,already⟩ := before h believing
    exact ⟨already,same,by rw [last]⟩
  refine invMoves inv moves (fun h believing => ?_) (fun h => ?_) (fun nonce => ?_)
    (fun _ _ _ granted => stages ▸ granted) (fun id call running => .inl (upkeeps id call running))
  · obtain ⟨other,same,already⟩ := before h believing
    rcases cell with kept | ⟨_,alone⟩
    · simpa only [Holder,kept,same] using inv.holder h already
    · exact absurd already (alone h other)
  · rw [last,count]
    exact Nat.le_succ_of_le (inv.done h)
  · refine .inl ⟨by rw [stages],fun cfg current seen _ verified found there named => ?_⟩
    rw [last]
    rcases cell with kept | ⟨gone,_⟩
    · exact verified found (kept ▸ there) named
    · rw [gone] at there
      contradiction

theorem updatedStages (changed : s'.stage = update s.stage nonce stage) (ok : StageOk S s' nonce stage) (n : String) :
    s'.stage n = s.stage n ∧ n ≠ nonce ∨ StageOk S s' n (s'.stage n) := by
  by_cases mine : n = nonce
  · subst mine
    rw [changed,update_self]
    exact .inr ok
  · rw [changed,update_of_ne mine]
    exact .inl ⟨rfl,mine⟩

theorem updatedLeases (changed : s'.stage = update s.stage nonce stage)
    (open' : ∀ cfg prev, s.stage nonce ≠ .granted cfg prev) (n : String) (cfg : Config) (prev : Option Record)
    (granted : s.stage n = .granted cfg prev) : s'.stage n = .granted cfg prev := by
  have other : n ≠ nonce := fun same => open' cfg prev (same ▸ granted)
  rw [changed,update_of_ne other,granted]

theorem invStage (inv : Inv S s) (open' : ∀ cfg prev, s.stage nonce ≠ .granted cfg prev)
    (ok : StageOk S {setStage s nonce stage with steps := s.steps + 1} nonce stage) :
    Inv S {setStage s nonce stage with steps := s.steps + 1} :=
  invQuiet inv rfl rfl rfl (Nat.le_refl _) rfl (fun n => (updatedStages rfl ok n).imp And.left id)
    (updatedLeases rfl open') (fun _ _ running => .inl running)

theorem invConfirmStage (inv : Inv S s) (cell : s'.cell = .holds r) (held : s'.held = update s.held host (some r.expiresAt))
    (last : s'.lastDone = update s.lastDone host (s.steps + 1)) (time : s'.now = s.now)
    (count : s'.steps = s.steps + 1) (alone : ∀ h, h ≠ host → ¬ Believes s h) (own : r.hostID = host)
    (store : r.storeID = S) (named : r.nonce = nonce) (open' : ∀ cfg prev, s.stage nonce ≠ .granted cfg prev)
    (changed : s'.stage = update s.stage nonce stage) (upkeep : s'.upkeep = s.upkeep)
    (ok : StageOk S s' nonce stage) : Inv S s' := by
  refine invConfirm inv cell held last time count alone own store (fun n => ?_) (updatedLeases changed open')
    (fun _ _ running => .inl (upkeep ▸ running))
  rcases updatedStages changed ok n with ⟨same,other⟩ | fine
  · exact .inl ⟨same,fun _ _ _ _ clash => other (clash.symm.trans named)⟩
  · exact .inr fine

theorem invWriteStage (inv : Inv S s) (cell : s'.cell = .holds r) (held : s'.held = s.held)
    (last : s'.lastDone = s.lastDone) (time : s'.now = s.now) (count : s'.steps = s.steps + 1)
    (nobody : ∀ h, ¬ Believes s h) (named : r.nonce = nonce) (open' : ∀ cfg prev, s.stage nonce ≠ .granted cfg prev)
    (changed : s'.stage = update s.stage nonce stage) (upkeep : s'.upkeep = s.upkeep)
    (ok : StageOk S s' nonce stage) : Inv S s' := by
  have before : ∀ h, ¬ Believes s' h := fun h believing =>
    nobody h (believesSame (by rw [held]) (Nat.le_of_eq time.symm) believing)
  refine invMoves inv ⟨fun h believing => absurd believing (before h),Nat.le_of_eq time.symm,count⟩
    (fun h believing => absurd believing (before h)) (fun h => ?_) (fun n => ?_) (updatedLeases changed open')
    (fun _ _ running => .inl (upkeep ▸ running))
  · rw [last,count]
    exact Nat.le_succ_of_le (inv.done h)
  · rcases updatedStages changed ok n with ⟨same,other⟩ | fine
    · refine .inl ⟨same,fun _ _ _ _ _ found there clash => ?_⟩
      cases Cell.holds.inj (cell.symm.trans there)
      exact absurd (clash.symm.trans named) other
    · exact .inr fine

theorem invSame (inv : Inv S s) (cell : s'.cell = s.cell) (held : s'.held = s.held) (last : s'.lastDone = s.lastDone)
    (time : s.now ≤ s'.now) (count : s'.steps = s.steps + 1) (stage : s'.stage = s.stage) (upkeeps : UpkeepsOk S s s') : Inv S s' :=
  invQuiet inv cell held last time count (fun _ => .inl (by rw [stage])) (fun _ _ _ granted => stage ▸ granted) upkeeps

theorem invIdle (inv : Inv S s) : Inv S {s with steps := s.steps + 1} :=
  invSame inv rfl rfl rfl (Nat.le_refl _) rfl rfl fun _ _ running => .inl running

theorem noOtherHolder (w : Witnessed S s host current seen) (unraced : ∀ h, h ≠ host → s.lastDone h ≤ seen)
    (may : current.hostID = host ∨ ∃ cfg, cfg.hostID = host ∧ PlainConfig S cfg ∧ refuses cfg current s.now = false) :
    ∀ h, h ≠ host → ¬ Believes s h := by
  intro h other believing
  obtain ⟨named,held,store⟩ := w.2 h other believing (unraced h other)
  rcases may with own | ⟨cfg,rfl,⟨mine,unforced⟩,taken⟩
  · exact other (named.symm.trans own)
  obtain ⟨expiry,found,live⟩ := believing
  cases someSame held found
  have same : classifyStoreOwnership S S ≠ .foreign := by
    unfold classifyStoreOwnership
    split <;> simp
  have running : current.expired s.now = false := by simpa [Record.expired] using live
  simp [refuses,store,mine,same,running,named,other,unforced] at taken

theorem witnessedNow (inv : Inv S s) (cell : s.cell = .holds current) (host : String) :
    Witnessed S s host current s.steps := by
  refine ⟨Nat.le_refl _,fun h _ believing _ => ?_⟩
  obtain ⟨r,found,own,held,store⟩ := inv.holder h believing
  cases Cell.holds.inj (cell.symm.trans found)
  exact ⟨own,held,store⟩

theorem stageOf (inv : Inv S s) (at' : s.stage nonce = stage) : StageOk S s nonce stage := at' ▸ inv.stages nonce

theorem movesStage (s : State) (nonce : String) (stage : Stage) :
    Moves s {setStage s nonce stage with steps := s.steps + 1} :=
  ⟨fun _ believing => .inl ⟨believing,rfl,rfl⟩,Nat.le_refl _,rfl⟩

theorem notGranted (at' : s.stage nonce = stage) (other : ∀ c p, stage ≠ .granted c p) (c : Config) (p : Option Record) :
    s.stage nonce ≠ .granted c p := at' ▸ other c p

theorem invReading (inv : Inv S s) (at' : s.stage nonce = .reading cfg) (stamp : Instant) :
    Inv S {advance s nonce stamp with steps := s.steps + 1} := by
  have plain : PlainConfig S cfg := stageOf inv at'
  have open' := notGranted at' nofun
  simp only [advance,at']
  cases cell : s.cell with
  | holds current => exact invStage inv open' ⟨plain,witnessedMoves (witnessedNow inv cell _) (movesStage s nonce _)⟩
  | empty => exact invStage inv open' plain
  | corrupt => exact invStage inv open' plain

theorem invCreating (inv : Inv S s) (at' : s.stage nonce = .creating cfg) (stamp : Instant) :
    Inv S {advance s nonce stamp with steps := s.steps + 1} := by
  have plain : PlainConfig S cfg := stageOf inv at'
  have open' := notGranted at' nofun
  simp only [advance,at']
  cases cell : s.cell with
  | empty =>
    -- a holder has its record in the cell, so an empty slot has no holder
    have nobody : ∀ h, h ≠ cfg.hostID → ¬ Believes s h := by
      intro h _ believing
      obtain ⟨r,found,_⟩ := inv.holder h believing
      rw [cell] at found
      cases found
    exact invConfirmStage inv rfl rfl rfl rfl rfl nobody rfl plain.1 rfl open' rfl rfl plain
  | holds current => exact invStage inv open' trivial
  | corrupt => exact invStage inv open' trivial

theorem invDeciding (inv : Inv S s) (at' : s.stage nonce = .deciding cfg current seen) (stamp : Instant) :
    Inv S {advance s nonce stamp with steps := s.steps + 1} := by
  obtain ⟨plain,witnessed⟩ := stageOf inv at'
  have open' := notGranted at' nofun
  simp only [advance,at']
  split
  · exact invStage inv open' trivial
  · next taken =>
    exact invStage inv open' ⟨plain,witnessedMoves witnessed (movesStage s nonce _),Bool.eq_false_iff.mpr taken⟩

theorem invOverwriting (inv : Inv S s) (at' : s.stage nonce = .overwriting cfg current seen)
    (unraced : ∀ h, h ≠ cfg.hostID → s.lastDone h ≤ seen) (stamp : Instant) :
    Inv S {advance s nonce stamp with steps := s.steps + 1} := by
  obtain ⟨plain,witnessed,taken⟩ := stageOf inv at'
  have open' := notGranted at' nofun
  have alone := noOtherHolder witnessed unraced (.inr ⟨cfg,rfl,plain,taken⟩)
  simp only [advance,at']
  split
  · refine invConfirmStage inv rfl rfl rfl rfl rfl alone rfl plain.1 rfl open' rfl rfl ⟨plain,fun r found _ => ?_⟩
    cases Cell.holds.inj found
    refine ⟨rfl,plain.1,fun h other => ?_⟩
    show update s.lastDone cfg.hostID (s.steps + 1) h ≤ seen
    rw [update_of_ne other]
    exact unraced h other
  · next idle =>
    -- nobody holds the lease: the writer does not, and no other host does
    have nobody : ∀ h, ¬ Believes s h := by
      intro h believing
      by_cases mine : h = cfg.hostID
      · exact idle (believesIff.mpr (mine ▸ believing))
      · exact alone h mine believing
    refine invWriteStage inv rfl rfl rfl rfl rfl nobody rfl open' rfl rfl ⟨plain,fun r found _ => ?_⟩
    cases Cell.holds.inj found
    exact ⟨rfl,plain.1,unraced⟩

theorem invVerifying (inv : Inv S s) (at' : s.stage nonce = .verifying cfg current seen) (stamp : Instant) :
    Inv S {advance s nonce stamp with steps := s.steps + 1} := by
  obtain ⟨plain,verified⟩ := stageOf inv at'
  have open' := notGranted at' nofun
  simp only [advance,at']
  cases cell : s.cell with
  | holds after =>
    simp only
    split
    · next won =>
      obtain ⟨own,store,_⟩ := verified after cell won
      have alone : ∀ h, h ≠ cfg.hostID → ¬ Believes s h := by
        intro h other believing
        obtain ⟨r,found,named,_⟩ := inv.holder h believing
        cases Cell.holds.inj (cell.symm.trans found)
        exact other (named.symm.trans own)
      exact invConfirmStage inv cell rfl rfl rfl rfl alone own store won open' rfl rfl plain
    · exact invStage inv open' trivial
  | empty => exact invStage inv open' trivial
  | corrupt => exact invStage inv open' trivial

theorem erasedUpkeep (changed : s'.upkeep = update s.upkeep id none) (n : Nat) (call : Upkeep)
    (running : s'.upkeep n = some call) : s.upkeep n = some call := by
  rw [changed,update_apply] at running
  split at running
  · cases running
  · exact running

theorem invRead (inv : Inv S s) (running : s.upkeep id = some call) (unread : call.read = none) (stamp : Instant) :
    Inv S {finish s id stamp with steps := s.steps + 1} := by
  obtain ⟨lease,_⟩ := inv.upkeeps id call running
  simp only [finish,running,unread]
  cases cell : s.cell with
  | corrupt =>
    exact invSame inv cell.symm rfl rfl (Nat.le_refl _) rfl rfl fun n c found => .inl (erasedUpkeep rfl n c found)
  | empty => exact invDrop inv (.inl cell.symm) rfl rfl rfl rfl rfl (erasedUpkeep rfl)
  | holds current =>
    simp only
    split
    · next own =>
      refine invSame inv cell.symm rfl rfl (Nat.le_refl _) rfl rfl fun n c found => ?_
      simp only [update_apply] at found
      split at found
      · cases found
        refine .inr ⟨lease,fun cur seen got => ?_⟩
        cases got
        exact ⟨own.1,witnessedMoves (witnessedNow inv cell _) ⟨fun _ b => .inl ⟨b,rfl,rfl⟩,Nat.le_refl _,rfl⟩⟩
      · exact .inl found
    · exact invDrop inv (.inl cell.symm) rfl rfl rfl rfl rfl (erasedUpkeep rfl)

theorem invWrite (inv : Inv S s) (running : s.upkeep id = some call) (read : call.read = some (current,seen))
    (unraced : ∀ h, h ≠ call.cfg.hostID → s.lastDone h ≤ seen) (stamp : Instant) :
    Inv S {finish s id stamp with steps := s.steps + 1} := by
  obtain ⟨⟨prev,lease⟩,seenIt⟩ := inv.upkeeps id call running
  obtain ⟨own,witnessed⟩ := seenIt current seen read
  have alone := noOtherHolder witnessed unraced (.inl own)
  have plain : PlainConfig S call.cfg := stageOf inv lease
  simp only [finish,running,read]
  cases call.kind with
  | renew =>
    refine invConfirm inv rfl rfl rfl rfl rfl alone rfl plain.1 (fun n => .inl ⟨rfl,fun _ _ _ verifying clash => ?_⟩)
      (fun _ _ _ granted => granted) (fun n c found => .inl (erasedUpkeep rfl n c found))
    -- the lease's nonce is granted, so no call is still verifying it
    subst clash
    exact absurd (lease.symm.trans verifying) (by simp)
  | release => exact invDrop inv (.inr ⟨rfl,alone⟩) rfl rfl rfl rfl rfl (erasedUpkeep rfl)

end

/- No other host completed an acquisition or a renewal, or rewrote a lease it holds, since the call read
the cell it now overwrites or removes. -/
def Unraced (s : State) : Action → Prop
  | .advance nonce _ =>
    match s.stage nonce with
    | .overwriting cfg _ seen => ∀ h, h ≠ cfg.hostID → s.lastDone h ≤ seen
    | _ => True
  | .finish id _ =>
    match s.upkeep id with
    | some call => ∀ current seen, call.read = some (current,seen) → ∀ h, h ≠ call.cfg.hostID → s.lastDone h ≤ seen
    | none => True
  | _ => True

def Plain (S : String) : Action → Prop
  | .acquire _ cfg => PlainConfig S cfg
  | _ => True

theorem invStart (S : String) (cell : Cell) (now : Instant) : Inv S (State.start cell now) where
  holder _ believing := by
    obtain ⟨_,held,_⟩ := believing
    cases held
  done _ := Nat.le_refl _
  stages _ := trivial
  upkeeps _ _ running := by cases running

variable {S s stamp a}

theorem invAdvance {nonce} (inv : Inv S s) (unraced : Unraced s (.advance nonce stamp)) :
    Inv S {advance s nonce stamp with steps := s.steps + 1} := by
  cases at' : s.stage nonce with
  | reading cfg => exact invReading inv at' stamp
  | creating cfg => exact invCreating inv at' stamp
  | deciding cfg current seen => exact invDeciding inv at' stamp
  | overwriting cfg current seen =>
    simp only [Unraced,at'] at unraced
    exact invOverwriting inv at' unraced stamp
  | verifying cfg current seen => exact invVerifying inv at' stamp
  | unused => simp only [advance,at']; exact invIdle inv
  | granted cfg prev => simp only [advance,at']; exact invIdle inv
  | failed err => simp only [advance,at']; exact invIdle inv

theorem invFinish {id} (inv : Inv S s) (unraced : Unraced s (.finish id stamp)) :
    Inv S {finish s id stamp with steps := s.steps + 1} := by
  cases running : s.upkeep id with
  | none => simp only [finish,running]; exact invIdle inv
  | some call =>
    simp only [Unraced,running] at unraced
    cases read : call.read with
    | none => exact invRead inv running read stamp
    | some pair => exact invWrite inv running read (unraced pair.1 pair.2 read) stamp

theorem invBegin (inv : Inv S s) (id : Nat) (kind : UpkeepKind) (nonce : String) :
    Inv S {begin s id kind nonce with steps := s.steps + 1} := by
  unfold begin
  split
  · next cfg prev lease _ =>
    refine invSame inv rfl rfl rfl (Nat.le_refl _) rfl rfl fun n call found => ?_
    simp only [update_apply] at found
    split at found
    · cases found
      exact .inr ⟨⟨prev,lease⟩,fun _ _ read => by cases read⟩
    · exact .inl found
  · exact invIdle inv

theorem invStep (inv : Inv S s) (plain : Plain S a) (unraced : Unraced s a) : Inv S (step s a) := by
  cases a with
  | tick passed =>
    exact invSame inv rfl rfl rfl (Nat.le_add_right _ _) rfl rfl fun _ _ running => .inl running
  | acquire nonce cfg =>
    simp only [step,apply]
    split
    · next fresh =>
      have open' := notGranted fresh nofun
      split
      · exact invStage inv open' trivial
      · exact invStage inv open' plain
    · exact invIdle inv
  | advance nonce stamp =>
    simp only [step,apply]
    split
    · exact invAdvance inv unraced
    · exact invIdle inv
  | begin id kind nonce => exact invBegin inv id kind nonce
  | finish id stamp =>
    simp only [step,apply]
    split
    · exact invFinish inv unraced
    · exact invIdle inv

def Excludes (s : State) : Prop := ∀ h h', Believes s h → Believes s h' → h = h'

def WritesAlone (s : State) : Action → Prop
  | .finish id _ => ∀ call, s.upkeep id = some call → call.read ≠ none → ∀ h, h ≠ call.cfg.hostID → ¬ Believes s h
  | _ => True

def TakesAlone (s : State) : Action → Prop
  | .advance nonce _ => ∀ cfg current seen r, s.stage nonce = .verifying cfg current seen → s.cell = .holds r →
      r.nonce = nonce → ∀ h, h ≠ cfg.hostID → s.lastDone h ≤ seen
  | _ => True

theorem invExcludes (inv : Inv S s) : Excludes s := by
  intro h h' first second
  obtain ⟨r,found,own,_⟩ := inv.holder h first
  obtain ⟨r',found',own',_⟩ := inv.holder h' second
  cases Cell.holds.inj (found.symm.trans found')
  exact own.symm.trans own'

theorem invAlone (inv : Inv S s) (unraced : Unraced s a) : WritesAlone s a ∧ TakesAlone s a := by
  refine ⟨?_,?_⟩
  · cases a with
    | finish id stamp =>
      intro call running read
      simp only [Unraced,running] at unraced
      obtain ⟨⟨current,seen⟩,found⟩ := Option.ne_none_iff_exists'.mp read
      obtain ⟨own,witnessed⟩ := (inv.upkeeps id call running).read current seen found
      exact noOtherHolder witnessed (unraced current seen found) (.inl own)
    | _ => trivial
  · cases a with
    | advance nonce stamp =>
      intro cfg current seen r at' cell won
      exact ((stageOf inv at').2 r cell won).2.2
    | _ => trivial

/-- In every interleaving of plain Acquires, Renews and Releases whose overwrites and removals are unraced: no two
hosts believe at once, no write is over another holder, and a takeover is alone since its read. -/
theorem leaseExcludes (S : String) (cell : Cell) (now : Instant) (actions : List Action)
    (plain : ∀ a ∈ actions, Plain S a) (unraced : Along step Unraced (State.start cell now) actions) :
    Excludes (after step (State.start cell now) actions) ∧
      Along step (fun s a => Excludes s ∧ WritesAlone s a ∧ TakesAlone s a) (State.start cell now) actions := by
  have each : Along step (fun s a => Plain S a ∧ Unraced s a) (State.start cell now) actions :=
    fun visit mem => ⟨alongOfMem plain visit mem,unraced visit mem⟩
  have keep : ∀ s a, Inv S s → Plain S a ∧ Unraced s a → Inv S (step s a) := fun s a inv ok => invStep inv ok.1 ok.2
  refine ⟨invExcludes (invariantAfter keep (invStart S cell now) each),?_⟩
  exact alongMono (alongInvariant keep (invStart S cell now) each)
    fun s a ok => ⟨invExcludes ok.1,invAlone ok.1 ok.2.2⟩

def staleCell : Cell := .holds ⟨"host-c",0,second,"","nonce-c","store"⟩
def taker (host : String) : Config := ⟨host,"",60 * second,"store",false⟩

def bothTake : List Action :=
  [.acquire "nonce-a" (taker "host-a"),.acquire "nonce-b" (taker "host-b"),
   .advance "nonce-a" 0,.advance "nonce-b" 0,.advance "nonce-a" 0,.advance "nonce-b" 0,
   .advance "nonce-a" (2 * second),.advance "nonce-a" 0,.advance "nonce-b" (2 * second),.advance "nonce-b" 0]

theorem bothBelieve :
    (∀ a ∈ bothTake, Plain "store" a) ∧
    Believes (after step (State.start staleCell (2 * second)) bothTake) "host-a" ∧
    Believes (after step (State.start staleCell (2 * second)) bothTake) "host-b" := by
  refine ⟨?_,believesIff.mp ?_,believesIff.mp ?_⟩
  · simp [bothTake,Plain,PlainConfig,taker]
  · decide
  · decide

def takeAndRenew : List Action :=
  [.acquire "nonce-a" (taker "host-a"),.advance "nonce-a" 0,.advance "nonce-a" 0,.advance "nonce-a" (2 * second),
   .advance "nonce-a" 0,.begin 1 .renew "nonce-a",.finish 1 0,.finish 1 (2 * second)]

theorem takeAndRenewUnraced : Along step Unraced (State.start staleCell (2 * second)) takeAndRenew := by
  have others : ∀ (n : Nat) h, h ≠ "host-a" → update (fun _ => 0) "host-a" n h ≤ 0 := by
    intro n h other
    rw [update_of_ne other]
  refine alongCons.mpr ⟨trivial,alongCons.mpr ⟨trivial,alongCons.mpr ⟨trivial,
    alongCons.mpr ⟨fun _ _ => Nat.zero_le _,alongCons.mpr ⟨trivial,alongCons.mpr ⟨trivial,
    alongCons.mpr ⟨?_,alongCons.mpr ⟨?_,?_⟩⟩⟩⟩⟩⟩⟩⟩
  · intro _ _ unread
    cases unread
  · intro current seen read h other
    exact Nat.le_trans (others _ h other) (Nat.zero_le _)
  · intro _ none
    cases none

theorem takeAndRenewExcludes :
    (∀ a ∈ takeAndRenew, Plain "store" a) ∧
    Excludes (after step (State.start staleCell (2 * second)) takeAndRenew) ∧
      Along step (fun s a => Excludes s ∧ WritesAlone s a ∧ TakesAlone s a)
        (State.start staleCell (2 * second)) takeAndRenew := by
  have plain : ∀ a ∈ takeAndRenew, Plain "store" a := by simp [takeAndRenew,Plain,PlainConfig,taker]
  exact ⟨plain,leaseExcludes "store" staleCell (2 * second) takeAndRenew plain takeAndRenewUnraced⟩

def heartbeat (ttl : Nat) : Nat := if ttl / 2 = 0 then ttl else ttl / 2

/- The protocol seen from one lease, with the instant its record was last written at. -/
structure Watch where
  state : State
  since : Instant

section
variable (cfg : Config) (nonce : String)

def Rival (other : Config) : Prop := other.hostID ≠ cfg.hostID ∧ other.storeID = cfg.storeID ∧ other.force = false

def renews (s : State) (id : Nat) : Bool := (s.upkeep id).any fun call => call.nonce = nonce && call.read.isSome

def watch (w : Watch) (a : Action) : Watch where
  state := step w.state a
  since := match a with
    | .finish id stamp => if renews nonce w.state id then stamp else w.since
    | _ => w.since

/- Acquires are of other hosts of the store and without Force, and evaluate the record that is in the cell, within the TTL
of its writing; the lease is renewed only, at its heartbeats and without delay. -/
def Punctual (w : Watch) : Action → Prop
  | .tick _ => True
  | .acquire _ other => Rival cfg other
  | .advance id _ => ∀ other current seen, w.state.stage id = .deciding other current seen →
      w.state.cell = .holds current ∧ w.state.now < w.since + cfg.ttl
  | .begin _ kind lease => lease = nonce → kind = .renew
  | .finish id stamp => renews nonce w.state id → stamp = w.state.now ∧ stamp = w.since + heartbeat cfg.ttl

def Undecided : Stage → Prop
  | .reading other => Rival cfg other
  | .deciding other _ _ => Rival cfg other
  | .overwriting _ _ _ => False
  | _ => True

/- The lease's record is in the cell, and no other call goes by one it read before. -/
structure Kept (w : Watch) : Prop where
  cell : w.state.cell = .holds (record cfg nonce w.since)
  lease : ∃ prev, w.state.stage nonce = .granted cfg prev
  others : ∀ n, Undecided cfg (w.state.stage n)
  upkeeps : ∀ id call, w.state.upkeep id = some call →
    if call.nonce = nonce then call.cfg = cfg ∧ call.kind = .renew else call.read = none

def rival : Config := {cfg with hostID := cfg.hostID ++ "'", force := false}

variable {cfg nonce} {w : Watch} {t}

theorem rivalRefused {other nonce now} (rival : Rival cfg other) :
    refuses other (record cfg nonce t) now = true ↔ now < formatTime (t + cfg.ttl) * second := by
  obtain ⟨host,store,plain⟩ := rival
  have own : classifyStoreOwnership (record cfg nonce t).storeID other.storeID ≠ .foreign := by
    rw [store,classifyStoreOwnership]
    split
    · exact nofun
    · rw [if_pos (show (record cfg nonce t).storeID = cfg.storeID from rfl)]
      exact nofun
  have named : (record cfg nonce t).hostID ≠ other.hostID := host.symm
  have live : (record cfg nonce t).expired now = false ↔ now < formatTime (t + cfg.ttl) * second := by
    rw [Record.expired,decide_eq_false_iff_not,Nat.not_le]
    rfl
  rw [← live]
  simp [refuses,own,named,plain]

theorem wholeIff {n} : n ≤ formatTime n * second ↔ second ∣ n := by
  constructor
  · intro whole
    exact ⟨formatTime n,by rw [Nat.mul_comm]; exact Nat.le_antisymm whole (Nat.div_mul_le_self n second)⟩
  · intro whole
    exact (Nat.div_mul_cancel whole).ge

theorem keptStage {n stage s'} (kept : Kept cfg nonce w) (cell : s'.cell = w.state.cell)
    (upkeep : s'.upkeep = w.state.upkeep) (changed : s'.stage = update w.state.stage n stage)
    (open' : ∀ c p, w.state.stage n ≠ .granted c p) (undecided : Undecided cfg stage) : Kept cfg nonce ⟨s',w.since⟩ := by
  obtain ⟨prev,lease⟩ := kept.lease
  have other : nonce ≠ n := by
    rintro rfl
    exact open' _ _ lease
  refine ⟨cell.trans kept.cell,⟨prev,?_⟩,fun m => ?_,upkeep ▸ kept.upkeeps⟩
  · simp only [changed,update_of_ne other,lease]
  · simp only [changed,update_apply]
    split
    · exact undecided
    · exact kept.others m

theorem keptAdvance {n} (stamp) (whole : second ∣ w.since + cfg.ttl) (kept : Kept cfg nonce w)
    (ok : Punctual cfg nonce w (.advance n stamp)) : Kept cfg nonce ⟨advance w.state n stamp,w.since⟩ := by
  have undecided := kept.others n
  unfold advance
  cases at' : w.state.stage n with
  | reading other =>
    rw [at'] at undecided
    simp only [kept.cell]
    exact keptStage kept rfl rfl rfl (notGranted at' nofun) undecided
  | creating other =>
    simp only [kept.cell]
    exact keptStage kept rfl rfl rfl (notGranted at' nofun) trivial
  | deciding other current seen =>
    obtain ⟨same,early⟩ := ok other current seen at'
    rw [at'] at undecided
    cases Cell.holds.inj (same.symm.trans kept.cell)
    have refused : refuses other (record cfg nonce w.since) w.state.now = true :=
      (rivalRefused undecided).mpr (Nat.lt_of_lt_of_le early (wholeIff.mpr whole))
    simp only [refused,if_true]
    exact keptStage kept rfl rfl rfl (notGranted at' nofun) trivial
  | overwriting other current seen =>
    rw [at'] at undecided
    exact undecided.elim
  | verifying other current seen =>
    have lost : nonce ≠ n := by
      rintro rfl
      obtain ⟨prev,lease⟩ := kept.lease
      cases at'.symm.trans lease
    simp only [kept.cell]
    rw [if_neg (show (record cfg nonce w.since).nonce ≠ n from lost)]
    exact keptStage kept rfl rfl rfl (notGranted at' nofun) trivial
  | unused => exact kept
  | granted other prev => exact kept
  | failed err => exact kept

theorem keptFinish (id stamp) (kept : Kept cfg nonce w) :
    Kept cfg nonce ⟨finish w.state id stamp,if renews nonce w.state id then stamp else w.since⟩ := by
  have erased : ∀ n call, update w.state.upkeep id none n = some call →
      if call.nonce = nonce then call.cfg = cfg ∧ call.kind = .renew else call.read = none := by
    intro n call running
    rw [update_apply] at running
    split at running
    · cases running
    · exact kept.upkeeps n call running
  unfold finish renews
  cases running : w.state.upkeep id with
  | none => exact kept
  | some call =>
    have own := kept.upkeeps id call running
    obtain ⟨kind,holder,n,read⟩ := call
    simp only [Option.any_some]
    cases read with
    | none =>
      simp only [kept.cell,Option.isSome_none,Bool.and_false,Bool.false_eq_true,if_false]
      split
      next mine =>
        obtain ⟨_,rfl⟩ := mine
        refine ⟨rfl,kept.lease,kept.others,fun m call running' => ?_⟩
        simp only [update_apply] at running'
        split at running'
        · cases running'
          simpa [record] using own
        · exact kept.upkeeps m call running'
      · exact ⟨rfl,kept.lease,kept.others,erased⟩
    | some found =>
      have mine : n = nonce := by
        by_contra other
        rw [if_neg other] at own
        cases own
      subst mine
      rw [if_pos rfl] at own
      obtain ⟨rfl,rfl⟩ := own
      simp only [Option.isSome_some,Bool.and_true,decide_true,if_true]
      exact ⟨rfl,kept.lease,kept.others,erased⟩

theorem keptBegin (id kind n) (kept : Kept cfg nonce w) (ok : n = nonce → kind = .renew) :
    Kept cfg nonce ⟨begin w.state id kind n,w.since⟩ := by
  unfold begin
  split
  next other prev granted free =>
    refine ⟨kept.cell,kept.lease,kept.others,fun m call running => ?_⟩
    simp only [update_apply] at running
    split at running
    · cases running
      split
      next mine =>
        obtain ⟨_,lease⟩ := kept.lease
        obtain rfl : n = nonce := mine
        cases granted.symm.trans lease
        exact ⟨rfl,ok rfl⟩
      · rfl
    · exact kept.upkeeps m call running
  · exact kept

theorem keptWatch {a} (whole : second ∣ w.since + cfg.ttl) (kept : Kept cfg nonce w) (ok : Punctual cfg nonce w a) :
    Kept cfg nonce (watch nonce w a) := by
  cases a with
  | tick passed => exact ⟨kept.cell,kept.lease,kept.others,kept.upkeeps⟩
  | acquire n other =>
    simp only [watch,step,apply]
    split
    next unused =>
      refine keptStage kept rfl rfl rfl (notGranted unused nofun) ?_
      split
      · trivial
      · exact ok
    · exact ⟨kept.cell,kept.lease,kept.others,kept.upkeeps⟩
  | advance n stamp =>
    simp only [watch,step,apply]
    split
    · obtain ⟨cell,lease,others,upkeeps⟩ := keptAdvance stamp whole kept ok
      exact ⟨cell,lease,others,upkeeps⟩
    · exact ⟨kept.cell,kept.lease,kept.others,kept.upkeeps⟩
  | begin id kind n =>
    obtain ⟨cell,lease,others,upkeeps⟩ := keptBegin id kind n kept ok
    exact ⟨cell,lease,others,upkeeps⟩
  | finish id stamp =>
    simp only [watch,step,apply]
    split
    · obtain ⟨cell,lease,others,upkeeps⟩ := keptFinish id stamp kept
      exact ⟨cell,lease,others,upkeeps⟩
    next late =>
      have idle : ¬ renews nonce w.state id = true := fun own => late (ok own).1.le
      rw [if_neg idle]
      exact ⟨kept.cell,kept.lease,kept.others,kept.upkeeps⟩

def takeOver (cfg : Config) (n : String) : List Action :=
  [.acquire n (rival cfg),.advance n 0,.advance n 0,.advance n 0]

theorem takenOver {n} (positive : 0 < cfg.ttl) (cell : w.state.cell = .holds (record cfg nonce w.since))
    (free : w.state.stage n = .unused) (expired : formatTime (w.since + cfg.ttl) * second ≤ w.state.now)
    (early : w.state.now < w.since + cfg.ttl) :
    Along (watch nonce) (Punctual cfg nonce) w (takeOver cfg n) ∧
      (after (watch nonce) w (takeOver cfg n)).state.cell ≠ .holds (record cfg nonce w.since) := by
  have apart : Rival cfg (rival cfg) := ⟨by simp [rival],rfl,rfl⟩
  have asked : ¬ ((rival cfg).hostID = "" ∨ (rival cfg).ttl = 0) := by
    simp [rival,positive.ne']
  have passed : refuses (rival cfg) (record cfg nonce w.since) w.state.now = false := by
    rw [← Bool.not_eq_true,rivalRefused apart,Nat.not_lt]
    exact expired
  constructor
  · simp only [takeOver,alongCons]
    refine ⟨apart,?_,?_,?_,?_⟩
    · simp [watch,step,apply,free,setStage,asked,Punctual]
    · simp [watch,step,apply,free,setStage,asked,Punctual,advance,cell,early]
    · simp [watch,step,apply,free,setStage,asked,Punctual,advance,cell,passed]
    · simp [Along,visits]
  · have taken : (after (watch nonce) w (takeOver cfg n)).state.cell = .holds (record (rival cfg) n 0) := by
      simp [takeOver,after,watch,step,apply,free,setStage,asked,advance,cell,passed]
      split <;> rfl
    rw [taken]
    intro same
    exact apart.1 (congrArg Record.hostID (Cell.holds.inj same))

def alone (cfg : Config) (t : Instant) : Watch :=
  ⟨setStage (State.start (.holds (record cfg "" t)) t) "" (.granted cfg none),t⟩

theorem aloneKept : Kept cfg "" (alone cfg t) where
  cell := rfl
  lease := ⟨none,by simp [alone,setStage]⟩
  others n := by
    simp only [alone,setStage,State.start,update_apply]
    split <;> trivial
  upkeeps id call running := by cases running

def renewOnce (cfg : Config) (t : Instant) : List Action :=
  [.tick (heartbeat cfg.ttl),.begin 0 .renew "",.finish 0 0,.finish 0 (t + heartbeat cfg.ttl)]

variable (cfg t) in
theorem renewedOnce : Along (watch "") (Punctual cfg "") (alone cfg t) (renewOnce cfg t) ∧
    ∃ s, after (watch "") (alone cfg t) (renewOnce cfg t) = ⟨s,t + heartbeat cfg.ttl⟩ ∧ s.now = t + heartbeat cfg.ttl ∧
      s.cell = .holds (record cfg "" (t + heartbeat cfg.ttl)) ∧ s.stage "'" = .unused := by
  constructor
  · simp [renewOnce,Punctual,alone,setStage,State.start,watch,step,apply,begin,finish,renews,record,Along,visits]
  · simp [renewOnce,after,alone,setStage,State.start,watch,step,apply,begin,finish,renews,record,confirm]

/- A lease that lasts through every run has its expiry on a whole second wherever a run of its own renewals ends. -/
theorem wholeAt (positive : 0 < cfg.ttl)
    (lasts : ∀ actions, Along (watch "") (Punctual cfg "") (alone cfg t) actions →
      (after (watch "") (alone cfg t) actions).state.cell =
        .holds (record cfg "" (after (watch "") (alone cfg t) actions).since))
    (actions) {s u} (run : Along (watch "") (Punctual cfg "") (alone cfg t) actions)
    (reached : after (watch "") (alone cfg t) actions = ⟨s,u⟩) (now : s.now = u) (cell : s.cell = .holds (record cfg "" u))
    (free : s.stage "'" = .unused) : second ∣ u + cfg.ttl := by
  by_contra part
  rw [← wholeIff,Nat.not_le] at part
  obtain ⟨passed,late,short⟩ : ∃ n, formatTime (u + cfg.ttl) * second ≤ u + n ∧ n < cfg.ttl :=
    ⟨formatTime (u + cfg.ttl) * second - u,by omega,by omega⟩
  subst now
  obtain ⟨taking,taken⟩ := takenOver (w := watch "" ⟨s,s.now⟩ (.tick passed)) positive cell free late
    (Nat.add_lt_add_left short _)
  have run' : Along (watch "") (Punctual cfg "") (alone cfg t) (actions ++ .tick passed::takeOver cfg "'") := by
    rw [alongAppend,alongCons,reached]
    exact ⟨run,trivial,taking⟩
  have kept := lasts _ run'
  simp only [after,List.foldl_append,List.foldl_cons] at kept reached
  rw [reached] at kept
  exact taken kept

/-- A lease renewed at its heartbeats is in the cell throughout every run of other hosts' Acquires exactly if all its
expiries fall on whole seconds. -/
theorem lastsTtlExactly (cfg : Config) (t : Instant) (positive : 0 < cfg.ttl) :
    (∀ nonce s actions, Kept cfg nonce ⟨s,t⟩ → Along (watch nonce) (Punctual cfg nonce) ⟨s,t⟩ actions →
      let w := after (watch nonce) ⟨s,t⟩ actions
      w.state.cell = .holds (record cfg nonce w.since)) ↔ second ∣ t + cfg.ttl ∧ second ∣ heartbeat cfg.ttl := by
  constructor
  · intro lasts
    have lasts' := fun actions => lasts "" _ actions aloneKept
    have first : second ∣ t + cfg.ttl := wholeAt positive lasts' [] (by simp [Along,visits]) rfl rfl rfl
      (by simp [setStage,State.start])
    obtain ⟨renewing,s,reached,now,cell,free⟩ := renewedOnce cfg t
    have next := wholeAt positive lasts' _ renewing reached now cell free
    rw [Nat.add_right_comm] at next
    exact ⟨first,(Nat.dvd_add_right first).mp next⟩
  · rintro ⟨first,beat⟩ nonce s actions kept run
    have keep : ∀ w a, Kept cfg nonce w ∧ second ∣ w.since + cfg.ttl → Punctual cfg nonce w a →
        Kept cfg nonce (watch nonce w a) ∧ second ∣ (watch nonce w a).since + cfg.ttl := by
      rintro w a ⟨kept,whole⟩ ok
      refine ⟨keptWatch whole kept ok,?_⟩
      cases a with
      | finish id stamp =>
        simp only [watch]
        split
        next own =>
          rw [(ok own).2,Nat.add_right_comm]
          exact Nat.dvd_add whole beat
        · exact whole
      | _ => exact whole
    exact (invariantAfter keep ⟨kept,first⟩ run).1.cell

def tenths (n : Nat) : Nat := n * 100000000
def brief (host : String) : Config := ⟨host,"",second,"store",false⟩

theorem takenEarly :
    (after step (State.start .empty (tenths 9)) [.acquire "a" (brief "host-a"),.advance "a" 0,.advance "a" (tenths 9),.tick (tenths 1),
      .acquire "b" (brief "host-b"),.advance "b" 0,.advance "b" 0,.advance "b" (tenths 10),.advance "b" 0]).held "host-b" =
      some (tenths 20) := by decide

/- Renewed at 31 s, the lease of a minute stands at 90 s against an Acquire that reads and evaluates it. -/
def minute : List Action :=
  renewOnce (taker "a") second ++ .tick (59 * second)::(takeOver (taker "a") "'").take 3

theorem minutePunctual : Along (watch "") (Punctual (taker "a") "") (alone (taker "a") second) minute := by
  obtain ⟨renewing,s,reached,now,cell,free⟩ := renewedOnce (taker "a") second
  have asked : ¬ ((rival (taker "a")).hostID = "" ∨ (rival (taker "a")).ttl = 0) := by decide
  have early : 59 * second < (taker "a").ttl := by decide
  refine alongAppend.mpr ⟨renewing,?_⟩
  rw [reached]
  refine alongCons.mpr ⟨trivial,alongCons.mpr ⟨⟨by decide,rfl,rfl⟩,alongCons.mpr ⟨?_,alongCons.mpr ⟨?_,?_⟩⟩⟩⟩
  · simp [watch,step,apply,free,setStage,asked,Punctual]
  · simp [watch,step,apply,free,setStage,asked,Punctual,advance,cell,now,early,Nat.add_assoc]
  · simp [Along,visits]

theorem minuteLasts :
    Kept (taker "a") "" (alone (taker "a") second) ∧
    Along (watch "") (Punctual (taker "a") "") (alone (taker "a") second) minute ∧
    (after (watch "") (alone (taker "a") second) minute).state.cell =
      .holds (record (taker "a") "" (after (watch "") (alone (taker "a") second) minute).since) :=
  ⟨aloneKept,minutePunctual,
    (lastsTtlExactly (taker "a") second (by decide)).mpr (by decide) "" _ minute aloneKept minutePunctual⟩

end

end Scrinium.Lease
