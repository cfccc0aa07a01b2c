import Scrinium.NamedPublish

/-! Order of the claims on one name: they go up one by one, and the newest is the active version. -/
namespace Scrinium.PublishOrder
open List hiding after
open Keyed Domain LocalFs Named NamedPublish Trace
variable {name start s a}

section

def StageOk (name : String) (start top : Nat) : Stage → Prop
  | .creating _ _ _ next => validateName name = .ok () ∧ start < next ∧ next ≤ top + 1
  | .removing todo => ∀ old ∈ todo, old < top
  | _ => True

structure Inv (name : String) (start top : Nat) (s : State) : Prop where
  isTop : IsTop s.fs name top
  above : start ≤ top
  gone : ∀ seq ∈ s.removed, seq < top ∧ seq ∉ scanSeqs s.fs name
  filled : ∀ seq, start < seq → seq ≤ top → seq ∈ scanSeqs s.fs name ∨ seq ∈ s.removed
  logged : ∀ seq, start < seq → seq ≤ top → ∃ claim ∈ s.log, claim.seq = seq
  logBound : ∀ claim ∈ s.log, claim.seq ≤ top
  descending : s.log.Pairwise fun newer older => older.seq < newer.seq
  newest : ∀ claim ∈ s.log.head?, validateName name = .ok () ∧ claim.seq = top ∧ top ∈ scanSeqs s.fs name ∧
    get s.fs (versionFile name top) = .ok claim.body
  stages : ∀ id, StageOk name start top (s.calls id)

variable {top}

variable {stage id keep next body}

theorem stageMono (ok : StageOk name start top stage) : StageOk name start (top + 1) stage := by
  cases stage with
  | creating body keep attempt next => exact ⟨ok.1,ok.2.1,Nat.le_succ_of_le ok.2.2⟩
  | removing todo => exact fun old mem => Nat.lt_succ_of_lt (ok old mem)
  | _ => trivial

theorem invStart {fs} (isTop : IsTop fs name start) : Inv name start start (State.start fs) where
  isTop := isTop
  above := Nat.le_refl start
  gone := by simp [State.start]
  filled := by omega
  logged := by omega
  logBound := by simp [State.start]
  descending := .nil
  newest := by simp [State.start]
  stages := fun _ => trivial

theorem invEnters (inv : Inv name start top s) (reads : Enters name s id stage) :
    Inv name start top (setCall s id stage) := by
  refine {inv with stages := callsUpdated inv.stages ?_}
  cases stage with
  | creating body keep attempt next =>
    obtain ⟨valid,rfl⟩ := claimTargetOk reads inv.isTop
    exact ⟨valid,Nat.lt_succ_of_le inv.above,Nat.le_refl _⟩
  | removing todo =>
    rcases reads with ⟨keep,read⟩ | ⟨old,removing⟩
    · intro old mem
      obtain ⟨newest,there,older⟩ := pruneTargetsOk read old mem
      exact Nat.lt_of_lt_of_le older (inv.isTop.bound newest there)
    · have earlier := inv.stages id
      rw [removing] at earlier
      exact fun seq mem => earlier seq (mem_cons_of_mem old mem)
  | _ => trivial

theorem creatingStage {attempt} (inv : Inv name start top s) (creating : s.calls id = .creating body keep attempt next) :
    validateName name = .ok () ∧ start < next ∧ next ≤ top + 1 := by
  have stage := inv.stages id
  rwa [creating] at stage

theorem claimAtTop (inv : Inv name start top s) (range : start < next ∧ next ≤ top + 1)
    (free : versionFile name next ∉ s.fs) (unpruned : next ∉ s.removed) : next = top + 1 := by
  have absent : next ∉ scanSeqs s.fs name := fun mem => free (scanMem.mp mem).2.2
  have beyond : ¬ next ≤ top := fun within => (inv.filled next range.1 within).elim absent unpruned
  omega

theorem invClaims (now : Instant) (inv : Inv name start top s) (listed : listedName name = true)
    (valid : validateName name = .ok ()) (small : top + 1 < seqLimit) :
    Inv name start (top + 1) {setCall s id (.pruning keep) with
      fs := put s.fs (versionFile name (top + 1)) body now
      log := ⟨top + 1,body⟩::s.log} := by
  have grows : ∀ seq ∈ scanSeqs s.fs name, seq ∈ scanSeqs (put s.fs (versionFile name (top + 1)) body now) name := by
    intro seq mem
    obtain ⟨_,smaller,present⟩ := scanMem.mp mem
    exact scanPut.mpr ⟨listed,smaller,.inr present⟩
  have claimed := (topClaimed inv.isTop listed small body now).attained.resolve_right fun zero => by omega
  constructor
  · exact topClaimed inv.isTop listed small body now
  · exact Nat.le_succ_of_le inv.above
  · intro seq mem
    obtain ⟨below,absent⟩ := inv.gone seq mem
    refine ⟨Nat.lt_succ_of_lt below,fun there => ?_⟩
    obtain ⟨_,smaller,new | old⟩ := scanPut.mp there
    · have same := versionFileInjective smaller small new
      omega
    · exact absent (scanMem.mpr ⟨listed,smaller,old⟩)
  · intro seq after within
    rcases Nat.lt_or_eq_of_le within with earlier | rfl
    · exact (inv.filled seq after (Nat.le_of_lt_succ earlier)).imp_left (grows seq)
    · exact .inl claimed
  · intro seq after within
    rcases Nat.lt_or_eq_of_le within with earlier | rfl
    · obtain ⟨claim,mem,same⟩ := inv.logged seq after (Nat.le_of_lt_succ earlier)
      exact ⟨claim,mem_cons_of_mem _ mem,same⟩
    · exact ⟨_,mem_cons_self,rfl⟩
  · intro claim mem
    rcases mem_cons.mp mem with rfl | earlier
    · exact Nat.le_refl _
    · exact Nat.le_succ_of_le (inv.logBound claim earlier)
  · exact .cons (fun claim mem => Nat.lt_succ_of_le (inv.logBound claim mem)) inv.descending
  · intro claim head
    cases head
    exact ⟨valid,rfl,claimed,getOk.mpr ⟨_,(lookupInsert _ _ _ _).trans (if_pos rfl),rfl⟩⟩
  · exact callsUpdated (fun other => stageMono (inv.stages other)) trivial

theorem invPrunes {old rest} (inv : Inv name start top s) (removing : s.calls id = .removing (old::rest)) :
    Inv name start top {setCall s id (.removing rest) with
      fs := remove s.fs (versionFile name old)
      removed := old::s.removed} := by
  have doomed : ∀ seq ∈ old::rest, seq < top := by
    have stage := inv.stages id
    rwa [removing] at stage
  have older : old < top := doomed old mem_cons_self
  have kept : ∀ seq ∈ scanSeqs s.fs name, seq ≠ old → seq ∈ scanSeqs (remove s.fs (versionFile name old)) name := by
    intro seq mem differ
    have small := (scanMem.mp mem).2.1
    have topSmall : old < seqLimit := by
      rcases inv.isTop.attained with there | ⟨zero,_⟩
      · exact Nat.lt_trans older (scanMem.mp there).2.1
      · omega
    exact scanRemove.mpr ⟨mem,fun same => differ (versionFileInjective small topSmall same)⟩
  refine {inv with isTop := topPruned inv.isTop older, gone := ?_, filled := ?_, newest := ?_, stages := ?_}
  · intro seq mem
    rcases mem_cons.mp mem with rfl | earlier
    · exact ⟨older,fun there => (scanRemove.mp there).2 rfl⟩
    · obtain ⟨below,absent⟩ := inv.gone seq earlier
      exact ⟨below,fun there => absent (scanRemove.mp there).1⟩
  · intro seq after within
    by_cases same : seq = old
    · exact .inr (same ▸ mem_cons_self)
    · exact (inv.filled seq after within).imp (fun mem => kept seq mem same) (mem_cons_of_mem old)
  · intro claim head
    obtain ⟨valid,newest,there,data⟩ := inv.newest claim head
    have remains := kept top there (Nat.ne_of_gt older)
    obtain ⟨file,found,same⟩ := getOk.mp data
    refine ⟨valid,newest,remains,getOk.mpr ⟨file,?_,same⟩⟩
    rwa [remove,lookupErase,if_neg (scanRemove.mp remains).2]
  · exact callsUpdated inv.stages fun seq mem => doomed seq (mem_cons_of_mem old mem)

theorem invCells {now} (inv : Inv name start top s) :
    Inv name start top {setCall s id .returned with fs := put s.fs (cellFile name) body now} := by
  refine {inv with isTop := ?_, gone := ?_, filled := ?_, newest := ?_, stages := callsUpdated inv.stages trivial}
  · constructor
    · exact fun seq mem => inv.isTop.bound seq (scanCell.mp mem)
    · refine inv.isTop.attained.imp scanCell.mpr fun none' => ⟨none'.1,?_⟩
      exact eq_nil_iff_forall_not_mem.mpr fun seq mem => by simpa [none'.2] using scanCell.mp mem
  · exact fun seq mem => ⟨(inv.gone seq mem).1,fun there => (inv.gone seq mem).2 (scanCell.mp there)⟩
  · exact fun seq after within => (inv.filled seq after within).imp_left scanCell.mpr
  intro claim head
  obtain ⟨valid,newest,there,data⟩ := inv.newest claim head
  obtain ⟨file,found,same⟩ := getOk.mp data
  refine ⟨valid,newest,scanCell.mpr there,getOk.mpr ⟨file,?_,same⟩⟩
  rwa [put,lookupInsert,if_neg (cellNoVersion (scanMem.mp there).2.1)]

theorem invStep (listed : listedName name = true) (inv : Inv name start top s) (bounded : Bounded s a)
    (unpruned : Unpruned s a) : ∃ top', Inv name start top' (step name s a) := by
  generalize reached : step name s a = s'
  have moves := stepMoves name s a
  rw [reached] at moves
  cases moves with
  | stays => exact ⟨top,inv⟩
  | enters reads => exact ⟨top,invEnters inv reads⟩
  | claims creating targeted free =>
    have stage := creatingStage inv creating
    have small := bounded _ targeted
    cases claimAtTop inv stage.2 free (unpruned _ targeted)
    exact ⟨top + 1,invClaims _ inv listed stage.1 small⟩
  | prunes removing => exact ⟨top,invPrunes inv removing⟩
  | cells => exact ⟨top,invCells inv⟩

theorem targetCreating (targeted : target s a = some next) :
    ∃ id now body keep attempt, a = .advance id none now ∧ s.calls id = .creating body keep attempt next := by
  unfold target at targeted
  split at targeted
  · next id now =>
    split at targeted
    · next body keep attempt _ creating =>
      cases targeted
      exact ⟨id,now,body,keep,attempt,rfl,creating⟩
    · cases targeted
  · cases targeted

theorem claimsFree (valid : validateName name = .ok ()) (targeted : target s a = some next)
    (free : versionFile name next ∉ s.fs) : ∃ body, (step name s a).log = ⟨next,body⟩::s.log := by
  obtain ⟨id,now,body,keep,attempt,rfl,creating⟩ := targetCreating targeted
  have path : versionPath name next = .ok (versionFile name next) := by
    rw [versionPath,valid]
    rfl
  refine ⟨body,?_⟩
  simp only [step,advance,creating,create,path,putExclusive,if_neg free]

theorem newClaim {claim} (grew : (step name s a).log = claim::s.log) :
    target s a = some claim.seq ∧ versionFile name claim.seq ∉ s.fs := by
  generalize reached : step name s a = s' at grew
  have moves := stepMoves name s a
  rw [reached] at moves
  cases moves with
  | claims creating targeted free =>
    cases List.cons.inj grew |>.1
    exact ⟨targeted,free⟩
  | _ => exact absurd grew.symm (cons_ne_self claim s.log)

theorem risesExactly (listed : listedName name = true) (inv : Inv name start top s) (bounded : Bounded s a) :
    Rises name s a ↔ Unpruned s a := by
  constructor
  · intro rises next targeted pruned
    obtain ⟨id,now,body,keep,attempt,rfl,creating⟩ := targetCreating targeted
    have stage := creatingStage inv creating
    obtain ⟨below,absent⟩ := inv.gone next pruned
    have free : versionFile name next ∉ s.fs := fun there => absent (scanMem.mpr ⟨listed,bounded next targeted,there⟩)
    obtain ⟨claimed,grew⟩ := claimsFree stage.1 targeted free
    -- the removed seq was itself claimed in this run
    obtain ⟨earlier,mem,same⟩ := inv.logged next stage.2.1 (Nat.le_of_lt below)
    have higher : earlier.seq < next := rises _ grew earlier mem
    omega
  · intro unpruned claim grew earlier mem
    obtain ⟨targeted,free⟩ := newClaim grew
    obtain ⟨id,now,body,keep,attempt,rfl,creating⟩ := targetCreating targeted
    have stage := creatingStage inv creating
    rw [claimAtTop inv stage.2 free (unpruned _ targeted)]
    exact Nat.lt_succ_of_le (inv.logBound earlier mem)

end

def StageBlind : Stage → Prop
  | .creating _ _ _ next => next = 1
  | .removing todo => todo = []
  | _ => True

structure Blind (name : String) (s : State) : Prop where
  kept : s.removed = []
  single : s.log.length ≤ 1
  present : s.log ≠ [] → versionFile name 1 ∈ s.fs
  stages : ∀ id, StageBlind (s.calls id)

theorem blindTop (hidden : listedName name ≠ true) (fs : Fs) : IsTop fs name 0 :=
  ⟨by simp [scanUnlisted hidden],.inr ⟨rfl,scanUnlisted hidden⟩⟩

theorem blindEnters {id stage} (hidden : listedName name ≠ true) (blind : Blind name s)
    (reads : Enters name s id stage) : Blind name (setCall s id stage) := by
  refine {blind with stages := callsUpdated blind.stages ?_}
  cases stage with
  | creating body keep attempt next => exact (claimTargetOk reads (blindTop hidden s.fs)).2
  | removing todo =>
    rcases reads with ⟨keep,read⟩ | ⟨old,removing⟩
    · refine eq_nil_iff_forall_not_mem.mpr fun old mem => ?_
      obtain ⟨newest,there,_⟩ := pruneTargetsOk read old mem
      simp [scanUnlisted hidden] at there
    · have earlier := blind.stages id
      rw [removing] at earlier
      cases earlier
  | _ => trivial

theorem blindFirst (blind : Blind name s) {next} (targeted : target s a = some next)
    (free : versionFile name next ∉ s.fs) : next = 1 ∧ s.log = [] := by
  obtain ⟨id,now,body,keep,attempt,rfl,creating⟩ := targetCreating targeted
  have stage := blind.stages id
  rw [creating] at stage
  cases stage
  exact ⟨rfl,Classical.byContradiction fun some' => free (blind.present some')⟩

theorem blindStep (hidden : listedName name ≠ true) (blind : Blind name s) : Blind name (step name s a) := by
  generalize reached : step name s a = s'
  have moves := stepMoves name s a
  rw [reached] at moves
  cases moves with
  | stays => exact blind
  | enters reads => exact blindEnters hidden blind reads
  | claims creating targeted free =>
    obtain ⟨rfl,empty⟩ := blindFirst blind targeted free
    refine ⟨blind.kept,?_,fun _ => (AList.mem_insert _).mpr (.inl rfl),callsUpdated blind.stages trivial⟩
    simp [empty]
  | @prunes id old rest removing =>
    have stage := blind.stages id
    rw [removing] at stage
    cases stage
  | cells =>
    exact {blind with
      present := fun some' => (AList.mem_insert _).mpr (.inr (blind.present some'))
      stages := callsUpdated blind.stages trivial}

theorem blindExactly (blind : Blind name s) : Rises name s a ↔ Unpruned s a := by
  constructor
  · intro _ next _ pruned
    simp [blind.kept] at pruned
  · intro _ claim grew earlier mem
    obtain ⟨targeted,free⟩ := newClaim grew
    simp [(blindFirst blind targeted free).2] at mem

def Distinct (s : State) : Prop := (s.log.map Claim.seq).Nodup
instance (s : State) : Decidable (Distinct s) := inferInstanceAs (Decidable (s.log.map Claim.seq).Nodup)

def NewestActive (name : String) (s : State) : Prop :=
  ∀ claim ∈ s.log.head?, resolveActiveSeq s.fs name = .ok (some claim.seq) ∧
    get s.fs (versionFile name claim.seq) = .ok claim.body
instance (name : String) (s : State) : Decidable (NewestActive name s) :=
  inferInstanceAs (Decidable (∀ claim ∈ s.log.head?, resolveActiveSeq s.fs name = .ok (some claim.seq) ∧
    get s.fs (versionFile name claim.seq) = .ok claim.body))

def Ordered (name : String) (start : Nat) (s : State) : Prop :=
  if listedName name then ∃ top, Inv name start top s else Blind name s

theorem orderedStep (a : Action) (ordered : Ordered name start s) (ok : Unpruned s a ∧ Bounded s a) :
    Ordered name start (step name s a) := by
  unfold Ordered at ordered ⊢
  split at ordered
  · next listed =>
    obtain ⟨top,inv⟩ := ordered
    rw [if_pos listed]
    exact invStep listed inv ok.2 ok.1
  · next hidden =>
    rw [if_neg hidden]
    exact blindStep hidden ordered

theorem orderedExactly (a : Action) (ordered : Ordered name start s) :
    (Rises name s a ∧ Bounded s a) ↔ (Unpruned s a ∧ Bounded s a) := by
  refine and_congr_left fun bounded => ?_
  unfold Ordered at ordered
  split at ordered
  · next listed =>
    obtain ⟨top,inv⟩ := ordered
    exact risesExactly listed inv bounded
  · exact blindExactly ordered

theorem orderedStart (name : String) (fs : Fs) : ∃ start, Ordered name start (State.start fs) := by
  obtain ⟨top,isTop⟩ := topExists fs name
  refine ⟨top,?_⟩
  unfold Ordered
  split
  · exact ⟨top,invStart isTop⟩
  · exact ⟨rfl,Nat.zero_le _,fun some' => absurd rfl some',fun _ => trivial⟩

theorem orderedDistinct (ordered : Ordered name start s) : Distinct s := by
  unfold Ordered at ordered
  split at ordered
  · obtain ⟨top,inv⟩ := ordered
    exact pairwise_map.mpr (inv.descending.imp fun older => Nat.ne_of_gt older)
  · unfold Distinct
    have single := ordered.single
    match s.log, single with
    | [], _ => exact .nil
    | [claim], _ => exact nodup_singleton claim.seq

theorem orderedActive (listed : listedName name = true) (ordered : Ordered name start s) : NewestActive name s := by
  rw [Ordered,if_pos listed] at ordered
  obtain ⟨top,inv⟩ := ordered
  intro claim head
  obtain ⟨valid,same,there,data⟩ := inv.newest claim head
  rw [same,resolveActiveSeq,valid]
  exact ⟨congrArg Except.ok (activeSeqTop inv.isTop there),data⟩

/-- In any interleaving of Puts on one name each claim's seq is above all earlier ones exactly when no create is made
at a seq Prune has removed; the newest claim is then the active version. -/
theorem claimsRise (name : String) (fs : Fs) (actions : List Action)
    (bounded : Along (step name) Bounded (State.start fs) actions) :
    (Along (step name) (Rises name) (State.start fs) actions ↔
      Along (step name) Unpruned (State.start fs) actions) ∧
    (Along (step name) Unpruned (State.start fs) actions →
      Distinct (after (step name) (State.start fs) actions) ∧
      (listedName name = true → NewestActive name (after (step name) (State.start fs) actions))) := by
  obtain ⟨start,ordered⟩ := orderedStart name fs
  have keep : ∀ s a, Ordered name start s → Unpruned s a ∧ Bounded s a → Ordered name start (step name s a) :=
    fun s a => orderedStep a
  have both : Along (step name) (fun s a => Rises name s a ∧ Bounded s a) (State.start fs) actions ↔
      Along (step name) (fun s a => Unpruned s a ∧ Bounded s a) (State.start fs) actions :=
    alongIff keep (fun s a => orderedExactly a) ordered
  rw [alongAnd,alongAnd] at both
  constructor
  · exact ⟨fun rises => (both.mp ⟨rises,bounded⟩).1,fun unpruned => (both.mpr ⟨unpruned,bounded⟩).1⟩
  · intro unpruned
    have reached := invariantAfter keep ordered (alongAnd.mpr ⟨unpruned,bounded⟩)
    exact ⟨orderedDistinct reached,fun listed => orderedActive listed reached⟩

def advances (id count : Nat) : List Action := List.replicate count (.advance id none 0)

def racingRun : List Action :=
  .put 1 [1] none::.put 2 [2] none::(advances 1 1 ++ advances 2 1 ++ advances 1 3 ++ advances 2 6)

theorem racingClaimsRise :
    Along (step "config") Bounded (State.start ∅) racingRun ∧
    Along (step "config") (Rises "config") (State.start ∅) racingRun ∧
    Distinct (after (step "config") (State.start ∅) racingRun) ∧
    NewestActive "config" (after (step "config") (State.start ∅) racingRun) := by
  have bounded : Along (step "config") Bounded (State.start ∅) racingRun := by decide +kernel
  have unpruned : Along (step "config") Unpruned (State.start ∅) racingRun := by decide +kernel
  obtain ⟨rises,ordered⟩ := claimsRise "config" ∅ racingRun bounded
  obtain ⟨distinct,active⟩ := ordered unpruned
  exact ⟨bounded,rises.mpr unpruned,distinct,active (by decide +kernel)⟩

def beforeStale : List Action :=
  .put 3 [3] none::(advances 3 1 ++ .put 1 [1] none::(advances 1 4 ++ .put 2 [2] none::advances 2 5))

def staleState : State := after (step "config") (State.start ∅) (beforeStale ++ advances 3 4)

theorem stalePublishLost :
    Along (step "config") Bounded (State.start ∅) (beforeStale ++ advances 3 4) ∧
    ¬ Along (step "config") (Rises "config") (State.start ∅) (beforeStale ++ advances 3 4) ∧
    (∀ id ∈ [1,2,3], staleState.calls id = .returned) ∧ ¬ Distinct staleState ∧ ¬ NewestActive "config" staleState := by
  have claimed : (step "config" (after (step "config") (State.start ∅) beforeStale) (.advance 3 none 0)).log =
      ⟨1,[3]⟩::(after (step "config") (State.start ∅) beforeStale).log := by decide +kernel
  have earlier : ⟨2,[2]⟩ ∈ (after (step "config") (State.start ∅) beforeStale).log := by decide +kernel
  refine ⟨by decide +kernel,fun rises => ?_,by decide +kernel,by decide +kernel,by decide +kernel⟩
  have stale := (alongCons.mp (alongAppend.mp rises).2).1
  exact absurd (stale _ claimed _ earlier) (by decide)

end Scrinium.PublishOrder
