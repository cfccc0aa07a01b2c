import Scrinium.RollbackResume

/-! Refused rollbacks. The check reads the newest manifest of each listed handle; the Deletes take one manifest after the
other from under it. -/
namespace Scrinium.Rollback
open List hiding after
open Keyed Domain Layout LocalFs SqliteIndex Cas ManifestFiles Stamped Trace StoreRuns

def retained (now : Instant) (m : Manifest) : Bool := m.retentionUntil.any fun until' => now < until'

def above (tx : Index) (id : String) (row : ManifestRow) : Nat :=
  countWhere (fun _ other => decide (other.artifactID = some id) && decide (row.csn < other.csn)) tx.manifests

def Unretained (e : Engine) (s : State) (clock : Nat → Instant) (ids : List String) : Prop :=
  ∀ j id, ids[j]? = some id → ∀ key row m, s.index.manifests.lookup key = some row → row.artifactID = some id →
    above s.index id row = (ids.take j).count id → Filed e s.fs key row m → retained (clock j) m = false

def Unrefused (e : Engine) (cfg : StoreConfig) (s : State) (now : Instant) (sessionID : String) (ids : List String) : Prop :=
  sessionID ≠ "" ∧ cfg.deletionPolicy ≠ .noDelete ∧ ∀ id ∈ ids, ∀ key row m,
    Newest ManifestRow.artifactID ManifestRow.csn s.index.manifests id key row → Filed e s.fs key row m →
      retained now m = false

def RefusesWhole (e : Engine) (cfg : StoreConfig) (order : RowOrder) (clock : Nat → Instant) (s : State)
    (sessionID : String) : Prop :=
  ∀ s' err, rollbackSession e cfg order clock s sessionID = (s',.error err) →
    err = .retentionNotExpired ∨ err = .deletionForbidden →
    (∀ key ∈ s.index.manifests, key ∈ s'.index.manifests) ∧ ∀ path ∈ listObjects s.fs "manifests", path ∈ s'.fs

section
variable {e cfg clock s'} {s : State} {id path key row m ids}
theorem aboveNewest (found : s.index.manifests.lookup key = some row) (member : row.artifactID = some id) :
    above s.index id row = 0 ↔ NewestRow s.index id key row := by
  rw [above,countWhere,countP_eq_zero]
  constructor
  · intro none
    refine ⟨found,member,fun {other row'} known handle => ?_⟩
    have low := none ⟨other,row'⟩ (lookupEntry.mp known)
    simpa [handle] using low
  · intro newest entry mem both
    simp only [Bool.and_eq_true,decide_eq_true_eq] at both
    exact absurd (newest.top (lookupEntry.mpr mem) both.1) (Nat.not_le.mpr both.2)

theorem aboveDropped (d : Dropped s s' id key row path) (distinct : Distinct ManifestRow.csn s.index.manifests)
    {other row' id'} (found : s.index.manifests.lookup other = some row')
    (away : other ≠ key) (member : row'.artifactID = some id') :
    above s.index id' row' = above s'.index id' row' + if id = id' then 1 else 0 := by
  rw [above,above,droppedTable d,countErase _ d.newest.found,d.newest.member]
  by_cases same : id = id'
  · subst same
    have below : row'.csn < row.csn :=
      lt_of_le_of_ne (d.newest.top found member) fun equal => away (distinct found d.newest.found equal)
    simp [below]
  · simp [same]

theorem unretainedCons (stored : Stored e s) (d : Dropped s s' id key row path) (filed : Filed e s.fs key row m) :
    Unretained e s clock (id::ids) ↔
      retained (clock 0) m = false ∧ Unretained e s' (fun n => clock (n + 1)) ids := by
  have first := (aboveNewest d.newest.found d.newest.member).mpr d.newest
  have counts : ∀ j id', ((id::ids).take (j + 1)).count id' = (ids.take j).count id' + if id = id' then 1 else 0 := by
    intro j id'
    rw [take_succ_cons,count_cons]
    by_cases same : id = id' <;> simp [same]
  constructor
  · intro free
    refine ⟨free 0 id rfl key row m d.newest.found d.newest.member first filed,fun j id' listed other row' m' found
      member rank filed' => ?_⟩
    obtain ⟨away,found⟩ := droppedHeld d found
    refine free (j + 1) id' listed other row' m' found member ?_ (filedBefore (clearedDropped d) filed')
    rw [aboveDropped d stored.1.distinct found away member,rank,counts]
  · rintro ⟨now,later⟩ j id' listed other row' m' found member rank filed'
    cases j with
    | zero =>
      cases listed
      have newest := (aboveNewest found member).mp rank
      cases newestUnique stored.1.distinct newest d.newest
      rw [← filedUnique filed filed']
      exact now
    | succ j =>
      have away : other ≠ key := by
        rintro rfl
        cases someSame found d.newest.found
        cases someSame member d.newest.member
        rw [first,counts,if_pos rfl] at rank
        omega
      refine later j id' listed other row' m' (by rw [droppedLookup d,if_neg away,found]) member ?_
        (filedDropped d away filed')
      rw [aboveDropped d stored.1.distinct found away member,counts] at rank
      exact Nat.add_right_cancel rank

theorem deleteRetained (distinct : Distinct ManifestRow.csn s.index.manifests) {now}
    (newest : NewestRow s.index id key row)
    (filed : Filed e s.fs key row m) (held : retained now m = true) :
    Cas.delete e cfg s id now = (s,.error .retentionNotExpired) := by
  have refused : deleteChecks cfg (read key m) now = .error .retentionNotExpired := by
    unfold deleteChecks
    rw [if_neg (show (read key m).artifactID ≠ "" from filed.named)]
    exact if_pos held
  unfold Cas.delete
  simp only [loadNewest newest distinct filed,refused,bind,Except.bind]

theorem deleteAllExact (commit : DeletesCommit e) (policy : cfg.deletionPolicy ≠ .noDelete) (stored : Stored e s)
    (enough : ∀ g, ids.count g ≤ countWhere (fun _ row => decide (row.artifactID = some g)) s.index.manifests) :
    (Unretained e s clock ids → (deleteAll e cfg clock s ids).2 = .ok ()) ∧
      (¬ Unretained e s clock ids → (deleteAll e cfg clock s ids).2 = .error .retentionNotExpired) := by
  induction ids generalizing s clock with
  | nil => exact ⟨fun _ => rfl,fun held => absurd (fun j id listed => by cases listed) held⟩
  | cons id rest ih =>
    obtain ⟨key,row,newest⟩ := newestOf (listedKnown enough)
    obtain ⟨m,filed⟩ := stored.2 key row newest.found
    cases held : retained (clock 0) m with
    | true =>
      have refused : deleteAll e cfg clock s (id::rest) = (s,.error .retentionNotExpired) := by
        rw [deleteAll,deleteRetained stored.1.distinct newest filed held]
      refine ⟨fun free => ?_,fun _ => by rw [refused]⟩
      rw [free 0 id rfl key row m newest.found newest.member ((aboveNewest newest.found newest.member).mpr newest) filed]
        at held
      cases held
    | false =>
      obtain ⟨mid,path,done,d⟩ := deleteAllowed commit policy stored.1.distinct newest filed held
      rw [unretainedCons stored d filed,held,deleteAll,done]
      simpa using ih (storedDropped stored d) (enoughDropped d enough)

theorem deleteAllFewer (commit : DeletesCommit e) (mem : key ∈ (deleteAll e cfg clock s ids).1.index.manifests) :
    key ∈ s.index.manifests := by
  induction ids generalizing s clock with
  | nil => exact mem
  | cons id rest ih =>
    have fewer : key ∈ (Cas.delete e cfg s id (clock 0)).1.index.manifests → key ∈ s.index.manifests := by
      rcases deleteEnds commit (Prod.eta (Cas.delete e cfg s id (clock 0))).symm with ⟨same,_⟩ | ⟨_,_,_,_,d⟩
      · exact fun mem => same ▸ mem
      · exact droppedFewer d key
    unfold deleteAll at mem
    split at mem
    · next done => exact fewer (by rw [done]; exact ih mem)
    · next done => exact fewer (by rw [done]; exact ih mem)
    · next done => exact fewer (by rw [done]; exact mem)

theorem listedRows {order sessionID} (mem : id ∈ getBySession order s.index sessionID) :
    ∃ key row, s.index.manifests.lookup key = some row ∧ row.artifactID = some id := by
  have perm := perm_cons_erase mem
  exact listedKnown fun g => perm.count_eq g ▸ listedEnough order s.index sessionID g

theorem rollbackDeletes {order sessionID} (named : sessionID ≠ "") (policy : cfg.deletionPolicy ≠ .noDelete)
    (checked : retentionCheck e s (clock 0) (getBySession order s.index sessionID) = .ok ()) :
    rollbackSession e cfg order clock s sessionID =
      deleteAll e cfg (fun n => clock (n + 1)) s (getBySession order s.index sessionID) := by
  unfold rollbackSession
  rw [if_neg named]
  split
  · next empty => rw [empty,deleteAll]
  · simp only [checked,if_neg policy]

theorem checkExact (stored : Stored e s) {now}
    (known : ∀ id ∈ ids, ∃ key row, s.index.manifests.lookup key = some row ∧ row.artifactID = some id) :
    retentionCheck e s now ids = .ok () ↔ ∀ id ∈ ids, ∀ key row m,
      Newest ManifestRow.artifactID ManifestRow.csn s.index.manifests id key row → Filed e s.fs key row m →
        retained now m = false := by
  rw [retentionCheck,forMOk]
  refine forall₂_congr fun id mem => ?_
  obtain ⟨key,row,newest⟩ := newestOf (known id mem)
  obtain ⟨m,filed⟩ := stored.2 key row newest.found
  simp only [loadNewest newest stored.1.distinct filed,bind,Except.bind]
  have same : ((read key m).retentionUntil.any fun until' => now < until') = retained now m := rfl
  rw [same]
  constructor
  · intro passed other row' m' newest' filed'
    cases newestUnique stored.1.distinct newest' newest
    rw [← filedUnique filed filed']
    cases held : retained now m with
    | false => rfl
    | true => simp [held,throw,throwThe,MonadExceptOf.throw] at passed
  · intro free
    rw [free key row m newest filed]
    rfl

theorem retainedLater {now later} (past : retained now m = false) (order : now ≤ later) : retained later m = false := by
  cases until' : m.retentionUntil with
  | none => simp [retained,until']
  | some term =>
    simp only [retained,until',Option.any_some,decide_eq_false_iff_not,not_lt] at past ⊢
    exact le_trans past order

theorem firstGone (commit : DeletesCommit e) (policy : cfg.deletionPolicy ≠ .noDelete) (stored : Stored e s)
    (newest : Newest ManifestRow.artifactID ManifestRow.csn s.index.manifests id key row) (filed : Filed e s.fs key row m)
    (past : retained (clock 0) m = false) : key ∉ (deleteAll e cfg clock s (id::ids)).1.index.manifests := by
  obtain ⟨mid,path,done,d⟩ := deleteAllowed commit policy stored.1.distinct newest filed past
  intro still
  rw [deleteAll,done] at still
  obtain ⟨row',left⟩ := memLookup.mp (deleteAllFewer commit still)
  rw [droppedLookup d,if_pos rfl] at left
  cases left

theorem rollbackRefused {order sessionID err} (done : rollbackSession e cfg order clock s sessionID = (s',.error err)) :
    s' = s ∨ sessionID ≠ "" ∧ cfg.deletionPolicy ≠ .noDelete ∧
      retentionCheck e s (clock 0) (getBySession order s.index sessionID) = .ok () ∧
      deleteAll e cfg (fun n => clock (n + 1)) s (getBySession order s.index sessionID) = (s',.error err) := by
  unfold rollbackSession at done
  split at done
  · cases done
    exact .inl rfl
  next named =>
  split at done
  · cases done
  split at done
  · cases done
    exact .inl rfl
  next passed =>
  split at done
  · cases done
    exact .inl rfl
  next policy => exact .inr ⟨named,policy,passed,done⟩

end

/-- A refusal leaves every manifest row and file where it was exactly if, once the call has passed its checks,
no manifest that its Deletes come to is under retention. -/
theorem refusalAtomicExactly {e : Engine} (codec : Codec e) (commit : DeletesCommit e) (ops : List StoreOp)
    (legible : Along (advance e) (PutsLegible e) emptyStore ops) (cfg : StoreConfig) (order : RowOrder) (clock : Nat → Instant)
    (forward : ∀ n, clock 0 ≤ clock n) (sessionID : String) :
    let s := after (advance e) emptyStore ops
    let ids := getBySession order s.index sessionID
    RefusesWhole e cfg order clock s sessionID ↔
      (Unrefused e cfg s (clock 0) sessionID ids → Unretained e s (fun n => clock (n + 1)) ids) := by
  intro s ids
  have stored : Stored e s := (settledRun codec commit legible).stored
  have enough := listedEnough order s.index sessionID
  have checked : retentionCheck e s (clock 0) ids = .ok () ↔ _ := checkExact stored fun id => listedRows
  constructor
  · rintro whole ⟨named,policy,free⟩
    by_contra held
    have refused := (deleteAllExact commit policy stored enough).2 held
    cases listed : ids with
    | nil => exact held (by rw [listed]; exact fun j id none => by cases none)
    | cons id rest =>
      have result := rollbackDeletes named policy (checked.mpr free)
      have here : id ∈ ids := by rw [listed]; exact mem_cons_self
      obtain ⟨key,row,newest⟩ := newestOf (listedRows here)
      obtain ⟨m,filed⟩ := stored.2 key row newest.found
      -- what is free at the check is free at the first Delete, which therefore goes through
      have first : retained (clock 1) m = false := retainedLater (free id here key row m newest filed) (forward 1)
      have still := (whole _ _ (result.trans (Prod.ext rfl refused)) (.inl rfl)).1 key (memLookup.mpr ⟨row,newest.found⟩)
      change key ∈ (deleteAll e cfg _ s ids).1.index.manifests at still
      rw [listed] at still
      exact firstGone commit policy stored newest filed first still
  · intro free s' err done refused
    rcases rollbackRefused done with rfl | ⟨named,policy,passed,stopped⟩
    · exact ⟨fun _ mem => mem,fun path listed => (mem_filter.mp listed).1⟩
    · have ok := (deleteAllExact commit policy stored enough).1 (free ⟨named,policy,checked.mp passed⟩)
      rw [stopped] at ok
      cases ok

def termed : List Manifest := [{noted "a" (10 * second) with retentionUntil := some (100 * second)},noted "a" (20 * second)]

def termedOps : List StoreOp :=
  [.put coalescing {(sessionPut "a" (10 * second)).2 with retentionUntil := some (100 * second)},
    .put coalescing (sessionPut "a" (20 * second)).2]

theorem refusalRemovesOne :
    let s := after (advance (tabled termed)) emptyStore termedOps
    let rolled := rollbackSession (tabled termed) coalescing .stored (fun _ => 30 * second) s "a"
    rolled.2 = .error .retentionNotExpired ∧ s.index.manifests.keys.length = 2 ∧ rolled.1.index.manifests.keys.length = 1 := by
  decide +kernel

theorem oneTermRefused : RefusesWhole (tabled termed) coalescing .stored (fun _ => 30 * second)
    (after (advance (tabled termed)) emptyStore (termedOps.take 1)) "a" := by
  have legible : Along (advance (tabled termed)) (PutsLegible (tabled termed)) emptyStore (termedOps.take 1) := by decide +kernel
  refine (refusalAtomicExactly (tabledCodec _) (tabledCommit _) (termedOps.take 1) legible coalescing .stored
    (fun _ => 30 * second) (fun _ => le_refl _) "a").mpr fun unrefused => ?_
  have stored : Stored _ (after _ emptyStore (termedOps.take 1)) := (settledRun (tabledCodec _) (tabledCommit _) legible).stored
  have passed := (checkExact stored fun id => listedRows).mpr unrefused.2.2
  exact absurd passed (by decide +kernel)

end Scrinium.Rollback
