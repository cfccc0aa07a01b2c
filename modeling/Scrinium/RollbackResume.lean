import Scrinium.RollbackFrame

/-! RollbackSession cut short. Its steps are the removals of files and the deletions of rows, two per handle, and a crash
leaves the state between two. -/
namespace Scrinium.Rollback
open List hiding after
open Keyed Domain Layout LocalFs SqliteIndex Cas StoreRuns ManifestFiles Stamped Trace Orphanscan Reconciliation
open IndexCompleteness (SameManifests reconcileVisits visited)

def deleteSteps (e : Engine) (cfg : StoreConfig) (s : State) (id : String) (now : Instant) : List State :=
  match (do
    let m ← load e s id
    deleteChecks cfg m now
    return (m.digest,← manifestPath m.digest)) with
  | .error _ => []
  | .ok (digest,path) =>
    let unlinked := {s with fs := remove s.fs path}
    match deleteManifest e.indexes s.index digest with
    | .error _ => [unlinked]
    | .ok tx => [unlinked,{unlinked with index := tx}]

def deleteAllSteps (e : Engine) (cfg : StoreConfig) : (clock : Nat → Instant) → State → List String → List State
  | _, _, [] => []
  | clock, s, id::rest =>
    deleteSteps e cfg s id (clock 0) ++
      match Cas.delete e cfg s id (clock 0) with
      | (s,.ok ()) => deleteAllSteps e cfg (fun n => clock (n + 1)) s rest
      | (s,.error .artifactNotFound) => deleteAllSteps e cfg (fun n => clock (n + 1)) s rest
      | (_,.error _) => []

def rollbackSteps (e : Engine) (cfg : StoreConfig) (order : RowOrder) (clock : Nat → Instant) (s : State)
    (sessionID : String) : List State :=
  if sessionID = "" then []
  else match getBySession order s.index sessionID with
    | [] => []
    | ids =>
      match retentionCheck e s (clock 0) ids with
      | .error _ => []
      | .ok () =>
        if cfg.deletionPolicy = .noDelete then []
        else deleteAllSteps e cfg (fun n => clock (n + 1)) s ids

variable {e cfg}

theorem deleteStepsLast (e : Engine) (cfg : StoreConfig) (s : State) (id : String) (now : Instant) :
    (deleteSteps e cfg s id now).getLastD s = (Cas.delete e cfg s id now).1 := by
  unfold deleteSteps Cas.delete
  generalize (do
    let m ← load e s id
    deleteChecks cfg m now
    return (m.digest,← manifestPath m.digest)) = checked
  cases checked with
  | error err => rfl
  | ok pair =>
    obtain ⟨digest,path⟩ := pair
    simp only
    cases deleteManifest e.indexes s.index digest with
    | error err => rfl
    | ok tx => rfl

theorem lastAppend {σ : Type} (first second : List σ) (s : σ) :
    (first ++ second).getLastD s = second.getLastD (first.getLastD s) := by
  induction first generalizing s with
  | nil => rfl
  | cons a rest ih =>
    rw [cons_append,getLastD_cons,getLastD_cons]
    exact ih a

theorem deleteAllStepsLast (clock : Nat → Instant) (s : State) (ids : List String) :
    (deleteAllSteps e cfg clock s ids).getLastD s = (deleteAll e cfg clock s ids).1 := by
  induction ids generalizing s clock with
  | nil => rfl
  | cons id rest ih =>
    unfold deleteAllSteps deleteAll
    rw [lastAppend,deleteStepsLast]
    generalize Cas.delete e cfg s id (clock 0) = pair
    obtain ⟨mid,outcome⟩ := pair
    cases outcome with
    | ok done => exact ih _ mid
    | error err =>
      cases err with
      | artifactNotFound => exact ih _ mid
      | _ => rfl

theorem rollbackStepsLast (order : RowOrder) (clock : Nat → Instant) (s : State) (sessionID : String) :
    (rollbackSteps e cfg order clock s sessionID).getLastD s = (rollbackSession e cfg order clock s sessionID).1 := by
  unfold rollbackSteps rollbackSession
  by_cases empty : sessionID = ""
  · rw [if_pos empty,if_pos empty]
    rfl
  rw [if_neg empty,if_neg empty]
  cases getBySession order s.index sessionID with
  | nil => rfl
  | cons id rest =>
    simp only
    cases retentionCheck e s (clock 0) (id::rest) with
    | error err => rfl
    | ok checked =>
      simp only
      split
      · rfl
      · exact deleteAllStepsLast _ s _

theorem deleteStepsCases (cfg : StoreConfig) (commit : DeletesCommit e) (s : State) (id : String) (now : Instant) :
    deleteSteps e cfg s id now = [] ∨ ∃ s' key row path, Cas.delete e cfg s id now = (s',.ok ()) ∧
      Dropped s s' id key row path ∧ deleteSteps e cfg s id now = [{s with fs := remove s.fs path},s'] := by
  cases checked : (do
    let m ← load e s id
    deleteChecks cfg m now
    return (m.digest,← manifestPath m.digest) : Except Error (String × String)) with
  | error err =>
    unfold deleteSteps
    rw [checked]
    exact .inl rfl
  | ok pair =>
    obtain ⟨digest,place⟩ := pair
    obtain ⟨m,loaded,rest⟩ := bindOk.mp checked
    obtain ⟨_,_,rest⟩ := bindOk.mp rest
    obtain ⟨_,_,last⟩ := bindOk.mp rest
    cases last
    obtain ⟨key,_,spelled,_⟩ := resolvesNewest (loadResolved loaded).1
    obtain ⟨tx,done⟩ := commit s.index key
    rw [← spelled] at done
    have ended : Cas.delete e cfg s id now = (⟨remove s.fs place,tx⟩,.ok ()) := by
      unfold Cas.delete
      rw [checked]
      simp only [done]
    obtain ⟨k,row,path,d⟩ := deleteDropped ended
    refine .inr ⟨_,k,row,path,ended,d,?_⟩
    have same : remove s.fs place = remove s.fs path := d.fs
    unfold deleteSteps
    rw [checked]
    simp only [done,same]

variable {s'} {s t : State} {ids clock id path key row}

section
variable {mid gs}
structure Between (e : Engine) (s t : State) (gs : List String) : Prop where
  popped : Popped ManifestRow.artifactID ManifestRow.csn s.index.manifests gs t.index.manifests
  stored : Stored e t
  known : FilesKnown t
  cleared : Cleared s t
  fewer : ∀ key ∈ t.index.manifests, key ∈ s.index.manifests

inductive Crashed (e : Engine) (s : State) (ids : List String) (t : State) : Prop where
  | between {gs rest} (listed : ids = gs ++ rest) (at' : Between e s t gs)
  | unlinked {gs id rest mid key row path} (listed : ids = gs ++ id::rest) (at' : Between e s mid gs)
      (newest : Newest ManifestRow.artifactID ManifestRow.csn mid.index.manifests id key row)
      (laid : manifestPath (hexOut key) = .ok path) (left : t = {mid with fs := remove mid.fs path})

theorem betweenRefl (stored : Stored e s) (known : FilesKnown s) : Between e s s [] :=
  ⟨.done _,stored,known,clearedRefl s,fun _ mem => mem⟩

theorem betweenCons (d : Dropped s s' id key row path) (later : Between e s' t gs) : Between e s t (id::gs) where
  popped := by
    exact .pop d.newest (droppedTable d ▸ later.popped)
  stored := later.stored
  known := later.known
  cleared := clearedTrans (clearedDropped d) later.cleared (droppedFewer d) later.fewer
  fewer := fun other mem => droppedFewer d other (later.fewer other mem)

theorem crashedCons (d : Dropped s s' id key row path) (later : Crashed e s' ids t) : Crashed e s (id::ids) t := by
  cases later with
  | between listed at' => exact .between (by rw [listed]; rfl) (betweenCons d at')
  | unlinked listed at' newest laid left => exact .unlinked (by rw [listed]; rfl) (betweenCons d at') newest laid left

theorem crashCases (commit : DeletesCommit e) (stored : Stored e s) (known : FilesKnown s)
    (enough : ∀ id, ids.count id ≤ countWhere (fun _ row => decide (row.artifactID = some id)) s.index.manifests)
    (crash : t ∈ s::deleteAllSteps e cfg clock s ids) : Crashed e s ids t := by
  induction ids generalizing s clock with
  | nil =>
    cases mem_singleton.mp crash
    exact .between rfl (betweenRefl stored known)
  | cons id rest ih =>
    rcases mem_cons.mp crash with rfl | step
    · exact .between (nil_append _).symm (betweenRefl stored known)
    unfold deleteAllSteps at step
    rcases deleteStepsCases cfg commit s id (clock 0) with none | ⟨s',key,row,path,done,d,steps⟩
    · -- no step was taken, so the Delete was refused, and not for a missing artifact
      have same := deleteStepsLast e cfg s id (clock 0)
      have finds := deleteFinds cfg (commitQuiet commit) stored (listedKnown enough) (clock 0)
      rw [none] at same step
      generalize done : Cas.delete e cfg s id (clock 0) = pair at same finds step
      obtain ⟨s',outcome⟩ := pair
      cases same
      cases outcome with
      | ok ended =>
        obtain ⟨key,row,path,d⟩ := deleteDropped done
        have gone := droppedLookup d key
        rw [if_pos rfl,d.newest.found] at gone
        cases gone
      | error err =>
        cases err with
        | artifactNotFound => exact absurd rfl finds
        | _ => cases step
    · rw [steps,done] at step
      rcases mem_append.mp step with inside | later
      · rcases mem_cons.mp inside with rfl | last
        · exact .unlinked (nil_append _).symm (betweenRefl stored known) d.newest d.laid rfl
        · cases mem_singleton.mp last
          exact crashedCons d (.between (nil_append _).symm (betweenRefl (storedDropped stored d) (knownDropped known d)))
      · exact crashedCons d (ih (storedDropped stored d) (knownDropped known d) (enoughDropped d enough)
          (mem_cons_of_mem _ later))

end

variable {t' sessionID}

section
variable {f}

variable {fs}

theorem visitedListed (mem : path ∈ visited f fs) : path ∈ listObjects fs "manifests" := by
  unfold visited at mem
  split at mem
  · cases mem
  · exact ( takeWhile_prefix _).subset mem

def FilesIndexed (s : State) : Prop :=
  ∀ path ∈ listObjects s.fs "manifests", ∃ key ∈ s.index.manifests, manifestPath (hexOut key) = .ok path

theorem knownIndexed (known : FilesKnown s) : FilesIndexed s := by
  intro path listed
  exact known path (mem_filter.mp listed).1 (listedHead listed)

theorem examineKnown {ing p} (mem : key ∈ p.state.index.manifests)
    (laid : manifestPath (hexOut key) = .ok path) : (examine f (some ing) p path).state = p.state := by
  generalize reached : examine f (some ing) p path = p'
  cases examined reached with
  | noted err => rfl
  | known => rfl
  | ingested parsed sound bound spelled new read =>
    cases HexText.encodeInjective (spelled.trans (pathParses laid parsed))
    exact absurd mem new
  | removed parsed sound bound spelled new fragment gone =>
    cases HexText.encodeInjective (spelled.trans (pathParses laid parsed))
    exact absurd mem new

theorem reconcileIdle (indexed : FilesIndexed t) (f : Faults) (ing : Ingester) :
    SameManifests t (reconcile f (some ing) t).1.state ∧
      listObjects (reconcile f (some ing) t).1.state.fs "manifests" = listObjects t.fs "manifests" := by
  obtain ⟨p0,swept,visits⟩ := reconcileVisits f ing t
  have idle : ∀ paths : List String, (∀ path ∈ paths, ∃ key ∈ p0.state.index.manifests, manifestPath (hexOut key) = .ok path) →
      ∀ p : Pass, p.state = p0.state → (paths.foldl (examine f (some ing)) p).state = p0.state := by
    intro paths
    induction paths with
    | nil => exact fun _ p same => same
    | cons path rest ih =>
      intro all p same
      obtain ⟨key,mem,laid⟩ := all path mem_cons_self
      rw [foldl_cons]
      refine ih (fun other inside => all other (mem_cons_of_mem path inside)) _ ?_
      rw [examineKnown (same ▸ mem) laid,same]
  have same := idle (visited f t.fs) (fun path mem => by
    rw [swept.index]
    exact indexed path (visitedListed mem)) p0 rfl
  rw [visits,same]
  exact ⟨IndexCompleteness.sweptSame swept,swept.listing⟩

theorem filedSame {row m} (same : SameManifests t t') : Filed e t.fs key row m ↔ Filed e t'.fs key row m := by
  have one : ∀ {a b : State}, SameManifests a b → Filed e a.fs key row m → Filed e b.fs key row m := by
    intro a b same filed
    obtain ⟨path,file,laid,found,rest⟩ := filed.file
    exact ⟨⟨path,file,laid,(same.files _ path laid).symm.trans found,rest⟩,filed.handle,filed.named,filed.session⟩
  exact ⟨one same,one (IndexCompleteness.sameSymm same)⟩

theorem storedSame (same : SameManifests t t') (stored : Stored e t) : Stored e t' := by
  refine ⟨same.index ▸ stored.1,fun key row found => ?_⟩
  obtain ⟨m,filed⟩ := stored.2 key row (same.index ▸ found)
  exact ⟨m,(filedSame same).mp filed⟩

theorem indexedSame (same : SameManifests t t') (listing : listObjects t'.fs "manifests" = listObjects t.fs "manifests")
    (indexed : FilesIndexed t) : FilesIndexed t' := by
  intro path listed
  rw [listing] at listed
  exact same.index ▸ indexed path listed

end

variable {order}

section

def NoRetention (e : Engine) (s : State) (sessionID : String) (clock : Nat → Instant) : Prop :=
  ∀ key row m, s.index.manifests.lookup key = some row → row.sessionID = sessionID → Filed e s.fs key row m →
    ∀ n, (m.retentionUntil.any fun until' => clock n < until') = false

def RowsFiled (s : State) : Prop :=
  ∀ key ∈ s.index.manifests, ∀ path, manifestPath (hexOut key) = .ok path → path ∈ s.fs

theorem storedFiled (stored : Stored e s) : RowsFiled s := by
  intro key mem path laid
  obtain ⟨row,found⟩ := memLookup.mp mem
  obtain ⟨m,filed⟩ := stored.2 key row found
  obtain ⟨place,file,laid',held,_⟩ := filed.file
  cases okSame laid laid'
  exact memLookup.mpr ⟨file,held⟩

variable {m}

theorem filedBefore (cleared : Cleared s t) (filed : Filed e t.fs key row m) : Filed e s.fs key row m := by
  obtain ⟨path,file,laid,found,rest⟩ := filed.file
  refine ⟨⟨path,file,laid,?_,rest⟩,filed.handle,filed.named,filed.session⟩
  rw [← found]
  refine (cleared.kept path fun other known absent laid' => ?_).symm
  rw [cleared.gone other path known absent laid'] at found
  cases found

theorem retentionCleared (cleared : Cleared s t)
    (rows : ∀ key row, t.index.manifests.lookup key = some row → s.index.manifests.lookup key = some row)
    (free : NoRetention e s sessionID clock) : NoRetention e t sessionID clock :=
  fun key row m found session filed => free key row m (rows key row found) session (filedBefore cleared filed)

theorem indexedCleared (cleared : Cleared s t) (indexed : FilesIndexed s) : FilesIndexed t := by
  intro path listed
  obtain ⟨present,under⟩ := mem_filter.mp listed
  obtain ⟨file,held⟩ := memLookup.mp present
  have away : ∀ other, other ∈ s.index.manifests → other ∉ t.index.manifests → manifestPath (hexOut other) ≠ .ok path := by
    intro other known gone laid
    rw [cleared.gone other path known gone laid] at held
    cases held
  have before : path ∈ s.fs := memLookup.mpr ⟨file,(cleared.kept path away).symm.trans held⟩
  obtain ⟨key,known,laid⟩ := indexed path (mem_filter.mpr ⟨before,under⟩)
  refine ⟨key,?_,laid⟩
  by_contra absent
  exact away key known absent laid

theorem newestSub (rows : ∀ key row, t.index.manifests.lookup key = some row → s.index.manifests.lookup key = some row)
    (newest : SessionNewest s.index sessionID) : SessionNewest t.index sessionID :=
  fun key row other row' id found found' => newest key row other row' id (rows key row found) (rows other row' found')

theorem newestMine (newest : SessionNewest s.index sessionID)
    (top : NewestRow s.index id key row)
    (mine : ∃ key row, s.index.manifests.lookup key = some row ∧ row.sessionID = sessionID ∧ row.artifactID = some id) :
    row.sessionID = sessionID := by
  by_contra foreign
  obtain ⟨other,row',found,session,handle⟩ := mine
  have below := newest other row' key row id found top.found handle top.member session foreign
  exact absurd (top.top found handle) (Nat.not_le.mpr below)

theorem deleteAllowed (commit : DeletesCommit e) (policy : cfg.deletionPolicy ≠ .noDelete)
    (distinct : Distinct ManifestRow.csn s.index.manifests) {now}
    (newest : NewestRow s.index id key row)
    (filed : Filed e s.fs key row m) (free : (m.retentionUntil.any fun until' => now < until') = false) :
    ∃ s' path, Cas.delete e cfg s id now = (s',.ok ()) ∧ Dropped s s' id key row path := by
  obtain ⟨path,_,laid,_⟩ := filed.file
  obtain ⟨tx,committed⟩ := commit s.index key
  have place : manifestPath (read key m).digest = .ok path := laid
  have allowed : deleteChecks cfg (read key m) now = .ok () := by
    unfold deleteChecks
    have expired : (read key m).retentionUntil.any (fun until' => now < until') ≠ true := by
      rw [ManifestFiles.read,free]
      exact Bool.false_ne_true
    rw [if_neg (show (read key m).artifactID ≠ "" from filed.named),if_neg expired,if_neg policy]
  have done : Cas.delete e cfg s id now = ({s with fs := remove s.fs path, index := tx},.ok ()) := by
    unfold Cas.delete
    simp only [loadNewest newest distinct filed,allowed,place,bind,Except.bind,pure,Except.pure]
    rw [show (read key m).digest = hexOut key from rfl,committed]
  obtain ⟨key',row',path',d⟩ := deleteDropped done
  cases newestUnique distinct d.newest newest
  cases someSame d.newest.found newest.found
  exact ⟨_,path',done,d⟩

def Listed (tx : Index) (sessionID : String) (ids : List String) : Prop :=
  ∀ id, ids.count id =
    countWhere (fun _ row => decide (row.sessionID = sessionID) && decide (row.artifactID = some id)) tx.manifests

theorem listedMine {tx} (listed : Listed tx sessionID ids) (mem : id ∈ ids) :
    ∃ key row, tx.manifests.lookup key = some row ∧ row.sessionID = sessionID ∧ row.artifactID = some id := by
  have some' := count_pos_iff.mpr mem
  rw [listed id] at some'
  obtain ⟨entry,inside,both⟩ := countP_pos_iff.mp some'
  simp only [Bool.and_eq_true,decide_eq_true_eq] at both
  exact ⟨entry.1,entry.2,lookupEntry.mpr inside,both⟩

theorem listedDropped (d : Dropped s s' id key row path) (session : row.sessionID = sessionID)
    (listed : Listed s.index sessionID (id::ids)) : Listed s'.index sessionID ids := by
  intro g
  have all := listed g
  rw [countErase _ d.newest.found,count_cons,d.newest.member,decide_eq_true session,Bool.true_and] at all
  rw [droppedTable d]
  by_cases same : id = g
  · simpa [same] using all
  · simpa [same] using all

theorem sessionTop (stored : Stored e s) (listed : Listed s.index sessionID ids) (newest : SessionNewest s.index sessionID)
    (mem : id ∈ ids) : ∃ key row m, NewestRow s.index id key row ∧
      row.sessionID = sessionID ∧ Filed e s.fs key row m := by
  have mine := listedMine listed mem
  obtain ⟨key,row,top⟩ := newestOf (mine.imp fun _ => .imp fun _ held => ⟨held.1,held.2.2⟩)
  obtain ⟨m,filed⟩ := stored.2 key row top.found
  exact ⟨key,row,m,top,newestMine newest top mine,filed⟩

theorem deleteAllDone (commit : DeletesCommit e) (policy : cfg.deletionPolicy ≠ .noDelete)
    (stored : Stored e s) (listed : Listed s.index sessionID ids) (newest : SessionNewest s.index sessionID)
    (free : NoRetention e s sessionID clock) :
    ∃ s', deleteAll e cfg clock s ids = (s',.ok ()) := by
  induction ids generalizing s clock with
  | nil => exact ⟨s,rfl⟩
  | cons id rest ih =>
    obtain ⟨key,row,m,top,session,filed⟩ := sessionTop stored listed newest mem_cons_self
    obtain ⟨mid,path,done,d⟩ := deleteAllowed commit policy stored.1.distinct top filed
      (free key row m top.found session filed 0)
    have rows : ∀ key row, mid.index.manifests.lookup key = some row → s.index.manifests.lookup key = some row :=
      fun _ _ found => (droppedHeld d found).2
    have later : NoRetention e mid sessionID (fun n => clock (n + 1)) := fun key row m found session filed n =>
      retentionCleared (clearedDropped d) rows free key row m found session filed (n + 1)
    obtain ⟨last,ended⟩ := ih (storedDropped stored d) (listedDropped d session listed) (newestSub rows newest) later
    refine ⟨last,?_⟩
    unfold deleteAll
    rw [done]
    exact ended

theorem checkPasses (stored : Stored e s) (listed : Listed s.index sessionID ids)
    (newest : SessionNewest s.index sessionID) (free : NoRetention e s sessionID clock) :
    retentionCheck e s (clock 0) ids = .ok () := by
  refine forMOk.mpr fun id mem => ?_
  obtain ⟨key,row,m,top,session,filed⟩ := sessionTop stored listed newest mem
  have expired := free key row m top.found session filed 0
  simp only [loadNewest top stored.1.distinct filed,bind,Except.bind]
  rw [show (ManifestFiles.read key m).retentionUntil = m.retentionUntil from rfl,if_neg (by rw [expired]; exact Bool.false_ne_true)]
  rfl

def Resumed (e : Engine) (cfg : StoreConfig) (order : RowOrder) (clock : Nat → Instant) (s : State) (sessionID : String) : Prop :=
  ∃ last, rollbackSession e cfg order clock s sessionID = (last,.ok ()) ∧
    (∀ key row, last.index.manifests.lookup key = some row → row.sessionID ≠ sessionID) ∧
    ∀ path file m, path ∈ listObjects last.fs "manifests" → last.fs.lookup path = some file →
      e.decodeManifest file.data = .ok m → m.sessionID ≠ sessionID

theorem rollbackDone (order : RowOrder) (commit : DeletesCommit e) (policy : cfg.deletionPolicy ≠ .noDelete)
    (named : sessionID ≠ "") (stored : Stored e s) (newest : SessionNewest s.index sessionID)
    (free : NoRetention e s sessionID clock) : ∃ last, rollbackSession e cfg order clock s sessionID = (last,.ok ()) := by
  have listed : Listed s.index sessionID (getBySession order s.index sessionID) := handleCount order s.index sessionID
  have passes := checkPasses stored listed newest free
  obtain ⟨last,done⟩ := deleteAllDone commit policy stored listed newest
    (fun key row m found session filed n => free key row m found session filed (n + 1))
  unfold rollbackSession
  rw [if_neg named]
  split
  · exact ⟨s,rfl⟩
  · rw [passes]
    simp only [if_neg policy]
    exact ⟨last,done⟩

theorem filesFollow (stored : Stored e s) (indexed : FilesIndexed s)
    (rows : ∀ key row, s.index.manifests.lookup key = some row → row.sessionID ≠ sessionID) {file}
    (listed : path ∈ listObjects s.fs "manifests") (held : s.fs.lookup path = some file)
    (decoded : e.decodeManifest file.data = .ok m) : m.sessionID ≠ sessionID := by
  obtain ⟨key,known,laid⟩ := indexed path listed
  obtain ⟨row,found⟩ := memLookup.mp known
  obtain ⟨m',filed⟩ := stored.2 key row found
  obtain ⟨path',file',laid',held',_,decoded',_⟩ := filed.file
  cases okSame laid laid'
  cases someSame held held'
  cases okSame decoded decoded'
  exact filed.session ▸ rows key row found

theorem retryExact (commit : DeletesCommit e) (policy : cfg.deletionPolicy ≠ .noDelete)
    (stored : Stored e s) (indexed : FilesIndexed s) (free : NoRetention e s sessionID clock) :
    Resumed e cfg order clock s sessionID ↔ sessionID ≠ "" ∧ SessionNewest s.index sessionID := by
  have quiet := commitQuiet commit
  constructor
  · rintro ⟨last,done,clean,_⟩
    obtain ⟨named,deletes⟩ := rollbackOk done
    obtain ⟨popped,_⟩ := deletedAll quiet stored (listedEnough order s.index sessionID) deletes
    refine ⟨named,newestKindIff.mp ?_⟩
    refine (clearsKind _ stored.1.distinct popped (handleCount order s.index sessionID)).mp ?_
    exact fun key row _ found _ => decide_eq_false (clean key row found)
  · rintro ⟨named,newest⟩
    obtain ⟨last,done⟩ := rollbackDone order commit policy named stored newest free
    obtain ⟨_,stored',cleared,_⟩ := deletedAll quiet stored (listedEnough order s.index sessionID) (rollbackOk done).2
    have removed := (rollbackRemoves quiet stored done).mpr newest
    have clean := fun key row found => ((removed.rows key row).mp found).2
    exact ⟨last,done,clean,fun path file m listed held decoded =>
      filesFollow stored' (indexedCleared cleared indexed) clean listed held decoded⟩

theorem unfiledStops (top : NewestRow s.index id key row)
    (distinct : Distinct ManifestRow.csn s.index.manifests) (laid : manifestPath (hexOut key) = .ok path)
    (gone : s.fs.lookup path = none) : load e s id = .error .artifactNotFound := by
  unfold load
  split
  · rfl
  split
  · rfl
  next digest resolved =>
  obtain ⟨other,row',rfl,newest⟩ := resolvesNewest resolved
  cases newestUnique distinct newest top
  simp only [loadManifestByDigest,laid,readManifestFile,gone,bind,Except.bind]

theorem rollbackLoads (done : rollbackSession e cfg order clock s sessionID = (s',.ok ()))
    (mem : id ∈ getBySession order s.index sessionID) : ∃ m, load e s id = .ok m := by
  unfold rollbackSession at done
  split at done
  · cases done
  split at done
  · next empty =>
    rw [empty] at mem
    cases mem
  split at done
  · cases done
  · next checked =>
    obtain ⟨m,loaded,_⟩ := bindOk.mp (forMOk.mp checked id mem)
    exact ⟨m,loaded⟩

end

section
variable {cfg' order' clock'}
def ResumesTo (e : Engine) (t t' : State) : Prop :=
  t' = t ∨ ∃ f now, t' = (reconcile f (some (storeIngester e f now)) t).1.state

theorem resumesSame (indexed : FilesIndexed t) (resumes : ResumesTo e t t') : SameManifests t t' ∧ FilesIndexed t' := by
  rcases resumes with rfl | ⟨f,now,rfl⟩
  · exact ⟨⟨rfl,fun _ _ _ => rfl⟩,indexed⟩
  · obtain ⟨same,listing⟩ := reconcileIdle indexed f (storeIngester e f now)
    exact ⟨same,indexedSame same listing indexed⟩

theorem unlinkedIndexed {path} (indexed : FilesIndexed s) : FilesIndexed {s with fs := remove s.fs path} := by
  intro other listed
  obtain ⟨present,under⟩ := mem_filter.mp listed
  exact indexed other (mem_filter.mpr ⟨(AList.mem_erase.mp present).2,under⟩)

theorem stillListed {gs rest id mid} (order : RowOrder)
    (listed : getBySession order s.index sessionID = gs ++ id::rest) (between : Between e s mid gs) (order' : RowOrder) :
    id ∈ getBySession order' mid.index sessionID := by
  have before := handleCount order s.index sessionID id
  have popped := poppedCount (p := fun row => decide (row.sessionID = sessionID) && decide (row.artifactID = some id))
    between.popped (g := id) fun row both => by
      simp only [Bool.and_eq_true,decide_eq_true_eq] at both
      exact both.2
  rw [listed,count_append,count_cons_self] at before
  refine count_pos_iff.mp ?_
  rw [handleCount]
  omega

theorem rollbackCrash (commit : DeletesCommit e) (stored : Stored e s) (known : FilesKnown s)
    (crash : t ∈ s::rollbackSteps e cfg order clock s sessionID) :
    Crashed e s (getBySession order s.index sessionID) t := by
  have none : t = s → Crashed e s (getBySession order s.index sessionID) t := by
    rintro rfl
    exact .between (nil_append _).symm (betweenRefl stored known)
  rcases mem_cons.mp crash with same | step
  · exact none same
  unfold rollbackSteps at step
  split at step
  · cases step
  split at step
  · cases step
  split at step
  · cases step
  split at step
  · cases step
  · exact crashCases commit stored known (listedEnough order s.index sessionID) (mem_cons_of_mem _ step)

/-- After Puts of legible manifests that no index refuses, a rollback cut short at any step and issued again leaves nothing
of the session exactly when it is named, every row left has its file, and its manifests are the newest under their handles. -/
theorem rollbackResumes (codec : Codec e) (commit : DeletesCommit e) (ops : List StoreOp)
    (legible : Along (advance e) (PutsLegible e) emptyStore ops) (accepted : Along (advance e) (PutsAccepted e) emptyStore ops)
    (crash : t ∈ after (advance e) emptyStore ops ::
      rollbackSteps e cfg order clock (after (advance e) emptyStore ops) sessionID)
    (resumes : ResumesTo e t t') (policy : cfg'.deletionPolicy ≠ .noDelete)
    (free : NoRetention e (after (advance e) emptyStore ops) sessionID clock') :
    Resumed e cfg' order' clock' t' sessionID ↔ sessionID ≠ "" ∧ RowsFiled t ∧ SessionNewest t.index sessionID := by
  have settled := settledRun codec commit legible
  have known := knownRun codec commit legible accepted
  cases rollbackCrash commit settled.stored known crash with
  | between listed at' =>
    obtain ⟨same,indexed⟩ := resumesSame (knownIndexed at'.known) resumes
    have rows := fun key row found => ((survives settled.stored.1.distinct at'.popped key row).mp found).1
    have free' : NoRetention e t' sessionID clock' := fun key row m found session filed =>
      retentionCleared at'.cleared rows free key row m (same.index ▸ found) session ((filedSame same).mpr filed)
    rw [retryExact commit policy (storedSame same at'.stored) indexed free',← same.index,
      and_iff_right (storedFiled at'.stored)]
  | @unlinked gs id rest mid key row path listed at' newest laid left =>
    subst left
    obtain ⟨same,_⟩ := resumesSame (unlinkedIndexed (knownIndexed at'.known)) resumes
    have gone : (remove mid.fs path).lookup path = none := by rw [remove,lookupErase,if_pos rfl]
    constructor
    · rintro ⟨last,done,_⟩
      have index : mid.index = t'.index := same.index
      obtain ⟨m,loaded⟩ := rollbackLoads done (index ▸ stillListed order listed at' order')
      rw [unfiledStops (index ▸ newest) (index ▸ at'.stored.1.distinct) laid ((same.files _ path laid).symm.trans gone)]
        at loaded
      cases loaded
    · rintro ⟨_,filed,_⟩
      obtain ⟨file,held⟩ := memLookup.mp (filed key (memLookup.mpr ⟨row,newest.found⟩) path laid)
      rw [gone] at held
      cases held

end

def oneSession : State := after (advance codedEngine) emptyStore [.put coalescing (sessionPut "a" 10).2]
def cutShort : State := (rollbackSteps codedEngine coalescing .stored (fun _ => 30) oneSession "a").headD emptyStore

theorem rollbackStuck :
    (rollbackSteps codedEngine coalescing .stored (fun _ => 30) oneSession "a").length = 2 ∧
    cutShort.index.manifests.keys = [[0,0,0]] ∧ listObjects cutShort.fs "manifests" = [] ∧
    (rollbackSession codedEngine coalescing .stored (fun _ => 40) cutShort "a").2 = .error .artifactNotFound ∧
    (rollbackSession codedEngine coalescing .stored (fun _ => 40)
      (reconcile .none (some (storeIngester codedEngine .none 35)) cutShort).1.state "a").2 = .error .artifactNotFound := by
  decide +kernel

def twoPuts : List StoreOp := [.put coalescing (sessionPut "a" 10).2,.put coalescing (sessionPut "b" 20).2]
def twoSessions : State := after (advance codedEngine) emptyStore twoPuts

theorem rollbackCompletes : twoSessions.index.manifests.keys = [[0,0,0,0],[0,0,0]] ∧
    Resumed codedEngine coalescing .stored (fun _ => 40)
      (reconcile .none (some (storeIngester codedEngine .none 35)) twoSessions).1.state "b" := by
  have free : NoRetention codedEngine twoSessions "b" (fun _ => 40) := by
    intro key row m _ _ filed n
    obtain ⟨path,file,_,_,_,decoded,_⟩ := filed.file
    simp only [codedEngine,tabled] at decoded
    split at decoded
    · next known =>
      cases decoded
      rcases mem_cons.mp (mem_of_getElem? known) with rfl | last
      · rfl
      · cases mem_singleton.mp last
        rfl
    · cases decoded
  have legible : Along (advance codedEngine) (PutsLegible codedEngine) emptyStore twoPuts := by decide +kernel
  have crash : twoSessions ∈ twoSessions::rollbackSteps codedEngine coalescing .stored (fun _ => 30) twoSessions "b" :=
    mem_cons_self
  refine ⟨by decide +kernel,?_⟩
  exact (rollbackResumes (tabledCodec _) (tabledCommit _) _ legible (by decide +kernel) crash (.inr ⟨.none,35,rfl⟩)
    (by decide) free).mpr ⟨by decide,storedFiled (settledRun (tabledCodec _) (tabledCommit _) legible).stored,by decide +kernel⟩

end Scrinium.Rollback
