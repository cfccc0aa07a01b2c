import Scrinium.ManifestFiles

/-! RollbackSession (data_rollback.go): the handles of a session are read off the index, checked, and deleted one by one. -/
namespace Scrinium.Rollback
open Keyed Domain Layout LocalFs SqliteIndex Cas ManifestFiles Stamped List

/- The order in which a query without ORDER BY returns its rows. -/
structure RowOrder where
  arrange : List String → List String
  perm : ∀ rows, (arrange rows).Perm rows

def RowOrder.stored : RowOrder := ⟨id,fun _ => .refl _⟩

def sessionHandles (tx : Index) (sessionID : String) : List String :=
  tx.manifests.entries.filterMap fun entry => if entry.2.sessionID = sessionID then entry.2.artifactID else none

def getBySession (order : RowOrder) (tx : Index) (sessionID : String) : List String :=
  order.arrange (sessionHandles tx sessionID)

def retentionCheck (e : Engine) (s : State) (now : Instant) (ids : List String) : Except Error Unit :=
  ids.forM fun id => do
    let m ← load e s id
    if (m.retentionUntil.any fun until' => now < until') then throw .retentionNotExpired else return ()

def deleteAll (e : Engine) (cfg : StoreConfig) : (clock : Nat → Instant) → State → List String → State × Except Error Unit
  | _, s, [] => (s,.ok ())
  | clock, s, id::rest =>
    match Cas.delete e cfg s id (clock 0) with
    | (s,.ok ()) => deleteAll e cfg (fun n => clock (n + 1)) s rest
    | (s,.error .artifactNotFound) => deleteAll e cfg (fun n => clock (n + 1)) s rest
    | (s,.error err) => (s,.error err)

def rollbackSession (e : Engine) (cfg : StoreConfig) (order : RowOrder) (clock : Nat → Instant) (s : State)
    (sessionID : String) : State × Except Error Unit :=
  if sessionID = "" then (s,.error (.other "empty session ID"))
  else match getBySession order s.index sessionID with
    | [] => (s,.ok ())
    | ids =>
      match retentionCheck e s (clock 0) ids with
      | .error err => (s,.error err)
      | .ok () =>
        if cfg.deletionPolicy = .noDelete then (s,.error .deletionForbidden)
        else deleteAll e cfg (fun n => clock (n + 1)) s ids

section
variable {tx sessionID order}
theorem handleCount (order : RowOrder) (tx : Index) (sessionID id : String) :
    (getBySession order tx sessionID).count id =
      countWhere (fun _ row => decide (row.sessionID = sessionID) && decide (row.artifactID = some id)) tx.manifests := by
  rw [getBySession,(order.perm _).count_eq,sessionHandles,countWhere,count_filterMap]
  refine countP_congr fun entry _ => ?_
  by_cases session : entry.2.sessionID = sessionID
  · simp [session]
  · simp [session]

end

section
variable {e cfg s'} {s : State}
structure Cleared (s s' : State) : Prop where
  gone : ∀ key path, key ∈ s.index.manifests → key ∉ s'.index.manifests → manifestPath (hexOut key) = .ok path →
    s'.fs.lookup path = none
  kept : ∀ path, (∀ key, key ∈ s.index.manifests → key ∉ s'.index.manifests → manifestPath (hexOut key) ≠ .ok path) →
    s'.fs.lookup path = s.fs.lookup path

theorem clearedRefl (s : State) : Cleared s s := ⟨fun _ _ known absent => absurd known absent,fun _ _ => rfl⟩

theorem clearedTrans {mid} (first : Cleared s mid) (second : Cleared mid s')
    (fewer : ∀ key ∈ mid.index.manifests, key ∈ s.index.manifests)
    (fewer' : ∀ key ∈ s'.index.manifests, key ∈ mid.index.manifests) : Cleared s s' where
  gone := by
    intro key path known absent laid
    by_cases still : key ∈ mid.index.manifests
    · exact second.gone key path still absent laid
    have cleared := first.gone key path known still laid
    rw [← cleared]
    refine second.kept path fun other known' _ laid' => ?_
    cases manifestPathKey laid laid'
    exact still known'
  kept := by
    intro path away
    have later := second.kept path fun key known absent => away key (fewer key known) absent
    exact later.trans (first.kept path fun key known absent => away key known fun last => absent (fewer' key last))

variable {id path key row ids}

theorem clearedDropped (d : Dropped s s' id key row path) : Cleared s s' := by
  have mem : ∀ other, other ∈ s'.index.manifests ↔ other ≠ key ∧ other ∈ s.index.manifests := by
    intro other
    rw [memLookup,droppedLookup d,memLookup]
    split <;> simp [*]
  refine ⟨fun other place known absent laid => ?_,fun place away => ?_⟩
  · have same : other = key := by
      by_contra differ
      exact absent ((mem other).mpr ⟨differ,known⟩)
    subst same
    cases Trace.okSame laid d.laid
    rw [d.fs,remove,lookupErase,if_pos rfl]
  · rw [d.fs,remove,lookupErase,if_neg]
    rintro rfl
    exact away key (memLookup.mpr ⟨row,d.newest.found⟩) (fun last => ((mem key).mp last).1 rfl) d.laid

theorem newestOf (known : ∃ key row, s.index.manifests.lookup key = some row ∧ row.artifactID = some id) :
    ∃ key row, NewestRow s.index id key row := by
  cases found : resolveManifestDigest s.index id with
  | none =>
    obtain ⟨key,row,held,handle⟩ := known
    exact absurd handle (resolvesNone.mp found key row held)
  | some digest =>
    obtain ⟨key,row,_,newest⟩ := resolvesNewest found
    exact ⟨key,row,newest⟩

def QuietHooks (e : Engine) : Prop := ∀ tx key, deleteManifest e.indexes tx (hexOut key) ≠ .error .artifactNotFound

theorem commitQuiet (commit : DeletesCommit e) : QuietHooks e := by
  intro tx key failed
  obtain ⟨tx',done⟩ := commit tx key
  rw [done] at failed
  cases failed

theorem deleteFinds (cfg : StoreConfig) (quiet : QuietHooks e) (stored : Stored e s)
    (known : ∃ key row, s.index.manifests.lookup key = some row ∧ row.artifactID = some id) (now : Instant) :
    (Cas.delete e cfg s id now).2 ≠ .error .artifactNotFound := by
  obtain ⟨key,row,newest⟩ := newestOf known
  obtain ⟨m,filed⟩ := stored.2 key row newest.found
  obtain ⟨path,_,laid,_⟩ := filed.file
  have place : manifestPath (read key m).digest = .ok path := laid
  unfold Cas.delete
  simp only [loadNewest newest stored.1.distinct filed,deleteChecks,bind,Except.bind]
  rw [if_neg (show (read key m).artifactID ≠ "" from filed.named)]
  split
  · next err refused =>
    split at refused
    · next failed =>
      cases refused
      split at failed
      · cases failed; nofun
      split at failed
      · cases failed; nofun
      · cases failed
    · rw [place] at refused
      cases refused
  · next digest place' checked =>
    have digest' : digest = hexOut key := by
      split at checked
      · cases checked
      · rw [place] at checked
        cases checked
        rfl
    subst digest'
    split
    · next err failed => exact fun missing => quiet _ key (failed.trans (congrArg _ (Except.error.inj missing)))
    · nofun

theorem droppedFewer (d : Dropped s s' id key row path) : ∀ other ∈ s'.index.manifests, other ∈ s.index.manifests := by
  intro other mem
  obtain ⟨row',found⟩ := memLookup.mp mem
  exact memLookup.mpr ⟨row',(droppedHeld d found).2⟩

theorem enoughDropped (d : Dropped s s' id key row path)
    (enough : ∀ g, (id::ids).count g ≤ countWhere (fun _ row => decide (row.artifactID = some g)) s.index.manifests) (g : String) :
    ids.count g ≤ countWhere (fun _ row => decide (row.artifactID = some g)) s'.index.manifests := by
  have all := enough g
  rw [countErase _ d.newest.found,count_cons,d.newest.member] at all
  rw [droppedTable d]
  by_cases same : id = g
  · simp [same] at all
    exact all
  · simp [same] at all
    exact all

theorem listedKnown {rest}
    (enough : ∀ g, (id::rest).count g ≤ countWhere (fun _ row => decide (row.artifactID = some g)) s.index.manifests) :
    ∃ key row, s.index.manifests.lookup key = some row ∧ row.artifactID = some id := by
  have some' : 0 < countWhere (fun _ row => decide (row.artifactID = some id)) s.index.manifests := by
    have all := enough id
    rw [count_cons_self] at all
    omega
  obtain ⟨entry,mem,handle⟩ := countP_pos_iff.mp some'
  exact ⟨entry.1,entry.2,lookupEntry.mpr mem,of_decide_eq_true handle⟩

theorem deletedAll (quiet : QuietHooks e) {clock} (stored : Stored e s)
    (enough : ∀ id, ids.count id ≤ countWhere (fun _ row => decide (row.artifactID = some id)) s.index.manifests)
    (done : deleteAll e cfg clock s ids = (s',.ok ())) :
    Popped ManifestRow.artifactID ManifestRow.csn s.index.manifests ids s'.index.manifests ∧ Stored e s' ∧
      Cleared s s' ∧ ∀ key ∈ s'.index.manifests, key ∈ s.index.manifests := by
  induction ids generalizing s clock with
  | nil =>
    cases done
    exact ⟨.done _,stored,clearedRefl _,fun _ known => known⟩
  | cons id rest ih =>
    unfold deleteAll at done
    split at done
    · next mid deleted =>
      obtain ⟨key,row,path,d⟩ := deleteDropped deleted
      have table : mid.index.manifests = s.index.manifests.erase key := by rw [d.index]; rfl
      obtain ⟨popped,last,cleared,fewer⟩ := ih (storedDropped stored d) (enoughDropped d enough) done
      rw [table] at popped
      exact ⟨.pop d.newest popped,last,clearedTrans (clearedDropped d) cleared (droppedFewer d) fewer,
        fun other known => droppedFewer d other (fewer other known)⟩
    · next mid missing =>
      refine absurd ?_ (deleteFinds cfg quiet stored (listedKnown enough) (clock 0))
      rw [missing]
    · cases done

end

end Scrinium.Rollback
