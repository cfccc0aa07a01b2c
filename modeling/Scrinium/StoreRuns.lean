import Scrinium.Gc
import Scrinium.IndexOrphans

/-! Runs of one store: Puts, Deletes and garbage collection cycles in any order, each with its own configuration and clock
readings. -/
namespace Scrinium.StoreRuns
open Keyed Domain Layout LocalFs SqliteIndex Cas Gc Trace

inductive StoreOp where
  | put (cfg : StoreConfig) (call : PutCall)
  | delete (cfg : StoreConfig) (id : String) (now : Instant)
  | cycle (complete : Bool) (grace : Nat) (tMark tSweep : Instant)

def emptyStore : State := ⟨∅,Index.empty⟩

def advance (e : Engine) (s : State) : StoreOp → State
  | .put cfg call => (Cas.put e cfg s call).1
  | .delete cfg id now => (Cas.delete e cfg s id now).1
  | .cycle complete grace tMark tSweep => (runCycle complete grace tMark tSweep s).state

variable {e s id tx tx' topology}

theorem loadResolved {m} (loaded : load e s id = .ok m) :
    resolveManifestDigest s.index id = some m.digest ∧
      ∃ read, loadManifestByDigest e s.fs m.digest = .ok read ∧ m = {read with artifactID := id} := by
  unfold load at loaded
  split at loaded
  · cases loaded
  split at loaded
  · cases loaded
  next digest resolved =>
  obtain ⟨read,byDigest,last⟩ := bindOk.mp loaded
  cases last
  obtain ⟨_,_,rest⟩ := bindOk.mp byDigest
  obtain ⟨_,_,rest⟩ := bindOk.mp rest
  obtain ⟨_,_,rest⟩ := bindOk.mp rest
  obtain ⟨_,_,last⟩ := bindOk.mp rest
  cases last
  exact ⟨resolved,_,byDigest,rfl⟩

theorem deleteCases {cfg s' now outcome}
    (h : Cas.delete e cfg s id now = (s',outcome)) :
    s' = s ∧ (∃ err, outcome = .error err) ∨
    ∃ digest path, resolveManifestDigest s.index id = some digest ∧ manifestPath digest = .ok path ∧
      s'.fs = remove s.fs path ∧
      (s'.index = s.index ∧ (∃ err, outcome = .error err) ∨
        deleteManifest e.indexes s.index digest = .ok s'.index ∧ outcome = .ok ()) := by
  unfold Cas.delete at h
  split at h
  · cases h
    exact .inl ⟨rfl,_,rfl⟩
  next digest path found =>
  obtain ⟨m,loaded,rest⟩ := bindOk.mp found
  obtain ⟨_,_,rest⟩ := bindOk.mp rest
  obtain ⟨_,laid,last⟩ := bindOk.mp rest
  cases last
  refine .inr ⟨m.digest,path,(loadResolved loaded).1,laid,?_⟩
  simp only at h
  split at h
  · cases h
    exact ⟨rfl,.inl ⟨rfl,_,rfl⟩⟩
  · next tx done =>
    cases h
    exact ⟨rfl,.inr ⟨done,rfl⟩⟩

theorem droppedRow {indexes digest} (ok : deleteManifest indexes tx digest = .ok tx') (key : Key) :
    (tx'.blobs.lookup key).map identity = (tx.blobs.lookup key).map identity := by
  rcases deleteManifestOk ok with ⟨rfl,_⟩ | ⟨k,_,_,rfl⟩
  · rfl
  · exact dropIdentity tx.blobs (edgesOf tx k) key

theorem placedIdentity (placed : RowsPlaced topology tx)
    (same : ∀ key, (tx'.blobs.lookup key).map identity = (tx.blobs.lookup key).map identity) :
    RowsPlaced topology tx' := by
  intro key row found
  have known := same key
  rw [found] at known
  obtain ⟨old,held,alike⟩ := Option.map_eq_some_iff.mp known.symm
  rw [← (identityEq alike).2.2.1]
  exact placed key old held

theorem placedPut (cfg : StoreConfig) (call : PutCall) (placed : RowsPlaced e.topology s.index) :
    RowsPlaced e.topology (Cas.put e cfg s call).1.index := by
  rcases done : Cas.put e cfg s call with ⟨s',outcome⟩
  cases outcome with
  | error err => exact putFailed done ▸ placed
  | ok m =>
    obtain ⟨committed⟩ := putCommitted done
    rcases committedPut committed with inline | ⟨output,stages,key,stored⟩
    · simpa only [RowsPlaced,inlineBlobs inline] using placed
    · exact placedRegister stored placed

theorem placedDelete (cfg : StoreConfig) (id : String) (now : Instant) (placed : RowsPlaced e.topology s.index) :
    RowsPlaced e.topology (Cas.delete e cfg s id now).1.index := by
  rcases done : Cas.delete e cfg s id now with ⟨s',outcome⟩
  rcases deleteCases done with ⟨rfl,_⟩ | ⟨digest,path,_,_,_,⟨index,_⟩ | ⟨dropped,_⟩⟩
  · exact placed
  · exact index ▸ placed
  · exact placedIdentity placed (droppedRow dropped)

theorem placedCycle (complete : Bool) (grace : Nat) (tMark tSweep : Instant) (placed : RowsPlaced topology s.index) :
    RowsPlaced topology (runCycle complete grace tMark tSweep s).state.index :=
  fun key row found => placed key row ((cycled placed complete grace tMark tSweep).rows key row found)

theorem sweepRefCases (grace : Nat) (now : Instant) (w : Swept) (ref : String) :
    (sweepRef grace now w ref).state = w.state ∨ ∃ key row, w.state.index.blobs.lookup key = some row ∧
      (sweepRef grace now w ref).state.fs = removeTombstone w.state.fs row.physicalPath ∧
      ((sweepRef grace now w ref).state.index = w.state.index ∨ ∃ key orphan, w.state.index.blobs.lookup key = some orphan ∧
        orphan.refCount = 0 ∧
        (sweepRef grace now w ref).state.index = {w.state.index with blobs := w.state.index.blobs.erase key}) := by
  unfold sweepRef
  split
  · exact .inl rfl
  next path resolved =>
  obtain ⟨key,row,_,found,rfl⟩ := resolveKey resolved
  split
  · exact .inl rfl
  split
  · exact .inl rfl
  split
  · exact .inl rfl
  refine .inr ⟨key,row,found,?_⟩
  simp only
  split
  · next tx removed reaped =>
    refine ⟨rfl,?_⟩
    rcases deleteOrphanBlobOk reaped with ⟨rfl,_⟩ | ⟨other,orphan,_,held,zero,rfl⟩
    · exact .inl rfl
    · exact .inr ⟨other,orphan,held,zero,rfl⟩
  · exact ⟨rfl,.inl rfl⟩

theorem placedSweepRef {w} (grace : Nat) (now : Instant) (ref : String)
    (placed : RowsPlaced topology w.state.index) : RowsPlaced topology (sweepRef grace now w ref).state.index := by
  rcases sweepRefCases grace now w ref with same | ⟨_,_,_,_,same | ⟨key,_,_,_,dropped⟩⟩
  · rw [same]
    exact placed
  · rw [same]
    exact placed
  · rw [dropped]
    exact placedErase placed key

theorem placedAdvance (op : StoreOp) (placed : RowsPlaced e.topology s.index) :
    RowsPlaced e.topology (advance e s op).index := by
  cases op with
  | put cfg call => exact placedPut cfg call placed
  | delete cfg id now => exact placedDelete cfg id now placed
  | cycle complete grace tMark tSweep => exact placedCycle complete grace tMark tSweep placed

theorem placedEmpty (topology : PathTopology) : RowsPlaced topology emptyStore.index := by
  intro key row found
  simp [emptyStore,Index.empty] at found

theorem placedReached (e : Engine) (ops : List StoreOp) :
    RowsPlaced e.topology (after (advance e) emptyStore ops).index := by
  have keep : ∀ (s : State) (op : StoreOp), RowsPlaced e.topology s.index → RowsPlaced e.topology (advance e s op).index :=
    fun _ op => placedAdvance op
  exact invariantRun keep ops (placedEmpty e.topology)

end Scrinium.StoreRuns
