import Scrinium.StoreRuns
import Scrinium.Readback

/-! The tombstone grace period. A sweep dates a marker by its modification time, which is the blob's own write time. -/
namespace Scrinium.GracePeriod
open Keyed Domain LocalFs SqliteIndex Cas Gc StoreRuns Trace

def HonorsGrace (s : State) : StoreOp → Prop
  | .cycle complete grace tMark tSweep => 0 < grace → ∀ path file,
      (path,file) ∈ (runCycle complete grace tMark tSweep s).removed →
      file.placedAt + grace ≤ tSweep ∧ marker path ∈ s.fs
  | _ => True
instance (s : State) (op : StoreOp) : Decidable (HonorsGrace s op) :=
  match op with
  | .cycle complete grace tMark tSweep =>
    decidable_of_iff (0 < grace → ∀ entry ∈ (runCycle complete grace tMark tSweep s).removed,
        entry.2.placedAt + grace ≤ tSweep ∧ marker entry.1 ∈ s.fs)
      (imp_congr_right fun _ => Prod.forall)
  | .put _ _ => .isTrue trivial
  | .delete _ _ _ => .isTrue trivial

def SafeOrphan (s : State) (grace : Nat) (tMark tSweep : Instant) (path : String) : Prop :=
  match s.fs.lookup (marker path), s.fs.lookup path with
  | some old, _ => old.modTime + grace ≤ tSweep → old.placedAt + grace ≤ tSweep
  | none, some blob => tSweep < blob.modTime + grace
  | none, none => tSweep < tMark + grace

def GraceSafe (s : State) : StoreOp → Prop
  | .cycle _ grace tMark tSweep => 0 < grace → ∀ path ∈ orphanPaths s.index, SafeOrphan s grace tMark tSweep path
  | _ => True

variable {grace}

theorem dueAged (some' : 0 < grace) {now file} : Due grace now file ↔ file.modTime + grace ≤ now := by
  have aged : ∀ n t : Nat, ¬ (0 < grace ∧ n - t < grace) ↔ t + grace ≤ n := by omega
  exact aged now file.modTime

theorem safeOrphanIff (s : State) (some' : 0 < grace) (tMark tSweep : Instant) (path : String) :
    SafeOrphan s grace tMark tSweep path ↔ (Due grace tSweep (markedFile s.fs path tMark) →
      (markedFile s.fs path tMark).placedAt + grace ≤ tSweep ∧ marker path ∈ s.fs) := by
  rw [dueAged some',memLookup]
  unfold SafeOrphan markedFile
  cases s.fs.lookup (marker path) with
  | some old => simp
  | none => cases s.fs.lookup path <;> simp

theorem honorsIff {e : Engine} {s : State} (op : StoreOp) (placed : RowsPlaced e.topology s.index) :
    HonorsGrace s op ↔ GraceSafe s op := by
  cases op with
  | put cfg call => exact Iff.rfl
  | delete cfg id now => exact Iff.rfl
  | cycle complete grace tMark tSweep =>
    have exact := cycled placed complete grace tMark tSweep
    refine imp_congr_right fun some' => ?_
    simp only [safeOrphanIff s some',exact.removed]
    exact ⟨fun h path mem due => h path _ ⟨mem,rfl,due⟩,fun h path file ⟨mem,same,due⟩ => same ▸ h path mem (same ▸ due)⟩

/-- A run honors the grace period throughout exactly when each of its cycles meets its orphans safe. -/
theorem graceHonoredExactly (e : Engine) (ops : List StoreOp) :
    Along (advance e) HonorsGrace emptyStore ops ↔ Along (advance e) GraceSafe emptyStore ops := by
  have keep : ∀ s op, RowsPlaced e.topology s.index → GraceSafe s op → RowsPlaced e.topology (advance e s op).index :=
    fun s op placed _ => placedAdvance op placed
  exact alongIff keep (fun s op placed => honorsIff op placed) (placedEmpty e.topology)

def sampleEngine : Engine :=
  {Readback.sampleEngine with
    decodeManifest := fun _ => .ok
      { artifactID := "", name := "", digest := "", identityNonce := [], sessionID := "", createdAt := none
        contentHash := "", originalSize := 0, hashAlgo := "", blobRefs := [], handleRefs := [], layout := .target
        pipeline := [], inlineBlob := [], retentionUntil := none, ext := [], usr := [] }}

def hour : Nat := 3600 * second

def lateOrphan : List StoreOp :=
  [.put (Readback.sampleConfig []) (Readback.sampleCall "u1" 1 0),
   .delete (Readback.sampleConfig []) "sha256-0000010201" (2 * hour),
   .cycle true hour (2 * hour) (2 * hour)]

theorem sweptAsMarked : ¬ Along (advance sampleEngine) HonorsGrace emptyStore lateOrphan := by
  decide +kernel

end Scrinium.GracePeriod
