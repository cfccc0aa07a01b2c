import Scrinium.IndexOrphans
import Scrinium.Stamped

/-! The change sequence number (csn.go): the numbers of the rows are distinct, none exceeds the counter, and a handle
resolves to its row of greatest number. -/
namespace Scrinium.SqliteIndex
open List hiding after
open Keyed Domain Stamped Trace

structure Sequenced (tx : Index) : Prop where
  issued : ∀ {key row}, tx.manifests.lookup key = some row → 0 < row.csn ∧ row.csn ≤ tx.csn
  distinct : Distinct ManifestRow.csn tx.manifests
  pruned : tx.pruneCsn ≤ tx.csn

theorem sequencedEmpty : Sequenced Index.empty where
  issued found := by simp [Index.empty] at found
  distinct found := by simp [Index.empty] at found
  pruned := Nat.le_refl 0

theorem registerLookup (tx : Index) (m : Manifest) (path : String) (now : Instant) (r : Registration) (key : Key) :
    (register tx m path now r).manifests.lookup key =
      if key = r.keys.digest then
        some {(tx.manifests.lookup r.keys.digest).getD (manifestRow m r.keys.refs.head? now) with csn := tx.csn + 1}
      else tx.manifests.lookup key := by
  unfold register
  rw [lookupUpdate,lookupInsertNew,lookupInsertNew]
  by_cases same : key = r.keys.digest
  · simp [same]
  · simp [same]

variable {tx tx' indexes}

theorem sequencedRegister (seq : Sequenced tx) (m : Manifest) (path : String) (now : Instant) (r : Registration) :
    Sequenced (register tx m path now r) where
  issued := by
    intro key row found
    rw [registerLookup] at found
    split at found
    · cases found
      exact ⟨Nat.succ_pos _,Nat.le_refl _⟩
    · exact ⟨(seq.issued found).1,Nat.le_succ_of_le (seq.issued found).2⟩
  distinct := by
    -- the new number is above every number issued before
    intro key key' row row' found found' same
    rw [registerLookup] at found found'
    split at found
    · next mine =>
      split at found'
      · next yours => exact mine.trans yours.symm
      · cases found
        have below := (seq.issued found').2
        simp only at same
        omega
    · split at found'
      · cases found'
        have below := (seq.issued found).2
        simp only at same
        omega
      · exact seq.distinct found found' same
  pruned := Nat.le_succ_of_le seq.pruned

theorem dropLookup (tx : Index) (digest key : Key) :
    (markPrune (nextCSN (dropManifest tx digest))).manifests.lookup key =
      if key = digest then none else tx.manifests.lookup key :=
  lookupErase tx.manifests digest key

theorem sequencedDrop (seq : Sequenced tx) (digest : Key) :
    Sequenced (markPrune (nextCSN (dropManifest tx digest))) where
  issued := by
    intro key row found
    obtain ⟨least,most⟩ := seq.issued (lookupErased _ found).2
    exact ⟨least,Nat.le_succ_of_le most⟩
  distinct := distinctErase seq.distinct digest
  pruned := Nat.le_refl _

theorem sequencedTransact (op : IndexOp) (seq : Sequenced tx) : Sequenced (transact indexes tx op) := by
  have done := transacted indexes tx op
  generalize transact indexes tx op = tx' at done ⊢
  cases done with
  | same => exact seq
  | registered => exact sequencedRegister seq _ _ _ _
  | dropped key => exact sequencedDrop seq key
  | reaped => exact ⟨seq.issued,seq.distinct,seq.pruned⟩

theorem sequencedReached (indexes : List CustomIndex) (ops : List IndexOp) :
    Sequenced (after (transact indexes) Index.empty ops) :=
  invariantRun (fun _ op => sequencedTransact op) ops sequencedEmpty

section

abbrev Entry := Sigma fun _ : Key => ManifestRow

variable {rows : List Entry} {start} {tx : Index} {id}

theorem latestTop {entry} (picked : rows.foldl latest start = some entry) :
    (∀ other ∈ rows, other.2.csn ≤ entry.2.csn) ∧ ∀ other, start = some other → other.2.csn ≤ entry.2.csn := by
  induction rows generalizing start with
  | nil =>
    refine ⟨nofun,fun other same => ?_⟩
    cases someSame same picked
    exact Nat.le_refl _
  | cons row rest ih =>
    obtain ⟨later,here⟩ := ih picked
    -- the round keeps the larger of the two
    have round : row.2.csn ≤ entry.2.csn ∧ ∀ other, start = some other → other.2.csn ≤ entry.2.csn := by
      unfold latest at here
      cases start with
      | none => exact ⟨here row rfl,nofun⟩
      | some top =>
        simp only at here
        split at here
        · next less =>
          have kept := here row rfl
          exact ⟨kept,fun other same => by cases same; omega⟩
        · next least =>
          have kept := here top rfl
          exact ⟨by omega,fun other same => by cases same; exact kept⟩
    refine ⟨fun other mem => ?_,round.2⟩
    rcases mem_cons.mp mem with rfl | tail
    · exact round.1
    · exact later other tail

theorem latestSome (some' : rows ≠ [] ∨ start ≠ none) : rows.foldl latest start ≠ none := by
  induction rows generalizing start with
  | nil => exact some'.resolve_left (· rfl)
  | cons row rest ih =>
    refine ih (.inr ?_)
    unfold latest
    split
    · exact nofun
    · split <;> exact nofun

abbrev NewestRow (tx : Index) (id : String) (key : Key) (row : ManifestRow) : Prop :=
  Newest ManifestRow.artifactID ManifestRow.csn tx.manifests id key row

theorem resolvesNewest {digest} (ok : resolveManifestDigest tx id = some digest) :
    ∃ key row, digest = hexOut key ∧ NewestRow tx id key row := by
  obtain ⟨entry,picked,rfl⟩ := Option.map_eq_some_iff.mp ok
  have mem := (latestMem picked).resolve_right (by simp)
  obtain ⟨inside,handle⟩ := mem_filter.mp mem
  refine ⟨entry.1,entry.2,rfl,lookupEntry.mpr inside,of_decide_eq_true handle,?_⟩
  intro other row' found member
  exact (latestTop picked).1 ⟨other,row'⟩ (mem_filter.mpr ⟨lookupEntry.mp found,decide_eq_true member⟩)

theorem resolvesNone : resolveManifestDigest tx id = none ↔
    ∀ key row, tx.manifests.lookup key = some row → row.artifactID ≠ some id := by
  unfold resolveManifestDigest
  rw [Option.map_eq_none_iff]
  constructor
  · intro none key row found handle
    refine latestSome (.inl ?_) none
    exact ne_nil_of_mem (mem_filter.mpr ⟨lookupEntry.mp found,decide_eq_true handle⟩)
  · intro absent
    have empty : (tx.manifests.entries.filter fun entry => entry.2.artifactID = some id) = [] :=
      filter_eq_nil_iff.mpr fun entry mem handle =>
        absent entry.1 entry.2 (lookupEntry.mpr mem) (of_decide_eq_true handle)
    rw [empty]
    rfl

end

end Scrinium.SqliteIndex
