import Mathlib.Data.List.Sort
import Scrinium.ChangeSequence

/-! The read side of the index (iterate.go, query.go, sync.go). Listings are compared up to the order of rows of one
second. -/
namespace Scrinium.SqliteIndex
open Keyed Domain Stamped List

/- The columns scanManifestRow reads, with the dedup key of the joined blob. -/
structure ManifestRecord where
  digest : String
  artifactID : String
  sessionID : String
  blobRefs : List String
  createdAt : Nat
  retentionUntil : Option Nat
  contentHash : String
  originalSize : Int
  deriving DecidableEq

def scanManifestRow (tx : Index) (entry : Entry) : ManifestRecord :=
  let blob := entry.2.blobRef.bind tx.blobs.lookup
  { digest := hexOut entry.1
    artifactID := entry.2.artifactID.getD ""
    sessionID := entry.2.sessionID
    blobRefs := (entry.2.blobRef.map hexOut).toList
    createdAt := entry.2.createdAt
    retentionUntil := entry.2.retentionUntil
    contentHash := (blob.map fun row => hexOut row.contentHash).getD ""
    originalSize := (blob.map fun row => row.originalSize).getD 0 }

def userRows (tx : Index) : List Entry := tx.manifests.entries.filter fun entry => entry.2.artifactID.isSome

def byCreation (records : List ManifestRecord) : List ManifestRecord :=
  records.insertionSort fun a b => a.createdAt ≤ b.createdAt

def iterateManifests (tx : Index) : List ManifestRecord := byCreation ((userRows tx).map (scanManifestRow tx))

section
variable (tx : Index) (extName field value : String)
def projected (entry : Entry) : Bool := tx.projExt.lookup (entry.1,extName,field) = some value

def listByExtField : List ManifestRecord :=
  byCreation (((userRows tx).filter (projected tx extName field value)).map (scanManifestRow tx))

def queryByExtField : List String :=
  (((userRows tx).filter (projected tx extName field value)).filterMap fun entry => entry.2.artifactID).dedup.insertionSort
    (· ≤ ·)

end

def token (tx : Index) : Nat := tx.csn

structure Change where
  digest : String
  csn : Nat
  deriving DecidableEq

structure Delta where
  changes : List Change
  next : Nat
  gapped : Bool
  deriving DecidableEq

def changedSince (tx : Index) (cursor : Nat) : List Change :=
  ((tx.manifests.entries.filter fun entry => cursor < entry.2.csn).map fun entry => ⟨hexOut entry.1,entry.2.csn⟩).insertionSort
    fun a b => a.csn ≤ b.csn

def nextCursor (cursor : Nat) (changes : List Change) : Nat := changes.foldl (fun _ change => change.csn) cursor
def gappedAt (tx : Index) (cursor : Nat) : Bool := cursor < tx.pruneCsn

def since (tx : Index) (cursor : Nat) : Delta :=
  let changes := changedSince tx cursor
  ⟨changes,nextCursor cursor changes,gappedAt tx cursor⟩

section
variable {tx tx' : Index}
theorem sameRows {α β : Type} [DecidableEq α] {table table' : Table α β}
    (same : ∀ key, table'.lookup key = table.lookup key) : table'.entries.Perm table.entries := by
  refine lookup_ext table'.nodupKeys table.nodupKeys fun key row => ?_
  have lookups : table'.entries.dlookup key = table.entries.dlookup key := same key
  rw [lookups]

theorem userRowsSame (manifests : ∀ key, tx'.manifests.lookup key = tx.manifests.lookup key) :
    (userRows tx').Perm (userRows tx) := (sameRows manifests).filter _

theorem scanSame (blobs : ∀ key, tx'.blobs.lookup key = tx.blobs.lookup key) : scanManifestRow tx' = scanManifestRow tx := by
  have table : tx'.blobs.lookup = tx.blobs.lookup := funext blobs
  unfold scanManifestRow
  rw [table]

section
variable (manifests : ∀ key, tx'.manifests.lookup key = tx.manifests.lookup key)
include manifests
theorem iterateSame
    (blobs : ∀ key, tx'.blobs.lookup key = tx.blobs.lookup key) : (iterateManifests tx').Perm (iterateManifests tx) := by
  have rows : ((userRows tx').map (scanManifestRow tx')).Perm ((userRows tx).map (scanManifestRow tx)) := by
    rw [scanSame blobs]
    exact (userRowsSame manifests).map _
  exact ((perm_insertionSort _ _).trans rows).trans (perm_insertionSort _ _).symm

theorem digestSame (distinct : Distinct ManifestRow.csn tx.manifests) (id : String) :
    resolveManifestDigest tx' id = resolveManifestDigest tx id := by
  cases found : resolveManifestDigest tx id with
  | none =>
    refine resolvesNone.mpr fun key row held => ?_
    exact resolvesNone.mp found key row (manifests key ▸ held)
  | some digest =>
    obtain ⟨key,row,rfl,newest⟩ := resolvesNewest found
    cases found' : resolveManifestDigest tx' id with
    | none => exact absurd newest.member (resolvesNone.mp found' key row ((manifests key).trans newest.found))
    | some digest' =>
      obtain ⟨key',row',rfl,newest'⟩ := resolvesNewest found'
      have moved : NewestRow tx id key' row' :=
        ⟨(manifests key').symm.trans newest'.found,newest'.member,fun held => newest'.top ((manifests _).trans held)⟩
      rw [newestUnique distinct moved newest]

end

theorem changedSorted (tx : Index) (cursor : Nat) : (changedSince tx cursor).Pairwise fun a b => a.csn ≤ b.csn := by
  have total : Std.Total fun a b : Change => a.csn ≤ b.csn := ⟨fun a b => Nat.le_total a.csn b.csn⟩
  have trans : IsTrans Change fun a b => a.csn ≤ b.csn := ⟨fun _ _ _ => Nat.le_trans⟩
  exact pairwise_insertionSort _ _

theorem changedMem {cursor change} : change ∈ changedSince tx cursor ↔
    ∃ key row, tx.manifests.lookup key = some row ∧ cursor < row.csn ∧ change = ⟨hexOut key,row.csn⟩ := by
  rw [changedSince,mem_insertionSort,mem_map]
  constructor
  · rintro ⟨entry,mem,rfl⟩
    obtain ⟨held,above⟩ := mem_filter.mp mem
    exact ⟨entry.1,entry.2,lookupEntry.mpr held,of_decide_eq_true above,rfl⟩
  · rintro ⟨key,row,found,above,rfl⟩
    exact ⟨⟨key,row⟩,mem_filter.mpr ⟨lookupEntry.mp found,decide_eq_true above⟩,rfl⟩

/- The numbers are distinct, so their order leaves nothing open. -/
theorem changedSame (manifests : ∀ key, tx'.manifests.lookup key = tx.manifests.lookup key)
    (distinct : Distinct ManifestRow.csn tx.manifests) (cursor : Nat) : changedSince tx' cursor = changedSince tx cursor := by
  have rows : (changedSince tx' cursor).Perm (changedSince tx cursor) :=
    ((perm_insertionSort _ _).trans (((sameRows manifests).filter _).map _)).trans (perm_insertionSort _ _).symm
  refine rows.eq_of_pairwise ?_ (changedSorted tx' cursor) (changedSorted tx cursor)
  intro a b here there below above
  obtain ⟨key,row,found,_,rfl⟩ := changedMem.mp here
  obtain ⟨key',row',found',_,rfl⟩ := changedMem.mp there
  have same : row.csn = row'.csn := Nat.le_antisymm below above
  rw [distinct ((manifests key).symm.trans found) found' same,same]

end

def inlineSample : Manifest :=
  { artifactID := "h1", name := "", digest := "d1000001", identityNonce := [], sessionID := "a", createdAt := some 0
    contentHash := "", originalSize := 0, hashAlgo := "sha256", blobRefs := [], handleRefs := [], layout := .inline
    pipeline := [], inlineBlob := [], retentionUntil := none, ext := [], usr := [] }

example : (since (reached [] [.indexManifest inlineSample "" 0,.deleteManifest "d1000001"]) 0) = ⟨[],0,true⟩ := by decide +kernel

end Scrinium.SqliteIndex
