import Scrinium.Keyed
import Scrinium.Trace
import Scrinium.Domain

/-! The SQLite store index: the core tables, the change counter and the transactions that write them. Keys are raw bytes
bound from hexadecimal text. -/
namespace Scrinium.SqliteIndex
open List hiding after
open Keyed Domain Trace

abbrev Key := Bytes

structure BlobRow where
  contentHash : Key
  originalSize : Int
  physicalPath : String
  cryptoIdentity : String
  refCount : Nat
  lastVerifiedAt : Option Nat
  createdAt : Nat
  deriving DecidableEq

structure ManifestRow where
  artifactID : Option String
  sessionID : String
  blobRef : Option Key
  createdAt : Nat
  retentionUntil : Option Nat
  lastVerifiedAt : Option Nat
  csn : Nat
  deriving DecidableEq

structure Index where
  blobs : Table Key BlobRow
  manifests : Table Key ManifestRow
  manifestBlobs : Table (Key × Nat) Key
  manifestHandles : Table (Key × Nat) String
  projExt : Table (Key × String × String) String
  csn : Nat
  pruneCsn : Nat

def Index.empty : Index := ⟨∅,∅,∅,∅,∅,0,0⟩

inductive Event where
  | manifestIndexed (m : Manifest)
  | manifestDeleted (artifactID : String) (blobRefs : List String)

structure CustomIndex where
  name : String
  index : Manifest → Except Error (List (String × String))
  unindex : (artifactID digest : String) → Except Error Unit
  apply : Event → Except Error Unit

def hexKey (text : String) : Except Error (Option Key) :=
  if text = "" then .ok none else
    match HexText.decode text with
    | some raw => .ok (some raw)
    | none => .error (.invalidHex text)

def notNull : Option Key → Except Error Key
  | some raw => .ok raw
  | none => .error .notNull

def bindKey (text : String) : Except Error Key := do notNull (← hexKey text)
def hexOut (key : Key) : String := HexText.encode key

def bumpRefCount (key : Key) (blobs : Table Key BlobRow) : Table Key BlobRow :=
  update key (fun row => {row with refCount := row.refCount + 1}) blobs

def dropRefCount (key : Key) (blobs : Table Key BlobRow) : Table Key BlobRow :=
  update key (fun row => {row with refCount := row.refCount - 1}) blobs

def blobRow (m : Manifest) (content : Key) (path : String) (now : Instant) : BlobRow :=
  { contentHash := content, originalSize := m.originalSize, physicalPath := path,
    cryptoIdentity := cryptoIdentityOf m.pipeline, refCount := 0, lastVerifiedAt := none,
    createdAt := formatTime now }

def registerBlob (m : Manifest) (path : String) (now : Instant) (blobs : Table Key BlobRow)
    (ref : String) : Except Error (Table Key BlobRow) := do
  let ref ← hexKey ref
  let content ← hexKey m.contentHash
  let key ← notNull ref
  let blobs := insertNew key (blobRow m (← notNull content) path now) blobs
  if key ∈ blobs then return bumpRefCount key blobs
  else throw (.other "register blob: not present after upsert")

def manifestRow (m : Manifest) (blobRef : Option Key) (now : Instant) : ManifestRow :=
  { artifactID := if m.artifactID = "" then none else some m.artifactID
    sessionID := m.sessionID, blobRef := blobRef
    createdAt := formatTime (m.createdAt.getD now)
    retentionUntil := m.retentionUntil.map formatTime, lastVerifiedAt := none, csn := 0 }

def insertManifestRow (tx : Index) (m : Manifest) (now : Instant) : Except Error Index := do
  let digest ← hexKey m.digest
  let blobRef ← hexKey (if m.layout = .inline then "" else m.primaryBlobRef)
  return {tx with manifests := insertNew (← notNull digest) (manifestRow m blobRef now) tx.manifests}

def linkManifestToBlob (digest : String) (edges : Table (Key × Nat) Key) (ref : String × Nat) :
    Except Error (Table (Key × Nat) Key) := do
  let digest ← hexKey digest
  let key ← hexKey ref.1
  return insertNew (← notNull digest, ref.2) (← notNull key) edges

def linkManifestToHandle (digest : String) (edges : Table (Key × Nat) String) (ref : String × Nat) :
    Except Error (Table (Key × Nat) String) := do
  return insertNew (← bindKey digest, ref.2) ref.1 edges

def indexBlobManifest (tx : Index) (m : Manifest) (path : String) (now : Instant) : Except Error Index := do
  if m.layout = .inline then insertManifestRow tx m now
  else if m.blobRefs = [] then throw (.other "manifest has no BlobRefs")
  else
    let blobs ← m.blobRefs.foldlM (registerBlob m path now) tx.blobs
    let tx ← insertManifestRow {tx with blobs := blobs} m now
    let edges ← m.blobRefs.zipIdx.foldlM (linkManifestToBlob m.digest) tx.manifestBlobs
    return {tx with manifestBlobs := edges}

def upsertProjExt (digest : String) (name : String) (rows : Table (Key × String × String) String)
    (p : String × String) : Except Error (Table (Key × String × String) String) := do
  return rows.insert (← bindKey digest, name, p.1) p.2

def applyIndexer (m : Manifest) (tx : Index) (ci : CustomIndex) : Except Error Index := do
  let projections ← ci.index m
  let rows ← projections.foldlM (upsertProjExt m.digest ci.name) tx.projExt
  return {tx with projExt := rows}

section
variable (indexes : List CustomIndex)
def applyIndexers (tx : Index) (m : Manifest) : Except Error Index := indexes.foldlM (applyIndexer m) tx

def applyUnindexers (artifactID digest : String) : Except Error Unit :=
  indexes.forM fun ci => ci.unindex artifactID digest

def dispatchCustomIndexes (event : Event) : Except Error Unit := indexes.forM fun ci => ci.apply event

end

def nextCSN (tx : Index) : Index := {tx with csn := tx.csn + 1}

def stampCSN (tx : Index) (digest : Key) : Index :=
  {tx with manifests := update digest (fun row => {row with csn := tx.csn}) tx.manifests}

section
variable (indexes : List CustomIndex) (tx : Index) (m : Manifest)
def notifyIndexed : Except Error Index := do
  if m.isContainer then return tx
  else
    let tx ← applyIndexers indexes tx m
    dispatchCustomIndexes indexes (.manifestIndexed m)
    return tx

def indexManifest (path : String) (now : Instant) : Except Error Index := do
  let tx ← indexBlobManifest tx m path now
  let handles ← m.handleRefs.zipIdx.foldlM (linkManifestToHandle m.digest) tx.manifestHandles
  let tx ← notifyIndexed indexes {tx with manifestHandles := handles} m
  return stampCSN (nextCSN tx) (← bindKey m.digest)

end

def edgesOf (tx : Index) (digest : Key) : List Key :=
  (tx.manifestBlobs.entries.filter fun edge => edge.1.1 = digest).map fun edge => edge.2

def dropManifest (tx : Index) (digest : Key) : Index :=
  { tx with
    blobs := (edgesOf tx digest).foldl (fun blobs key => dropRefCount key blobs) tx.blobs
    manifests := tx.manifests.erase digest
    manifestBlobs := deleteWhere (fun edge _ => edge.1 = digest) tx.manifestBlobs
    manifestHandles := deleteWhere (fun edge _ => edge.1 = digest) tx.manifestHandles
    projExt := deleteWhere (fun cell _ => cell.1 = digest) tx.projExt }

def markPrune (tx : Index) : Index := {tx with pruneCsn := tx.csn}

def deleteManifest (indexes : List CustomIndex) (tx : Index) (digest : String) : Except Error Index := do
  let some key ← hexKey digest | return tx
  let some row := tx.manifests.lookup key | return tx
  let artifactID := row.artifactID.getD ""
  let actual := (edgesOf tx key).map hexOut
  let tx := dropManifest tx key
  if artifactID ≠ "" then applyUnindexers indexes artifactID digest
  let tx := markPrune (nextCSN tx)
  dispatchCustomIndexes indexes (.manifestDeleted artifactID actual)
  return tx

def deleteOrphanBlob (tx : Index) (ref : String) : Except Error (Index × Bool) := do
  let some key ← hexKey ref | return (tx, false)
  match tx.blobs.lookup key with
  | some row =>
    if row.refCount = 0 then return ({tx with blobs := tx.blobs.erase key}, true) else return (tx, false)
  | none => return (tx, false)

/- ORDER BY blob_ref is not kept: no reader depends on the order of the list. -/
def listOrphanBlobs (tx : Index) : List String :=
  (tx.blobs.entries.filter fun entry => entry.2.refCount = 0).map fun entry => hexOut entry.1

def resolve (tx : Index) (ref : String) : Except Error String := do
  let some key ← hexKey ref | throw .artifactNotFound
  match tx.blobs.lookup key with
  | some row => return row.physicalPath
  | none => throw .artifactNotFound

def getRefCount (tx : Index) (ref : String) : Except Error Nat := do
  let some key ← hexKey ref | throw .artifactNotFound
  match tx.blobs.lookup key with
  | some row => return row.refCount
  | none => throw .artifactNotFound

def manifestExistsByDigest (tx : Index) (digest : String) : Except Error Bool := do
  let some key ← hexKey digest | return false
  return decide (key ∈ tx.manifests)

/- LIMIT 1 without an order: some row of the answer, if it has one. -/
structure LimitOne where
  pick : List Key → Option Key
  mem : ∀ {rows key}, pick rows = some key → key ∈ rows
  total : ∀ {rows}, pick rows = none → rows = []

def LimitOne.first : LimitOne := ⟨List.head?,fun h => List.mem_of_head? h,fun h => List.head?_eq_none_iff.mp h⟩

def contentMatches (tx : Index) (hash : Key) (size : Int) (crypto : String) : List Key :=
  (tx.blobs.entries.filter fun entry => entry.2.contentHash = hash && entry.2.originalSize = size &&
    entry.2.cryptoIdentity = crypto).map fun entry => entry.1

def existsByContent (limit : LimitOne) (tx : Index) (hash : String) (size : Int) (crypto : String) :
    Except Error (Option String) := do
  let some key ← hexKey hash | return none
  return (limit.pick (contentMatches tx key size crypto)).map hexOut

def latest (best : Option (Sigma fun _ : Key => ManifestRow)) (entry : Sigma fun _ : Key => ManifestRow) :
    Option (Sigma fun _ : Key => ManifestRow) :=
  match best with
  | none => some entry
  | some top => if top.2.csn < entry.2.csn then some entry else some top

def resolveManifestDigest (tx : Index) (id : String) : Option String :=
  ((tx.manifests.entries.filter fun entry => entry.2.artifactID = some id).foldl latest none).map fun entry =>
    hexOut entry.1

theorem hexKeyEncode {bytes} (some' : bytes ≠ []) : hexKey (hexOut bytes) = .ok (some bytes) := by
  have named : HexText.encode bytes ≠ "" := by
    intro empty
    have back := HexText.decodeEncode bytes
    rw [empty] at back
    exact some' (Option.some.inj back).symm
  simp only [hexKey,hexOut,if_neg named,HexText.decodeEncode]

variable {key tx}

theorem hexKeyNonempty {text} (bound : hexKey text = .ok (some key)) : key ≠ [] := by
  rintro rfl
  unfold hexKey at bound
  split at bound
  · cases bound
  next named =>
  split at bound
  · next raw decoded =>
    cases Option.some.inj (Except.ok.inj bound)
    exact named (HexText.decodeEmpty decoded)
  · cases bound

theorem contentMatch {hash size crypto} (mem : key ∈ contentMatches tx hash size crypto) :
    ∃ row, tx.blobs.lookup key = some row ∧ row.contentHash = hash ∧ row.originalSize = size ∧
      row.cryptoIdentity = crypto := by
  simp only [contentMatches,mem_map,mem_filter,Bool.and_eq_true,decide_eq_true_eq] at mem
  obtain ⟨⟨k,row⟩,⟨entry,⟨same,sized⟩,crypt⟩,rfl⟩ := mem
  exact ⟨row,lookupEntry.mpr entry,same,sized,crypt⟩

theorem resolveRow {row} (some' : key ≠ []) (found : tx.blobs.lookup key = some row) :
    resolve tx (hexOut key) = .ok row.physicalPath := by
  simp only [resolve,hexKeyEncode some',bind,Except.bind,found]
  rfl

theorem latestMem {rows : List (Sigma fun _ : Key => ManifestRow)} {start}
    {entry} (picked : rows.foldl latest start = some entry) :
    entry ∈ rows ∨ start = some entry := by
  induction rows generalizing start with
  | nil => exact .inr picked
  | cons row rest ih =>
    rcases ih picked with later | here
    · exact .inl (mem_cons_of_mem row later)
    unfold latest at here
    split at here
    · exact .inl (Option.some.inj here ▸ mem_cons_self)
    · split at here
      · exact .inl (Option.some.inj here ▸ mem_cons_self)
      · exact .inr here

theorem resolvedManifest {id digest} (ok : resolveManifestDigest tx id = some digest) :
    ∃ key row, digest = hexOut key ∧ tx.manifests.lookup key = some row ∧ row.artifactID = some id := by
  obtain ⟨entry,picked,rfl⟩ := Option.map_eq_some_iff.mp ok
  have mem := (latestMem picked).resolve_right (by simp)
  obtain ⟨inside,handle⟩ := mem_filter.mp mem
  exact ⟨entry.1,entry.2,rfl,lookupEntry.mpr inside,of_decide_eq_true handle⟩

end Scrinium.SqliteIndex
