import Scrinium.IndexOrphans

/-! Registering a manifest a second time: a repetition changes nothing but the counter of every blob the manifest names. -/
namespace Scrinium.SqliteIndex
open List hiding after
open Keyed Domain Trace

def unstamped (row : ManifestRow) : ManifestRow := {row with csn := 0}

structure SameTables (a b : Index) : Prop where
  blobs : ∀ key, a.blobs.lookup key = b.blobs.lookup key
  manifests : ∀ digest, (a.manifests.lookup digest).map unstamped = (b.manifests.lookup digest).map unstamped
  manifestBlobs : ∀ edge, a.manifestBlobs.lookup edge = b.manifestBlobs.lookup edge
  manifestHandles : ∀ edge, a.manifestHandles.lookup edge = b.manifestHandles.lookup edge
  projExt : ∀ cell, a.projExt.lookup cell = b.projExt.lookup cell

section
variable (indexes : List CustomIndex) (m : Manifest) (path : String) (now : Instant)
def registerAt (tx : Index) : Index := transact indexes tx (.indexManifest m path now)

def registerTimes (n : Nat) (tx : Index) : Index :=
  after (transact indexes) tx (List.replicate n (.indexManifest m path now))

end

def Idempotent (indexes : List CustomIndex) (tx : Index) (m : Manifest) (path : String) (now later : Instant) : Prop :=
  SameTables (registerAt indexes m path later (registerAt indexes m path now tx))
    (registerAt indexes m path now tx)

def SoleReference (tx : Index) (digest key : Key) : Prop :=
  (∃ pos, tx.manifestBlobs.lookup (digest,pos) = some key) ∧
    ∀ other pos, tx.manifestBlobs.lookup (other,pos) = some key → other = digest

def ReleasedByDelete (indexes : List CustomIndex) (tx : Index) (m : Manifest) (path : String) (now : Instant) : Prop :=
  ∀ n digest key, bindKey m.digest = .ok digest →
    SoleReference (registerTimes indexes m path now n tx) digest key →
    refCountIn (transact indexes (registerTimes indexes m path now n tx) (.deleteManifest m.digest)).blobs key = 0

theorem lookupCells (digest : Key) (name : String) (cells : List (String × String)) (k : Key × String × String) :
    ∃ written : Option String, ∀ rows : Table (Key × String × String) String,
      (cells.foldl (fun rows cell => rows.insert (digest,name,cell.1) cell.2) rows).lookup k =
        written.or (rows.lookup k) := by
  induction cells with
  | nil => exact ⟨none,fun _ => rfl⟩
  | cons cell rest ih =>
    obtain ⟨written,tail⟩ := ih
    refine ⟨written.or (if k = (digest,name,cell.1) then some cell.2 else none),fun rows => ?_⟩
    rw [foldl_cons,tail,lookupInsert,Option.or_assoc]
    split <;> rfl

theorem lookupProjected (digest : Key) (projections : Projections) (k : Key × String × String) :
    ∃ written : Option String, ∀ rows : Table (Key × String × String) String,
      (projectRows digest projections rows).lookup k = written.or (rows.lookup k) := by
  induction projections with
  | nil => exact ⟨none,fun _ => rfl⟩
  | cons p rest ih =>
    obtain ⟨written,tail⟩ := ih
    obtain ⟨first,head⟩ := lookupCells digest p.1 p.2 k
    refine ⟨written.or first,fun rows => ?_⟩
    rw [projectRows,foldl_cons,← projectRows,tail,head,Option.or_assoc]

theorem lookupLinksTwice {β : Type} (digest : Key) (refs : List β) (edges : Table (Key × Nat) β) (edge : Key × Nat) :
    (linkRefs digest refs.zipIdx (linkRefs digest refs.zipIdx edges)).lookup edge =
      (linkRefs digest refs.zipIdx edges).lookup edge := by
  obtain ⟨d,pos⟩ := edge
  rw [lookupLinks]
  split
  · next held => rw [held]
  · next free =>
    rw [lookupLinks] at free ⊢
    split at free
    · contradiction
    · rfl

theorem registerTwice (tx : Index) (m : Manifest) (path : String) (now later : Instant) (r : Registration)
    (counters : r.keys.refs = []) :
    SameTables (register (register tx m path now r) m path later r) (register tx m path now r) where
  blobs key := by simp [register,registerRefs,counters]
  manifests digest := by
    rw [lookupManifestsRegister]
    split
    · next mine => simp [lookupManifestsRegister,mine,unstamped]
    · rfl
  manifestBlobs edge := lookupLinksTwice r.keys.digest r.keys.refs tx.manifestBlobs edge
  manifestHandles edge := lookupLinksTwice r.keys.digest m.handleRefs tx.manifestHandles edge
  projExt cell := by
    obtain ⟨written,rows⟩ := lookupProjected r.keys.digest r.projections cell
    simp only [register,rows,← Option.or_assoc,Option.or_self]

variable {indexes m r digest tx}

theorem registerAtOk (ok : registration indexes m = .ok r) (path : String) (now : Instant) (tx : Index) :
    registerAt indexes m path now tx = register tx m path now r := by
  have done : indexManifest indexes tx m path now = .ok (register tx m path now r) := indexManifestOk.mpr ⟨r,ok,rfl⟩
  simp [registerAt,transact,perform,done]

theorem registerAtRefused (refused : ∀ r, registration indexes m ≠ .ok r) (path : String) (now : Instant) (tx : Index) :
    registerAt indexes m path now tx = tx := by
  unfold registerAt transact perform
  split
  · next ok =>
    obtain ⟨r,possible,_⟩ := indexManifestOk.mp ok
    exact absurd possible (refused r)
  · rfl

def Determines (m : Manifest) : IndexOp → Prop
  | .indexManifest other _ _ => bindKey other.digest = bindKey m.digest → other = m
  | _ => True

theorem edgelessReached (uncounted : m.layout = .inline ∨ ∀ r, registration indexes m ≠ .ok r) (ops : List IndexOp)
    (bound : bindKey m.digest = .ok digest) (determined : ∀ op ∈ ops, Determines m op) (pos : Nat) :
    (reached indexes ops).manifestBlobs.lookup (digest,pos) = none := by
  suffices keep : ∀ tx op, (∀ pos, tx.manifestBlobs.lookup (digest,pos) = none) → Determines m op →
      ∀ pos, (transact indexes tx op).manifestBlobs.lookup (digest,pos) = none from
    invariantAfter keep (fun _ => rfl) (alongOfMem determined) pos
  intro tx op free agrees pos
  have done := transacted indexes tx op
  generalize transact indexes tx op = tx' at done ⊢
  cases done with
  | same => exact free pos
  | @registered other path now r possible =>
    simp only [register,lookupLinks,free pos]
    by_cases mine : digest = r.keys.digest
    · have same : other = m := by
        refine agrees ?_
        rw [registrationDigest possible,bound,mine]
      subst same
      rcases uncounted with inline | refused
      · simp [(registrationRefs possible).mpr inline]
      · exact absurd possible (refused r)
    · simp [mine]
  | dropped => simp [markPrune,nextCSN,dropManifest,lookupDeleteWhere,free pos]
  | reaped => exact free pos

theorem reachedRegisterTimes (indexes : List CustomIndex) (ops : List IndexOp) (m : Manifest) (path : String)
    (now : Instant) (n : Nat) :
    registerTimes indexes m path now n (reached indexes ops) =
      reached indexes (ops ++ List.replicate n (.indexManifest m path now)) := by
  simp [registerTimes,reached,after]

theorem releasedWhenUncounted {ops}
    (uncounted : m.layout = .inline ∨ ∀ r, registration indexes m ≠ .ok r) (determined : ∀ op ∈ ops, Determines m op)
    (path : String) (now : Instant) :
    ReleasedByDelete indexes (reached indexes ops) m path now := by
  intro n digest key bound sole
  rw [reachedRegisterTimes] at sole
  obtain ⟨⟨pos,linked⟩,_⟩ := sole
  have free := edgelessReached uncounted (ops ++ List.replicate n (.indexManifest m path now)) bound
    (fun op mem => by
      rcases mem_append.mp mem with old | new
      · exact determined op old
      · cases eq_of_mem_replicate new
        exact fun _ => rfl) pos
  rw [free] at linked
  contradiction

theorem registerRaises (ok : registration indexes m = .ok r) (path : String) (now : Instant) (tx : Index) (key : Key) :
    refCountIn (registerAt indexes m path now tx).blobs key = refCountIn tx.blobs key + r.keys.refs.count key := by
  rw [registerAtOk ok,register,refCountRegister tx.blobs _ rfl]

theorem stableCounters (ok : registration indexes m = .ok r) {path now later}
    (same : Idempotent indexes tx m path now later) : r.keys.refs = [] := by
  cases refs : r.keys.refs with
  | nil => rfl
  | cons key rest =>
    have counters := congrArg (fun row => ((row : Option BlobRow).map BlobRow.refCount).getD 0) (same.blobs key)
    have once := registerRaises ok path later (registerAt indexes m path now tx) key
    simp only [← refCountIn.eq_1] at counters
    rw [once,refs,count_cons_self] at counters
    omega

/-- Registration is idempotent, and deletion releases what it alone holds however often it was
registered, exactly for the manifests that are stored inline or that the index refuses. -/
theorem idempotentExactly (indexes : List CustomIndex) (ops : List IndexOp) (m : Manifest) (path : String)
    (now later : Instant) (determined : ∀ op ∈ ops, Determines m op) :
    (Idempotent indexes (reached indexes ops) m path now later ∧
        ReleasedByDelete indexes (reached indexes ops) m path now) ↔
      m.layout = .inline ∨ ∀ r, registration indexes m ≠ .ok r := by
  constructor
  · rintro ⟨same,_⟩
    by_cases possible : ∃ r, registration indexes m = .ok r
    · obtain ⟨r,ok⟩ := possible
      exact .inl ((registrationRefs ok).mp (stableCounters ok same))
    · exact .inr fun r ok => possible ⟨r,ok⟩
  · intro uncounted
    refine ⟨?_,releasedWhenUncounted uncounted determined path now⟩
    unfold Idempotent
    by_cases possible : ∃ r, registration indexes m = .ok r
    · obtain ⟨r,ok⟩ := possible
      have inline : m.layout = .inline := uncounted.resolve_right fun refused => refused r ok
      rw [registerAtOk ok,registerAtOk ok]
      exact registerTwice (reached indexes ops) m path now later r ((registrationRefs ok).mpr inline)
    · have refused : ∀ r, registration indexes m ≠ .ok r := fun r ok => possible ⟨r,ok⟩
      rw [registerAtRefused refused,registerAtRefused refused]
      exact ⟨fun _ => rfl,fun _ => rfl,fun _ => rfl,fun _ => rfl,fun _ => rfl⟩

def looseBlob : Manifest :=
  { artifactID := "art-1", name := "", digest := "d1000001", identityNonce := [], sessionID := ""
    createdAt := none, contentHash := "c0000001", originalSize := 5, hashAlgo := "sha256"
    blobRefs := ["b10b0001"], handleRefs := [], layout := .target, pipeline := [], inlineBlob := []
    retentionUntil := none, ext := [], usr := [] }

def looseDigest : Key := [0xd1,0,0,1]
def looseKey : Key := [0xb1,0x0b,0,1]

theorem looseSole : SoleReference (registerTimes [] looseBlob "p" 0 2 Index.empty) looseDigest looseKey := by
  have edges : (registerTimes [] looseBlob "p" 0 2 Index.empty).manifestBlobs.entries =
      [⟨(looseDigest,0),looseKey⟩] := by decide
  refine ⟨⟨0,by decide⟩,fun other pos linked => ?_⟩
  have mem := lookupEntry.mp linked
  rw [edges,mem_singleton] at mem
  cases mem
  rfl

theorem reregisteredBlobLeaks :
    ¬ Idempotent [] (reached [] []) looseBlob "p" 0 1 ∧ ¬ ReleasedByDelete [] (reached [] []) looseBlob "p" 0 := by
  constructor
  · intro same
    have counters := congrArg (fun row => (row : Option BlobRow).map BlobRow.refCount) (same.blobs looseKey)
    revert counters
    decide
  · intro released
    have zero := released 2 looseDigest looseKey (by decide) looseSole
    revert zero
    decide

theorem idempotentExactlyInline :
    let m := {looseBlob with layout := .inline}
    (∀ op ∈ [IndexOp.indexManifest m "p" 0], Determines m op) ∧
      Idempotent [] (reached [] [.indexManifest m "p" 0]) m "p" 0 1 ∧
      ReleasedByDelete [] (reached [] [.indexManifest m "p" 0]) m "p" 0 := by
  intro m
  have determined : ∀ op ∈ [IndexOp.indexManifest m "p" 0], Determines m op := by
    intro op mem
    cases mem_singleton.mp mem
    exact fun _ => rfl
  exact ⟨determined,(idempotentExactly [] _ m "p" 0 1 determined).mpr (.inl rfl)⟩

def RegistersNew (indexes : List CustomIndex) (tx : Index) : IndexOp → Prop
  | .indexManifest m _ _ => ∀ r, registration indexes m = .ok r → r.keys.refs ≠ [] → r.keys.digest ∉ tx.manifests
  | _ => True

structure Exact (tx : Index) : Prop extends Sound tx where
  exact : ∀ key, refCountIn tx.blobs key = edgeCount tx key

theorem countFreeLinks {edges} (refs : List Key) (start : Nat)
    (free : ∀ pos, start ≤ pos → (digest,pos) ∉ edges) (k : Key) :
    countWhere (names k) (linkRefs digest (refs.zipIdx start) edges) =
      countWhere (names k) edges + refs.count k := by
  unfold linkRefs
  induction refs generalizing edges start with
  | nil => rfl
  | cons ref rest ih =>
    have head := countInsertFree (names k) ref (free start (Nat.le_refl start))
    have one : (names k (digest,start) ref).toNat = if ref = k then 1 else 0 := by
      by_cases same : ref = k <;> simp [names,same]
    have tail : ∀ pos, start + 1 ≤ pos → (digest,pos) ∉ edges.insert (digest,start) ref := by
      intro pos later mem
      rcases (AList.mem_insert edges).mp mem with same | old
      · have := (Prod.mk.inj same).2
        omega
      · exact free pos (by omega) old
    rw [zipIdx_cons,foldl_cons,insertNew,if_neg (free start (Nat.le_refl start)),ih _ tail,
      head,one,count_cons]
    simp only [beq_iff_eq]
    omega

theorem exactPerform {tx' op} (h : Exact tx) (new : RegistersNew indexes tx op)
    (done : Performed indexes tx op tx') : Exact tx' := by
  refine ⟨soundPerform h.toSound done,fun key => ?_⟩
  have old := h.exact key
  cases done with
  | same => exact old
  | @registered m path now r possible =>
    have raised := refCountRegister tx.blobs (blobRow m r.keys.content path now) rfl r.keys.refs key
    simp only [edgeCount,register,raised] at old ⊢
    by_cases empty : r.keys.refs = []
    · simp [empty,linkRefs,old]
    have free : ∀ pos, 0 ≤ pos → (r.keys.digest,pos) ∉ tx.manifestBlobs := by
      intro pos _ taken
      obtain ⟨edge,linked⟩ := memLookup.mp taken
      exact new r possible empty (h.edgeHasRow linked)
    rw [countFreeLinks r.keys.refs 0 free key,old]
  | dropped d =>
    have split := countDeleteWhere tx.manifestBlobs (names key) (fun edge _ => decide (edge.1 = d))
    have lowered := refCountDrop tx.blobs (edgesOf tx d) key
    have same := countEdgesOf tx d key
    simp only [edgeCount,markPrune,nextCSN,dropManifest,lowered] at old ⊢
    omega
  | reaped found orphan =>
    simp only [edgeCount,refCountIn,lookupErase] at old ⊢
    split
    · next same =>
      subst same
      rw [found] at old
      simpa [orphan] using old
    · exact old

end Scrinium.SqliteIndex
