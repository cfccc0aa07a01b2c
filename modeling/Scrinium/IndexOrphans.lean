import Scrinium.IndexRegistration

/-! Reference counts against the edges that justify them: the counter never falls below the number of edges naming the
blob. -/
namespace Scrinium.SqliteIndex
open List hiding after
open Keyed Domain Trace

def refCountIn (blobs : Table Key BlobRow) (key : Key) : Nat := ((blobs.lookup key).map BlobRow.refCount).getD 0
def names (key : Key) (_ : Key × Nat) (ref : Key) : Bool := ref = key
def edgeCount (tx : Index) (key : Key) : Nat := countWhere (names key) tx.manifestBlobs

def References (tx : Index) (digest key : Key) : Prop :=
  (∃ pos, tx.manifestBlobs.lookup (digest,pos) = some key) ∨
    ∃ row, tx.manifests.lookup digest = some row ∧ row.blobRef = some key

variable {row tx tx' key indexes}

section
variable (blobs : Table Key BlobRow)
theorem refCountBump (fresh : row.refCount = 0) (key k : Key) :
    refCountIn (bumpRefCount key (insertNew key row blobs)) k =
      refCountIn blobs k + if key = k then 1 else 0 := by
  unfold refCountIn bumpRefCount
  rw [lookupUpdate,lookupInsertNew,lookupInsertNew]
  by_cases same : k = key
  · subst same
    cases blobs.lookup k <;> simp [fresh]
  · simp [same,Ne.symm same]

theorem refCountRegister (row : BlobRow) (fresh : row.refCount = 0) (refs : List Key) (k : Key) :
    refCountIn (registerRefs row refs blobs) k = refCountIn blobs k + refs.count k := by
  unfold registerRefs
  induction refs generalizing blobs with
  | nil => rfl
  | cons key rest ih =>
    rw [foldl_cons,ih,refCountBump blobs fresh,count_cons]
    simp only [beq_iff_eq]
    omega

theorem refCountDrop (refs : List Key) (k : Key) :
    refCountIn (refs.foldl (fun blobs key => dropRefCount key blobs) blobs) k =
      refCountIn blobs k - refs.count k := by
  induction refs generalizing blobs with
  | nil => rfl
  | cons key rest ih =>
    have one : refCountIn (dropRefCount key blobs) k = refCountIn blobs k - if key = k then 1 else 0 := by
      unfold refCountIn dropRefCount
      rw [lookupUpdate]
      by_cases same : k = key
      · subst same
        cases blobs.lookup k <;> simp
      · simp [same,Ne.symm same]
    rw [foldl_cons,ih,one,count_cons]
    simp only [beq_iff_eq]
    omega

end

theorem countLinks (digest : Key) (refs : List Key) (start : Nat) (edges : Table (Key × Nat) Key) (k : Key) :
    countWhere (names k) (linkRefs digest (refs.zipIdx start) edges) ≤
      countWhere (names k) edges + refs.count k := by
  unfold linkRefs
  induction refs generalizing edges start with
  | nil => exact Nat.le_refl _
  | cons ref rest ih =>
    rw [zipIdx_cons,foldl_cons,count_cons]
    have tail := ih (start + 1) (insertNew (digest,start) ref edges)
    have head := countInsertNewLe edges (names k) (digest,start) ref
    have one : (names k (digest,start) ref).toNat = if ref = k then 1 else 0 := by
      by_cases same : ref = k <;> simp [names,same]
    simp only [beq_iff_eq]
    omega

theorem countEdgesOf (tx : Index) (digest k : Key) :
    (edgesOf tx digest).count k =
      countWhere (fun edge ref => names k edge ref && decide (edge.1 = digest)) tx.manifestBlobs := by
  unfold edgesOf countWhere names
  rw [count_eq_countP,countP_map,countP_filter]
  apply countP_congr
  intro edge _
  simp [beq_iff_eq]

theorem lookupLinks {β : Type} (digest : Key) (refs : List β) (start : Nat) (edges : Table (Key × Nat) β) (d : Key) (pos : Nat) :
    (linkRefs digest (refs.zipIdx start) edges).lookup (d,pos) =
      match edges.lookup (d,pos) with
      | some ref => some ref
      | none => if d = digest ∧ start ≤ pos then refs[pos - start]? else none := by
  unfold linkRefs
  induction refs generalizing edges start with
  | nil => cases held : edges.lookup (d,pos) <;> simp [held]
  | cons ref rest ih =>
    rw [zipIdx_cons,foldl_cons,ih,lookupInsertNew]
    by_cases here : (d,pos) = (digest,start)
    · obtain ⟨rfl,rfl⟩ := Prod.mk.inj here
      cases edges.lookup (d,pos) <;> simp
    rw [if_neg here]
    cases edges.lookup (d,pos) with
    | some old => rfl
    | none =>
      by_cases mine : d = digest
      · have away : pos ≠ start := fun same => here (by rw [mine,same])
        by_cases later : start ≤ pos
        · have step : pos - start = (pos - (start + 1)) + 1 := by omega
          simp [mine,later,step,show start + 1 ≤ pos by omega]
        · simp [later,show ¬ start + 1 ≤ pos by omega]
      · simp [mine]

theorem lookupManifestsRegister (tx : Index) (m : Manifest) (path : String) (now : Instant) (r : Registration) (d : Key) :
    (register tx m path now r).manifests.lookup d =
      if d = r.keys.digest then
        some {(tx.manifests.lookup d).getD (manifestRow m r.keys.refs.head? now) with csn := tx.csn + 1}
      else tx.manifests.lookup d := by
  simp only [register,lookupUpdate,lookupInsertNew]
  by_cases mine : d = r.keys.digest
  · subst mine
    simp
  · simp [mine]

structure Sound (tx : Index) : Prop where
  counted : ∀ key, edgeCount tx key ≤ refCountIn tx.blobs key
  edgeHasRow : ∀ {digest pos key}, tx.manifestBlobs.lookup (digest,pos) = some key → digest ∈ tx.manifests
  rowHasEdge : ∀ {digest row key}, tx.manifests.lookup digest = some row → row.blobRef = some key →
    tx.manifestBlobs.lookup (digest,0) = some key

theorem soundEmpty : Sound Index.empty where
  counted _ := Nat.zero_le _
  edgeHasRow h := by simp [Index.empty] at h
  rowHasEdge h := by simp [Index.empty] at h

theorem soundRegister (sound : Sound tx) (m : Manifest) (path : String) (now : Instant) (r : Registration) :
    Sound (register tx m path now r) where
  counted key := by
    have rows := refCountRegister tx.blobs (blobRow m r.keys.content path now) rfl r.keys.refs key
    have edges := countLinks r.keys.digest r.keys.refs 0 tx.manifestBlobs key
    have old := sound.counted key
    simp only [edgeCount,register,rows] at edges old ⊢
    omega
  edgeHasRow {digest pos key} h := by
    rw [memLookup,lookupManifestsRegister]
    split
    · exact ⟨_,rfl⟩
    next other =>
    simp only [register,lookupLinks,other,false_and,if_false] at h
    split at h
    · next old => exact memLookup.mp (sound.edgeHasRow (old.trans h))
    · contradiction
  rowHasEdge {digest row key} found ref := by
    rw [lookupManifestsRegister] at found
    simp only [register,lookupLinks]
    split at found
    · next mine =>
      cases found
      cases old : tx.manifests.lookup digest with
      | some row =>
        simp only [old,Option.getD_some] at ref
        rw [sound.rowHasEdge old ref]
      | none =>
        -- a digest without a row has no edges, so every position of the new manifest is linked
        have free : tx.manifestBlobs.lookup (digest,0) = none := by
          by_contra taken
          obtain ⟨edge,linked⟩ := Option.ne_none_iff_exists'.mp taken
          obtain ⟨row,has⟩ := memLookup.mp (sound.edgeHasRow linked)
          rw [old] at has
          contradiction
        simp only [old,Option.getD_none,manifestRow] at ref
        simpa [free,mine,List.head?_eq_getElem?] using ref
    · rw [sound.rowHasEdge found ref]

theorem soundDrop (sound : Sound tx) (digest : Key) : Sound (dropManifest tx digest) where
  counted key := by
    have split := countDeleteWhere tx.manifestBlobs (names key) (fun edge _ => decide (edge.1 = digest))
    have lowered := refCountDrop tx.blobs (edgesOf tx digest) key
    have same := countEdgesOf tx digest key
    have old := sound.counted key
    simp only [edgeCount,dropManifest,lowered] at old ⊢
    omega
  edgeHasRow {d pos key} h := by
    simp only [dropManifest,lookupDeleteWhere,Option.filter_eq_some_iff] at h
    simp only [dropManifest,AList.mem_erase]
    exact ⟨by simpa using h.2,sound.edgeHasRow h.1⟩
  rowHasEdge {d row key} found ref := by
    obtain ⟨other,found⟩ := lookupErased _ found
    simp only [dropManifest,lookupDeleteWhere,sound.rowHasEdge found ref]
    simp [other]

theorem soundReap (sound : Sound tx) (found : tx.blobs.lookup key = some row) (orphan : row.refCount = 0) :
    Sound {tx with blobs := tx.blobs.erase key} where
  counted k := by
    have old := sound.counted k
    simp only [edgeCount,refCountIn,lookupErase] at old ⊢
    split
    · next same =>
      subst same
      rw [found] at old
      simpa [orphan] using old
    · exact old
  edgeHasRow := sound.edgeHasRow
  rowHasEdge := sound.rowHasEdge

theorem deleteManifestOk {digest} (ok : deleteManifest indexes tx digest = .ok tx') :
    tx' = tx ∧ (∀ key, hexKey digest = .ok (some key) → key ∉ tx.manifests) ∨
      ∃ key, hexKey digest = .ok (some key) ∧ key ∈ tx.manifests ∧ tx' = markPrune (nextCSN (dropManifest tx key)) := by
  simp only [deleteManifest,bindOk] at ok
  obtain ⟨value,bound,rest⟩ := ok
  cases value with
  | none =>
    refine .inl ⟨(Except.ok.inj rest).symm,fun key other => ?_⟩
    cases okSame bound other
  | some key =>
    cases found : tx.manifests.lookup key with
    | none =>
      simp only [found] at rest
      refine .inl ⟨(Except.ok.inj rest).symm,fun k same => ?_⟩
      cases Option.some.inj (okSame bound same)
      exact AList.lookup_eq_none.mp found
    | some row =>
      simp only [found] at rest
      refine .inr ⟨key,bound,memLookup.mpr ⟨row,found⟩,?_⟩
      split at rest
      · simp only [bindOk] at rest
        obtain ⟨_,_,_,_,last⟩ := rest
        exact (Except.ok.inj last).symm
      · simp only [bindOk] at rest
        obtain ⟨_,_,last⟩ := rest
        exact (Except.ok.inj last).symm

theorem deleteOrphanBlobOk {ref removed} (ok : deleteOrphanBlob tx ref = .ok (tx',removed)) :
    tx' = tx ∧ removed = false ∨ ∃ key row, hexKey ref = .ok (some key) ∧ tx.blobs.lookup key = some row ∧
      row.refCount = 0 ∧ tx' = {tx with blobs := tx.blobs.erase key} := by
  simp only [deleteOrphanBlob,bindOk] at ok
  obtain ⟨value,bound,rest⟩ := ok
  cases value with
  | none =>
    cases rest
    exact .inl ⟨rfl,rfl⟩
  | some key =>
    cases found : tx.blobs.lookup key with
    | none =>
      simp only [found] at rest
      cases rest
      exact .inl ⟨rfl,rfl⟩
    | some row =>
      simp only [found] at rest
      split at rest
      · next orphan =>
        cases rest
        exact .inr ⟨key,row,bound,found,orphan,rfl⟩
      · cases rest
        exact .inl ⟨rfl,rfl⟩

inductive IndexOp where
  | indexManifest (m : Manifest) (path : String) (now : Instant)
  | deleteManifest (digest : String)
  | deleteOrphanBlob (ref : String)

def perform (indexes : List CustomIndex) (tx : Index) : IndexOp → Except Error Index
  | .indexManifest m path now => indexManifest indexes tx m path now
  | .deleteManifest digest => deleteManifest indexes tx digest
  | .deleteOrphanBlob ref => do return (← deleteOrphanBlob tx ref).1

def transact (indexes : List CustomIndex) (tx : Index) (op : IndexOp) : Index :=
  match perform indexes tx op with
  | .ok tx' => tx'
  | .error _ => tx

inductive Performed (indexes : List CustomIndex) (tx : Index) : IndexOp → Index → Prop
  | same {op} : Performed indexes tx op tx
  | registered {m path now r} (possible : registration indexes m = .ok r) :
    Performed indexes tx (.indexManifest m path now) (register tx m path now r)
  | dropped {digest} (key : Key) : Performed indexes tx (.deleteManifest digest) (markPrune (nextCSN (dropManifest tx key)))
  | reaped {ref key row} (found : tx.blobs.lookup key = some row) (orphan : row.refCount = 0) :
    Performed indexes tx (.deleteOrphanBlob ref) {tx with blobs := tx.blobs.erase key}

theorem performed {op} (ok : perform indexes tx op = .ok tx') : Performed indexes tx op tx' := by
  cases op with
  | indexManifest m path now =>
    obtain ⟨r,possible,rfl⟩ := indexManifestOk.mp ok
    exact .registered possible
  | deleteManifest digest =>
    rcases deleteManifestOk ok with ⟨rfl,_⟩ | ⟨key,_,_,rfl⟩
    · exact .same
    · exact .dropped key
  | deleteOrphanBlob ref =>
    obtain ⟨⟨tx'',removed⟩,done,last⟩ := bindOk.mp ok
    cases last
    rcases deleteOrphanBlobOk done with ⟨rfl,_⟩ | ⟨key,row,_,found,orphan,rfl⟩
    · exact .same
    · exact .reaped found orphan

theorem soundPerform {op} (sound : Sound tx) (done : Performed indexes tx op tx') : Sound tx' := by
  cases done with
  | same => exact sound
  | registered => exact soundRegister sound _ _ _ _
  | dropped key =>
    have dropped := soundDrop sound key
    exact ⟨dropped.counted,dropped.edgeHasRow,dropped.rowHasEdge⟩
  | reaped found orphan => exact soundReap sound found orphan

section
variable (indexes : List CustomIndex)
theorem transacted (tx : Index) (op : IndexOp) : Performed indexes tx op (transact indexes tx op) := by
  unfold transact
  split
  · next ok => exact performed ok
  · exact .same

theorem soundTransact (tx : Index) (op : IndexOp) (sound : Sound tx) : Sound (transact indexes tx op) :=
  soundPerform sound (transacted indexes tx op)

def reached (ops : List IndexOp) : Index := after (transact indexes) Index.empty ops

theorem soundReached (ops : List IndexOp) : Sound (reached indexes ops) :=
  invariantRun (fun tx op h => soundTransact indexes tx op h) ops soundEmpty

end

theorem referencedRow (sound : Sound tx) {digest} (ref : References tx digest key) :
    ∃ row, tx.blobs.lookup key = some row ∧ edgeCount tx key ≤ row.refCount ∧ 0 < row.refCount := by
  have edge : ∃ pos, tx.manifestBlobs.lookup (digest,pos) = some key := by
    rcases ref with edge | ⟨row,found,cached⟩
    · exact edge
    · exact ⟨0,sound.rowHasEdge found cached⟩
  obtain ⟨pos,linked⟩ := edge
  have positive : 0 < edgeCount tx key := countPos linked (by simp [names])
  have counted := sound.counted key
  unfold refCountIn at counted
  cases found : tx.blobs.lookup key with
  | none =>
    rw [found] at counted
    exact absurd (Nat.lt_of_lt_of_le positive counted) (Nat.lt_irrefl 0)
  | some row =>
    rw [found] at counted
    exact ⟨row,rfl,counted,Nat.lt_of_lt_of_le positive counted⟩

theorem orphanListed (listed : hexOut key ∈ listOrphanBlobs tx) :
    ∃ row, tx.blobs.lookup key = some row ∧ row.refCount = 0 := by
  simp only [listOrphanBlobs,mem_map,mem_filter,decide_eq_true_eq] at listed
  obtain ⟨⟨k,row⟩,⟨mem,orphan⟩,same⟩ := listed
  cases HexText.encodeInjective same
  exact ⟨row,lookupEntry.mpr mem,orphan⟩

/-- Every index reached by committed or rolled-back transactions counts each edge, so neither orphan
listing nor orphan reaping touches a blob some manifest row references. -/
theorem orphansUnreferenced (indexes : List CustomIndex) (ops : List IndexOp) :
    let tx := reached indexes ops
    (∀ digest pos key, tx.manifestBlobs.lookup (digest,pos) = some key →
      ∃ row, tx.blobs.lookup key = some row ∧ edgeCount tx key ≤ row.refCount) ∧
    ∀ digest key, digest ∈ tx.manifests → References tx digest key →
      hexOut key ∉ listOrphanBlobs tx ∧
      ∀ ref tx' removed, deleteOrphanBlob tx ref = .ok (tx',removed) → tx'.blobs.lookup key = tx.blobs.lookup key := by
  intro tx
  have sound : Sound tx := soundReached indexes ops
  refine ⟨fun digest pos key linked => ?_,fun digest key _ ref => ?_⟩
  · obtain ⟨row,found,counted,_⟩ := referencedRow sound (.inl ⟨pos,linked⟩)
    exact ⟨row,found,counted⟩
  obtain ⟨row,found,_,positive⟩ := referencedRow sound ref
  refine ⟨fun listed => ?_,fun text tx' removed done => ?_⟩
  · obtain ⟨same,again,orphan⟩ := orphanListed listed
    cases someSame found again
    omega
  rcases deleteOrphanBlobOk done with ⟨rfl,_⟩ | ⟨k,reaped,_,here,orphan,rfl⟩
  · rfl
  simp only [lookupErase]
  split
  · next same =>
    subst same
    cases someSame found here
    omega
  · rfl

end Scrinium.SqliteIndex
