import Scrinium.IndexQueries

/-! Checkpoints of the index (checkpoint.go): WriteCheckpoint copies the whole database, RestoreCheckpoint a list of
tables kept by hand. -/
namespace Scrinium.SqliteIndex
open List hiding after
open Keyed Domain Stamped Trace

inductive TableName where
  | blobs
  | manifests
  | manifestBlobs
  | manifestHandles
  | extMeta
  | extData
  | projExt
  | schemaVersion
  | indexSeq
  deriving DecidableEq

structure Database where
  index : Index
  extMeta : Table String (Int × Nat)
  extData : Table (String × String × String) Bytes

def Database.fresh : Database := ⟨Index.empty,∅,∅⟩
def checkpointContentTables : List TableName := [.blobs,.manifests,.manifestBlobs,.manifestHandles,.extMeta,.extData]

def copyTable (ckpt main : Database) : TableName → Database
  | .blobs => {main with index := {main.index with blobs := insertAll ckpt.index.blobs main.index.blobs}}
  | .manifests => {main with index := {main.index with manifests := insertAll ckpt.index.manifests main.index.manifests}}
  | .manifestBlobs =>
    {main with index := {main.index with manifestBlobs := insertAll ckpt.index.manifestBlobs main.index.manifestBlobs}}
  | .manifestHandles =>
    {main with index := {main.index with manifestHandles := insertAll ckpt.index.manifestHandles main.index.manifestHandles}}
  | .extMeta => {main with extMeta := insertAll ckpt.extMeta main.extMeta}
  | .extData => {main with extData := insertAll ckpt.extData main.extData}
  | .projExt => {main with index := {main.index with projExt := insertAll ckpt.index.projExt main.index.projExt}}
  | .indexSeq => {main with index := {main.index with csn := ckpt.index.csn, pruneCsn := ckpt.index.pruneCsn}}
  | .schemaVersion => main

abbrev Checkpoints := Table String Database

def writeCheckpoint (files : Checkpoints) (db : Database) (destPath : String) : Except Error Checkpoints :=
  if destPath = "" then .error (.other "sqlite: WriteCheckpoint: empty destPath")
  else if destPath = ":memory:" then .error (.other "sqlite: WriteCheckpoint: in-memory destination not supported")
  else if destPath ∈ files then .error (.other ("sqlite: WriteCheckpoint: destination already exists: " ++ destPath))
  else .ok (files.insert destPath db)

def restoreCheckpoint (files : Checkpoints) (db : Database) (srcPath : String) : Except Error Database :=
  if srcPath = "" then .error (.other "sqlite: RestoreCheckpoint: empty srcPath")
  else if srcPath = ":memory:" then .error (.other "sqlite: RestoreCheckpoint: in-memory source not supported")
  else match files.lookup srcPath with
    | none => .error (.other "sqlite: RestoreCheckpoint: stat source: file does not exist")
    | some ckpt => .ok (checkpointContentTables.foldl (copyTable ckpt) db)

section
variable {files files' db path}
def restored (db : Database) : Database := checkpointContentTables.foldl (copyTable db) .fresh

theorem writtenRestores (written : writeCheckpoint files db path = .ok files') :
    restoreCheckpoint files' .fresh path = .ok (restored db) := by
  unfold writeCheckpoint at written
  split at written
  · cases written
  next named =>
  split at written
  · cases written
  next onDisk =>
  split at written
  · cases written
  cases written
  unfold restoreCheckpoint
  rw [if_neg named,if_neg onDisk,lookupInsert,if_pos rfl]
  rfl

theorem insertAllFresh {α β : Type} [DecidableEq α] (source : Table α β) (key : α) :
    (insertAll source ∅).lookup key = source.lookup key := by
  rw [lookupInsertAll,AList.lookup_empty,Option.or_none]

structure Filled (s r : Index) : Prop where
  blobs : ∀ key, r.blobs.lookup key = s.blobs.lookup key
  manifests : ∀ key, r.manifests.lookup key = s.manifests.lookup key
  projExt : r.projExt = ∅
  csn : r.csn = 0
  pruneCsn : r.pruneCsn = 0

theorem restoredFilled (db : Database) : Filled db.index (restored db).index :=
  ⟨insertAllFresh db.index.blobs,insertAllFresh db.index.manifests,rfl,rfl,rfl⟩

end

section
variable {s r}
structure CoreAnswers (s r : Index) : Prop where
  resolves : ∀ ref, resolve r ref = resolve s ref
  counts : ∀ ref, getRefCount r ref = getRefCount s ref
  digests : ∀ id, resolveManifestDigest r id = resolveManifestDigest s id
  iterates : (iterateManifests r).Perm (iterateManifests s)

structure SameProjections (s r : Index) : Prop where
  query : ∀ extName field value, queryByExtField r extName field value = queryByExtField s extName field value
  list : ∀ extName field value, (listByExtField r extName field value).Perm (listByExtField s extName field value)

structure SameFeed (s r : Index) : Prop where
  token : token r = token s
  since : ∀ cursor, since r cursor = since s cursor

def FreshNumbers (r : Index) : Prop :=
  ∀ indexes ops key row, (after (transact indexes) r ops).manifests.lookup key = some row →
    row.csn < (nextCSN (after (transact indexes) r ops)).csn

/-- The restored index answers every query as the original, and numbers further changes above its rows. -/
structure RoundTrip (s r : Index) : Prop where
  core : CoreAnswers s r
  projections : SameProjections s r
  feed : SameFeed s r
  fresh : FreshNumbers r

theorem coreAnswers (filled : Filled s r) (seq : Sequenced s) : CoreAnswers s r where
  resolves ref := by simp only [resolve,filled.blobs]
  counts ref := by simp only [getRefCount,filled.blobs]
  digests := digestSame filled.manifests seq.distinct
  iterates := iterateSame filled.manifests filled.blobs

def Unprojected (s : Index) : Prop :=
  ∀ key row extName field, s.manifests.lookup key = some row → row.artifactID ≠ none →
    s.projExt.lookup (key,extName,field) = none

theorem projectionsEmpty (none : r.projExt = ∅) (extName field value : String) :
    (userRows r).filter (projected r extName field value) = [] := by
  refine filter_eq_nil_iff.mpr fun entry _ => ?_
  simp [projected,none]

theorem projectionsExactly (filled : Filled s r) : SameProjections s r ↔ Unprojected s := by
  constructor
  · intro same key row extName field found handled
    by_contra some'
    obtain ⟨value,cell⟩ := Option.ne_none_iff_exists'.mp some'
    have listed := same.list extName field value
    rw [listByExtField,projectionsEmpty filled.projExt] at listed
    have mem : (⟨key,row⟩ : Entry) ∈ (userRows s).filter (projected s extName field value) := by
      refine mem_filter.mpr ⟨mem_filter.mpr ⟨lookupEntry.mp found,?_⟩,decide_eq_true cell⟩
      exact Option.isSome_iff_ne_none.mpr handled
    have inside : scanManifestRow s ⟨key,row⟩ ∈ listByExtField s extName field value :=
      (mem_insertionSort _).mpr (mem_map_of_mem mem)
    rw [← listed.mem_iff] at inside
    cases inside
  · intro free
    have empty : ∀ extName field value, (userRows s).filter (projected s extName field value) = [] := by
      intro extName field value
      refine filter_eq_nil_iff.mpr fun entry mem => ?_
      obtain ⟨held,handled⟩ := mem_filter.mp mem
      simp [projected,free entry.1 entry.2 extName field (lookupEntry.mpr held) (Option.isSome_iff_ne_none.mp handled)]
    refine ⟨fun extName field value => ?_,fun extName field value => ?_⟩
    · rw [queryByExtField,queryByExtField,empty,projectionsEmpty filled.projExt]
    · rw [listByExtField,listByExtField,empty,projectionsEmpty filled.projExt]
      exact .refl _

theorem freshExactly (filled : Filled s r) (seq : Sequenced s) : FreshNumbers r ↔ ∀ key, key ∉ s.manifests := by
  constructor
  · intro fresh key mem
    obtain ⟨row,found⟩ := memLookup.mp mem
    have above := fresh [] [] key row ((filled.manifests key).trans found)
    have stamped := (seq.issued found).1
    have first : (nextCSN (after (transact []) r [])).csn = 1 := by
      rw [show (nextCSN (after (transact []) r [])).csn = r.csn + 1 from rfl,filled.csn]
    omega
  · intro empty indexes ops key row found
    have bare : ∀ key row, r.manifests.lookup key ≠ some row := by
      intro key row held
      exact empty key (memLookup.mpr ⟨row,(filled.manifests key).symm.trans held⟩)
    have start : Sequenced r :=
      ⟨fun held => absurd held (bare _ _),fun held => absurd held (bare _ _),by rw [filled.pruneCsn]; exact Nat.zero_le _⟩
    have run : Sequenced (after (transact indexes) r ops) := invariantRun (fun _ op => sequencedTransact op) ops start
    exact Nat.lt_succ_of_le (run.issued found).2

theorem untouchedEmpty (indexes : List CustomIndex) (ops : List IndexOp) (zero : (reached indexes ops).csn = 0) :
    reached indexes ops = Index.empty := by
  have keep : ∀ (tx : Index) (op : IndexOp), (tx.csn = 0 → tx = Index.empty) →
      (transact indexes tx op).csn = 0 → transact indexes tx op = Index.empty := by
    intro tx op start
    have done := transacted indexes tx op
    generalize transact indexes tx op = tx' at done ⊢
    cases done with
    | same => exact start
    | registered => exact nofun
    | dropped => exact nofun
    | reaped found =>
      intro still
      rw [start still] at found
      cases found
  exact invariantRun keep ops (fun _ => rfl) zero

theorem feedEmpty (filled : Filled .empty r) : SameFeed .empty r where
  token := filled.csn
  since cursor := by
    have changes := changedSame filled.manifests sequencedEmpty.distinct cursor
    unfold since gappedAt
    rw [changes,filled.pruneCsn]
    rfl

end

/-- A checkpoint written and restored: the core queries answer as before; the projected fields do exactly when none is
projected, and new numbers are above all rows exactly when there are none. -/
theorem checkpointRoundTrip {files files' : Checkpoints} {db : Database} {path : String} (indexes : List CustomIndex)
    (ops : List IndexOp) (reachable : db.index = reached indexes ops) (written : writeCheckpoint files db path = .ok files') :
    ∃ r, restoreCheckpoint files' .fresh path = .ok r ∧ CoreAnswers db.index r.index ∧
      (SameProjections db.index r.index ↔ Unprojected db.index) ∧
      (FreshNumbers r.index ↔ ∀ key, key ∉ db.index.manifests) ∧
      (RoundTrip db.index r.index ↔ db.index.csn = 0) := by
  have filled := restoredFilled db
  have seq : Sequenced db.index := reachable ▸ sequencedReached indexes ops
  have core := coreAnswers filled seq
  have projections := projectionsExactly filled
  have fresh := freshExactly filled seq
  refine ⟨restored db,writtenRestores written,core,projections,fresh,?_⟩
  constructor
  · intro trip
    exact trip.feed.token.symm.trans filled.csn
  · intro zero
    have empty : db.index = Index.empty := reachable.trans (untouchedEmpty indexes ops (reachable ▸ zero))
    rw [empty] at core projections fresh filled ⊢
    have bare : Unprojected Index.empty := by
      intro key row extName field found
      cases found
    have rowless : ∀ key, key ∉ Index.empty.manifests := by
      intro key mem
      cases mem
    exact ⟨core,projections.mpr bare,feedEmpty filled,fresh.mpr rowless⟩

def kindIndex : CustomIndex :=
  { name := "media", index := fun _ => .ok [("kind","photo")], unindex := fun _ _ => .ok (), apply := fun _ => .ok () }

def projectedStore : Database := ⟨reached [kindIndex] [.indexManifest inlineSample "" 0],∅,∅⟩

theorem checkpointForgets :
    writeCheckpoint ∅ projectedStore "ckpt.db" = .ok ((∅ : Checkpoints).insert "ckpt.db" projectedStore) ∧
    queryByExtField projectedStore.index "media" "kind" "photo" = ["h1"] ∧
    queryByExtField (restored projectedStore).index "media" "kind" "photo" = [] ∧
    token projectedStore.index = 1 ∧ token (restored projectedStore).index = 0 ∧
    (restored projectedStore).index.manifests.entries.map (fun entry => entry.2.csn) = [1] ∧
    (nextCSN (restored projectedStore).index).csn = 1 := by
  refine ⟨rfl,?_⟩
  decide +kernel

theorem checkpointKeeps :
    (∃ r, restoreCheckpoint ((∅ : Checkpoints).insert "ckpt.db" projectedStore) .fresh "ckpt.db" = .ok r ∧
      CoreAnswers projectedStore.index r.index) ∧
    ∃ r, restoreCheckpoint ((∅ : Checkpoints).insert "ckpt.db" .fresh) .fresh "ckpt.db" = .ok r ∧
      RoundTrip Index.empty r.index := by
  obtain ⟨r,done,core,_⟩ := checkpointRoundTrip [kindIndex] [.indexManifest inlineSample "" 0]
    (show projectedStore.index = _ from rfl) (show writeCheckpoint ∅ projectedStore "ckpt.db" = .ok _ from rfl)
  obtain ⟨r',done',_,_,_,trip⟩ := checkpointRoundTrip [] [] (show Database.fresh.index = reached [] [] from rfl)
    (show writeCheckpoint ∅ .fresh "ckpt.db" = .ok _ from rfl)
  exact ⟨⟨r,done,core⟩,r',done',trip.mpr rfl⟩

end Scrinium.SqliteIndex
