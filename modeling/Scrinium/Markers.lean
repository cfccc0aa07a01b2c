import Scrinium.GracePeriod
import Scrinium.InitRefusals
import Scrinium.ManifestRemoval

/-! How long tombstone markers last. A driver listing hides them, so they are found only from the path of an orphan row. -/
namespace Scrinium.Markers
open List hiding after
open Keyed Domain Layout LocalFs SqliteIndex Cas Gc StoreRuns InitStore Orphanscan Trace StoreDescriptor
open IndexCompleteness (visited reconcileFold)
open ManifestRemoval (foldAway stagingKeeps)
open OwnedRows (lookupDrops)

structure CycleRun where
  complete : Bool
  grace : Nat
  tMark : Instant
  tSweep : Instant
  deriving DecidableEq

def collect (s : State) (c : CycleRun) : State := (runCycle c.complete c.grace c.tMark c.tSweep s).state
def Elapsed (c : CycleRun) (file : File) : Prop := file.modTime + c.grace ≤ c.tMark ∧ c.tMark ≤ c.tSweep
instance (c : CycleRun) (file : File) : Decidable (Elapsed c file) := by
  unfold Elapsed
  infer_instance

variable {fs : Fs} {file now}

section
variable {path other}
theorem markKeeps (marked : fs.lookup (marker path) = some file) (away : other ≠ marker path) :
    (markTombstone fs other now).lookup (marker path) = some file := by
  by_cases here : other = path
  · subst here
    rw [markMarker,marked]
    rfl
  · rw [markFrame now away.symm fun same => here (markerInjective same).symm]
    exact marked

variable {paths : List String}

section
variable (away : ∀ other ∈ paths, other ≠ marker path) (marked : fs.lookup (marker path) = some file)
include away marked
theorem marksKeep : (paths.foldl (fun fs path => markTombstone fs path now) fs).lookup (marker path) = some file := by
  induction paths generalizing fs with
  | nil => exact marked
  | cons first rest ih =>
    exact ih (fun other mem => away other (mem_cons_of_mem first mem)) (markKeeps marked (away first mem_cons_self))

theorem unknownsKeep : (paths.foldl (markUnknown now) fs).lookup (marker path) = some file := by
  induction paths generalizing fs with
  | nil => exact marked
  | cons first rest ih =>
    refine ih (fun other mem => away other (mem_cons_of_mem first mem)) ?_
    unfold markUnknown
    split
    · exact marked
    · exact markKeeps marked (away first mem_cons_self)

end

theorem unknownNotMarker {tx} (mem : other ∈ (listObjects fs "blobs").filter (isUnknown tx)) : other ≠ marker path := by
  rintro rfl
  obtain ⟨ref,parsed,_⟩ := isUnknownRef (mem_filter.mp mem).2
  exact markerNoRef path ref parsed

end

variable {topology}

section
variable {grace path w}
variable {entries : List (Sigma fun _ : Key => BlobRow)}
theorem sweepMarker (ready : Sweepable topology entries w) (marked : w.state.fs.lookup (marker path) = some file) :
    ((entries.map fun entry => hexOut entry.1).foldl (sweepRef grace now) w).state.fs.lookup (marker path) =
      if path ∈ entries.map (fun entry => entry.2.physicalPath) ∧ Due grace now file then none else some file := by
  rw [sweepTakes grace now ready,← marked]
  refine (lookupDrops _ _ _).trans (if_congr ?_ rfl rfl)
  rw [mem_map,mem_map]
  constructor
  · rintro ⟨⟨e,f⟩,took,same⟩
    obtain ⟨mem,found,due⟩ := memTaken.mp took
    cases someSame found (same ▸ marked)
    exact ⟨⟨e,mem,markerInjective same⟩,due⟩
  · rintro ⟨⟨e,mem,rfl⟩,due⟩
    exact ⟨(e,file),memTaken.mpr ⟨mem,marked,due⟩,rfl⟩

theorem sweepRow (ready : Sweepable topology entries w) {row} (mem : ⟨key,row⟩ ∈ entries)
    (marked : w.state.fs.lookup (marker row.physicalPath) = some file) :
    ((entries.map fun entry => hexOut entry.1).foldl (sweepRef grace now) w).state.index.blobs.lookup key =
      if Due grace now file then none else some row := by
  rw [sweepTakes grace now ready,← (ready.orphans _ mem).1]
  by_cases due : Due grace now file
  · rw [if_pos due]
    exact (lookupDrops _ _ _).trans (if_pos (mem_map.mpr ⟨(⟨key,row⟩,file),memTaken.mpr ⟨mem,marked,due⟩,rfl⟩))
  rw [if_neg due]
  refine (lookupDrops _ _ _).trans (if_neg fun inside => ?_)
  obtain ⟨⟨e,f⟩,took,rfl⟩ := mem_map.mp inside
  obtain ⟨there,found,late⟩ := memTaken.mp took
  cases someSame (ready.orphans e there).1 (ready.orphans _ mem).1
  cases someSame found marked
  exact due late

end

variable {s : State}

section
variable {path} {c : CycleRun}
theorem placedCollect (placed : RowsPlaced topology s.index) (c : CycleRun) : RowsPlaced topology (collect s c).index :=
  placedCycle c.complete c.grace c.tMark c.tSweep placed

section
variable (placed : RowsPlaced topology s.index)
include placed
theorem preparedKeeps (marked : s.fs.lookup (marker path) = some file) :
    (reconcileMedia c.complete (mark s c.tMark) c.tMark).fs.lookup (marker path) = some file := by
  have first : (mark s c.tMark).fs.lookup (marker path) = some file := by
    rw [markPaths placed]
    exact marksKeep (fun other mem => dotlessNotMarker (orphanDotless placed other mem)) marked
  unfold reconcileMedia
  split
  · exact unknownsKeep (fun other mem => unknownNotMarker mem) first
  · exact first

theorem collectMarker (marked : s.fs.lookup (marker path) = some file) (c : CycleRun) :
    (collect s c).fs.lookup (marker path) =
      if path ∈ orphanPaths s.index ∧ Due c.grace c.tSweep file then none else some file := by
  rw [collect,runCycleRefs]
  exact sweepMarker (prepared placed c.complete c.tMark) (preparedKeeps placed marked)

theorem collectRow {key row} (found : s.index.blobs.lookup key = some row) (orphan : row.refCount = 0)
    (marked : s.fs.lookup (marker row.physicalPath) = some file) (c : CycleRun) :
    (collect s c).index.blobs.lookup key = if Due c.grace c.tSweep file then none else some row := by
  rw [collect,runCycleRefs]
  exact sweepRow (prepared placed c.complete c.tMark) (orphanEntry.mpr ⟨found,orphan⟩) (preparedKeeps placed marked)

structure Gone (path : String) (s : State) : Prop where
  file : s.fs.lookup path = none
  marker : s.fs.lookup (LocalFs.marker path) = none
  row : path ∉ orphanPaths s.index

theorem orphansFewer (c : CycleRun) (mem : path ∈ orphanPaths (collect s c).index) : path ∈ orphanPaths s.index := by
  obtain ⟨key,row,found,orphan,same⟩ := orphanPath.mp mem
  exact orphanPath.mpr ⟨key,row,(cycled placed c.complete c.grace c.tMark c.tSweep).rows key row found,orphan,same⟩

theorem collectGone (plain : dotless path = true) (gone : Gone path s) (c : CycleRun) : Gone path (collect s c) := by
  have apart : ∀ other ∈ orphanPaths s.index, path ≠ other := fun other mem same => gone.row (same ▸ mem)
  have file1 : (mark s c.tMark).fs.lookup path = none := by
    rw [markPaths placed,marksFrame _ _ fun other mem => ⟨apart other mem,dotlessNotMarker plain⟩]
    exact gone.file
  have marker1 : (mark s c.tMark).fs.lookup (marker path) = none := by
    rw [markPaths placed,marksFrame _ _ fun other mem => ⟨(dotlessNotMarker (orphanDotless placed other mem)).symm,
      fun same => apart other mem (markerInjective same)⟩]
    exact gone.marker
  -- The reconciliation marks files that are there, and this one is not.
  have unlisted : ∀ other ∈ (listObjects (mark s c.tMark).fs "blobs").filter (isUnknown s.index), path ≠ other := by
    rintro other mem rfl
    obtain ⟨held,found⟩ := memLookup.mp (mem_filter.mp (mem_filter.mp mem).1).1
    rw [file1] at found
    cases found
  have prepared : (reconcileMedia c.complete (mark s c.tMark) c.tMark).fs.lookup path = none ∧
      (reconcileMedia c.complete (mark s c.tMark) c.tMark).fs.lookup (marker path) = none := by
    unfold reconcileMedia
    split
    · refine ⟨(unknownsFrame _ _ fun other mem => ⟨unlisted other mem,dotlessNotMarker plain⟩).trans file1,
        (unknownsFrame _ _ fun other mem => ⟨(unknownNotMarker mem).symm,?_⟩).trans marker1⟩
      exact fun same => unlisted other mem (markerInjective same)
    · exact ⟨file1,marker1⟩
  have ready := Gc.prepared placed c.complete c.tMark
  have swept := sweptOver c.grace c.tSweep ready
  rw [collect,runCycleRefs]
  refine ⟨(swept.files path plain).trans prepared.1,?_,?_⟩
  · rw [sweepTakes c.grace c.tSweep ready]
    simp only [lookupDrops,prepared.2,ite_self]
  · rw [← runCycleRefs]
    exact fun mem => gone.row (orphansFewer placed c mem)

theorem collectTakes (marked : s.fs.lookup (marker path) = some file)
    (orphan : path ∈ orphanPaths s.index) (due : Due c.grace c.tSweep file) : Gone path (collect s c) := by
  obtain ⟨key,row,found,zero,rfl⟩ := orphanPath.mp orphan
  have whole := cycled placed c.complete c.grace c.tMark c.tSweep
  refine ⟨?_,?_,fun mem => ?_⟩
  · exact (whole.files key row found).trans (if_pos zero)
  · rw [collectMarker placed marked,if_pos ⟨orphan,due⟩]
  · obtain ⟨key',row',found',zero',same⟩ := orphanPath.mp mem
    have before := whole.rows key' row' found'
    cases samePathKey placed before found same
    have dropped := collectRow placed found zero marked c
    rw [if_pos due] at dropped
    cases dropped.symm.trans found'

end

theorem elapsedDue (elapsed : Elapsed c file) : Due c.grace c.tSweep file := by
  rintro ⟨_,young⟩
  have aged : file.modTime + c.grace ≤ c.tSweep := Nat.le_trans elapsed.1 elapsed.2
  exact absurd young (Nat.not_lt.mpr (Nat.le_sub_of_add_le (Nat.add_comm file.modTime c.grace ▸ aged)))

variable (placed : RowsPlaced topology s.index)
include placed

theorem strayStays (marked : s.fs.lookup (marker path) = some file) (stray : path ∉ orphanPaths s.index) (cycles : List CycleRun) :
    (after collect s cycles).fs.lookup (marker path) = some file := by
  induction cycles generalizing s with
  | nil => exact marked
  | cons c rest ih =>
    refine ih (placedCollect placed c) ?_ fun mem => stray (orphansFewer placed c mem)
    rw [collectMarker placed marked,if_neg fun both => stray both.1]

theorem goneStays (plain : dotless path = true) (gone : Gone path s)
    (cycles : List CycleRun) : Gone path (after collect s cycles) := by
  induction cycles generalizing s with
  | nil => exact gone
  | cons c rest ih => exact ih (placedCollect placed c) (collectGone placed plain gone c)

theorem orphanGoes (marked : s.fs.lookup (marker path) = some file)
    (orphan : path ∈ orphanPaths s.index) {cycles} (elapsed : ∃ c ∈ cycles, Elapsed c file) :
    Gone path (after collect s cycles) := by
  have plain := orphanDotless placed path orphan
  induction cycles generalizing s with
  | nil =>
    obtain ⟨_,mem,_⟩ := elapsed
    exact absurd mem not_mem_nil
  | cons c rest ih =>
    by_cases due : Due c.grace c.tSweep file
    · exact goneStays (placedCollect placed c) plain (collectTakes placed marked orphan due) rest
    refine ih (placedCollect placed c) ?_ ?_ ?_
    · rw [collectMarker placed marked,if_neg fun both => due both.2]
    · obtain ⟨key,row,found,zero,rfl⟩ := orphanPath.mp orphan
      have waiting := collectRow placed found zero marked c
      rw [if_neg due] at waiting
      exact orphanPath.mpr ⟨key,row,waiting,zero,rfl⟩
    · obtain ⟨c',mem,elapsed⟩ := elapsed
      rcases mem_cons.mp mem with rfl | later
      · exact absurd (elapsedDue elapsed) due
      · exact ⟨c',later,elapsed⟩

theorem firstCycle (orphan : path ∈ orphanPaths s.index) :
    (Due c.grace c.tSweep (markedFile s.fs path c.tMark) → Gone path (collect s c)) ∧
    (¬ Due c.grace c.tSweep (markedFile s.fs path c.tMark) →
      (collect s c).fs.lookup (marker path) = some (markedFile s.fs path c.tMark) ∧ path ∈ orphanPaths (collect s c).index) := by
  obtain ⟨key,row,found,zero,rfl⟩ := orphanPath.mp orphan
  have whole := cycled placed c.complete c.grace c.tMark c.tSweep
  have ready := prepared placed c.complete c.tMark
  have marked := preparedMarker placed c.complete c.tMark found zero
  have swept : (collect s c).fs.lookup (marker row.physicalPath) = _ := runCycleRefs .. ▸ sweepMarker ready marked
  have left : (collect s c).index.blobs.lookup key = _ :=
    runCycleRefs .. ▸ sweepRow ready (orphanEntry.mpr ⟨found,zero⟩) marked
  constructor
  · intro due
    rw [if_pos due] at left
    refine ⟨(whole.files key row found).trans (if_pos zero),swept.trans (if_pos ⟨orphan,due⟩),fun mem => ?_⟩
    obtain ⟨key',row',found',zero',same⟩ := orphanPath.mp mem
    cases samePathKey placed (whole.rows key' row' found') found same
    cases left.symm.trans found'
  · intro due
    rw [if_neg due] at left
    exact ⟨swept.trans (if_neg fun both => due both.2),orphanPath.mpr ⟨key,row,left,zero,rfl⟩⟩

end

section
variable {x o draw s' path place dir}
def Bare (fs : Fs) : Prop :=
  ∀ dir ∈ blobRoots, ∀ path, underDir dir path = true → fs.lookup path = none ∧ fs.lookup (marker path) = none

theorem suffixSegment {sep suffix} (plain : sep ∉ suffix) (chars : List Char) :
    ∃ segment ∈ (chars ++ suffix).splitOn sep, suffix <:+ segment := by
  induction chars with
  | nil =>
    rw [nil_append,splitOn_eq_singleton plain]
    exact ⟨suffix,mem_singleton_self _,suffix_refl _⟩
  | cons first rest ih =>
    obtain ⟨segment,mem,ends⟩ := ih
    rw [cons_append,splitOn_cons_eq_if_modifyHead]
    split
    · exact ⟨segment,mem_cons_of_mem _ mem,ends⟩
    cases segments : (rest ++ suffix).splitOn sep with
    | nil => exact absurd segments (splitOn_ne_nil sep _)
    | cons head others =>
      rw [segments] at mem
      rw [modifyHead_cons]
      rcases mem_cons.mp mem with rfl | later
      · exact ⟨first::segment,mem_cons_self,ends.trans (suffix_cons first segment)⟩
      · exact ⟨segment,mem_cons_of_mem _ later,ends⟩

theorem markerHidden (dir path : String) : underDir dir (marker path) = false := by
  rw [Bool.eq_false_iff]
  intro under
  rw [underDir,Bool.and_eq_true] at under
  obtain ⟨front,visible⟩ := under
  obtain ⟨rest,joined⟩ := isPrefixOf_iff_prefix.mp front
  have plain : '/' ∉ tombstoneSuffix.toList := by decide
  have tail : (marker path).toList.drop (dir.toList.length + 1) = rest := by
    rw [← joined,String.toList_append]
    exact drop_left' (by simp)
  -- The last slash of the directory stands before the suffix, so what follows it ends in the suffix.
  have ends : ∃ front, rest = front ++ tombstoneSuffix.toList := by
    rw [marker,String.toList_append,String.toList_append] at joined
    rcases append_eq_append_iff.mp joined with ⟨more,_,after⟩ | ⟨more,before,after⟩
    · exact ⟨more,after⟩
    rcases eq_nil_or_concat more with rfl | ⟨init,last,rfl⟩
    · exact ⟨[],after.symm⟩
    have slash : last = '/' := by
      have ends := congrArg List.getLast? before
      simpa using ends.symm
    refine absurd ?_ plain
    rw [after,slash]
    simp
  obtain ⟨front',rfl⟩ := ends
  obtain ⟨segment,mem,suffix⟩ := suffixSegment plain front'
  rw [tail] at visible
  have shown := all_eq_true.mp visible segment mem
  rw [isHidden,isSuffixOf_iff_suffix.mpr suffix] at shown
  cases shown

def Payload (path : String) : Prop := ∃ first ∈ ['b','c','p'], path.toList.head? = some first

theorem underPayload (rooted : dir ∈ blobRoots) (under : underDir dir path = true) : Payload path := by
  simp only [blobRoots,mem_cons,not_mem_nil,or_false] at rooted
  rcases rooted with rfl | rfl | rfl
  · exact ⟨'b',by decide,underHead under⟩
  · exact ⟨'c',by decide,underHead under⟩
  · exact ⟨'p',by decide,underHead under⟩

section
variable (payload : Payload path)
include payload
theorem markerPayload : Payload (marker path) := by
  obtain ⟨first,mem,head⟩ := payload
  refine ⟨first,mem,?_⟩
  rw [marker,String.toList_append,List.head?_append,head]
  rfl

variable {other fs' hashes desc cfg session kind}

theorem payloadApart (foreign : other ∉ ['b','c','p']) (head : place.toList.head? = some other) : path ≠ place := by
  rintro rfl
  obtain ⟨first,mem,same⟩ := payload
  rw [same] at head
  exact foreign (Option.some.inj head ▸ mem)

theorem namedApart (name ending : String) : path ≠ Named.fullPfx name ++ ending := by
  refine payloadApart payload (by decide : 'n' ∉ ['b','c','p']) ?_
  simp [Named.fullPfx,Named.rootSlash]

theorem unlisted (foreign : other ∉ ['b','c','p'])
    (head : (dir ++ "/").toList.head? = some other) : path ∉ listObjects fs dir := by
  intro listed
  exact payloadApart payload foreign ((listedHead listed).trans head) rfl

end

theorem writtenPayload {x data} (replica : Replica)
    (wrote : writeReplicaCell x hashes replica.name data now fs = .ok fs') (payload : Payload path) :
    fs'.lookup path = fs.lookup path := by
  obtain ⟨body,_,rfl⟩ := writtenCell wrote
  rw [LocalFs.put,lookupInsert,Named.cellFile,if_neg (namedApart payload replica.name "cell")]

theorem describedPayload {x} (wrote : writeBoth x hashes desc now fs = (fs',none)) (payload : Payload path) :
    fs'.lookup path = fs.lookup path := by
  unfold writeBoth at wrote
  split at wrote
  · cases wrote
  split at wrote
  · cases wrote
  next first =>
  split at wrote
  · cases wrote
  · next second =>
    cases wrote
    exact (writtenPayload .l1 second payload).trans (writtenPayload .l0 first payload)

theorem persistedPayload (persisted : persistInitState x o draw cfg desc fs = (fs',none)) (payload : Payload path) :
    fs'.lookup path = fs.lookup path := by
  unfold persistInitState at persisted
  split at persisted
  · cases persisted
  next described =>
  split at persisted
  · cases persisted
  next configured =>
  cases persisted
  obtain ⟨_,_,rest⟩ := bindOk.mp configured
  obtain ⟨_,_,claimed⟩ := bindOk.mp rest
  obtain ⟨next,rfl⟩ := claimedPut (mapErrorOk.mp claimed)
  rw [LocalFs.put,lookupInsert,Named.versionFile,if_neg (namedApart payload configName _)]
  exact describedPayload described payload

theorem persistStops {made stop} (stopped : persistInitState x o draw cfg desc fs = (fs',some stop)) :
    stop ≠ .initialised session made := by
  have halted : ∃ refusal halt, stop = Halt.outcome refusal halt := by
    unfold persistInitState at stopped
    split at stopped
    · exact ⟨_,_,(Option.some.inj (Prod.mk.inj stopped).2).symm⟩
    · split at stopped
      · exact ⟨_,_,(Option.some.inj (Prod.mk.inj stopped).2).symm⟩
      · cases stopped
  obtain ⟨refusal,halt,rfl⟩ := halted
  intro same
  cases halt <;> cases same

theorem reconciledPayload (f : Orphanscan.Faults) (ing : Orphanscan.Ingester) (payload : Payload path) :
    (Orphanscan.reconcile f (some ing) s).1.state.fs.lookup path = s.fs.lookup path := by
  have unvisited : path ∉ visited f s.fs := by
    unfold visited
    split
    · exact not_mem_nil
    · refine fun mem => unlisted payload (by decide : 'm' ∉ ['b','c','p']) rfl (( takeWhile_prefix _).subset mem)
  rw [reconcileFold,foldAway unvisited]
  exact stagingKeeps (unlisted payload (by decide : '.' ∉ ['b','c','p']) rfl)

theorem bootstrapPayload (e : Engine) (opening : StoreOpen.StoreOptions) (now : Instant) (payload : Payload path) :
    (StoreOpen.unlockBootstrap e Orphanscan.Faults.none opening now s true).1.state.fs.lookup path = s.fs.lookup path := by
  have kept := @reconciledPayload s path Orphanscan.Faults.none (Orphanscan.storeIngester e Orphanscan.Faults.none now) payload
  unfold StoreOpen.unlockBootstrap
  generalize Orphanscan.reconcile _ _ s = pair at kept
  obtain ⟨p,err⟩ := pair
  cases err with
  | some err => exact kept
  | none =>
    change (StoreOpen.recordCursor opening now p.state).fs.lookup path = s.fs.lookup path
    unfold StoreOpen.recordCursor
    split
    · exact kept
    · simp only [LocalFs.put,lookupInsert]
      rw [Named.cellFile,if_neg (namedApart payload _ "cell")]
      exact kept

theorem createdPayload (created : createStore x o draw cfg kind s = (s',.initialised session desc)) (payload : Payload path) :
    s'.fs.lookup path = s.fs.lookup path := by
  unfold createStore at created
  split at created
  · cases created
  split at created
  · next stopped => exact absurd (Prod.mk.inj created).2 (persistStops stopped)
  next fs persisted =>
  simp only at created
  split at created
  · cases created
  have booted := @bootstrapPayload ⟨fs,s.index⟩ path x.engine x.opening draw.now payload
  generalize StoreOpen.unlockBootstrap _ _ _ _ _ _ = brought at booted created
  obtain ⟨session',err⟩ := brought
  cases err with
  | some err => cases created
  | none =>
    cases created
    exact booted.trans (persistedPayload persisted payload)

theorem tombstonesSwept (refs : List String) (tx : Index) (fs : Fs) (path : String) :
    (refs.foldl (sweepTombstone tx) fs).lookup (marker path) = none ↔
      fs.lookup (marker path) = none ∨ ∃ ref ∈ refs, resolve tx ref = .ok path := by
  induction refs generalizing fs with
  | nil => simp
  | cons ref rest ih =>
    have one : (sweepTombstone tx fs ref).lookup (marker path) = none ↔
        fs.lookup (marker path) = none ∨ resolve tx ref = .ok path := by
      unfold sweepTombstone
      split
      · next failed => simp [failed]
      next found resolved =>
      rw [resolved]
      by_cases here : found = path
      · subst here
        refine iff_of_true ?_ (.inr rfl)
        split
        · next bare => exact Option.map_eq_none_iff.mp bare
        · rw [removeTombstone,lookupErase,if_pos rfl]
      · have other : ¬ (Except.ok found : Except Error String) = .ok path := fun same => here (Except.ok.inj same)
        rw [or_iff_left other]
        split
        · exact Iff.rfl
        · rw [removeTombstone,lookupErase,if_neg fun same => here (markerInjective same).symm]
    rw [foldl_cons,ih,one,or_assoc]
    simp only [mem_cons,exists_eq_or_imp]

theorem orphanResolved {tx} (placed : RowsPlaced topology tx) :
    (∃ ref ∈ listOrphanBlobs tx, resolve tx ref = .ok path) ↔ path ∈ orphanPaths tx := by
  rw [orphanPath]
  constructor
  · rintro ⟨ref,mem,resolved⟩
    obtain ⟨⟨key,row⟩,orphan,rfl⟩ := mem_map.mp mem
    obtain ⟨found,zero⟩ := orphanEntry.mp orphan
    exact ⟨key,row,found,zero,okSame (resolvePlaced placed found) resolved⟩
  · rintro ⟨key,row,found,zero,rfl⟩
    exact ⟨hexOut key,mem_map.mpr ⟨⟨key,row⟩,orphanEntry.mpr ⟨found,zero⟩,rfl⟩,resolvePlaced placed found⟩

theorem purgedBlob (rooted : dir ∈ blobRoots) (under : underDir dir path = true) :
    (wipeForReinit true s).fs.lookup path = none := by
  have swept : (sweepTargets true).any (fun dir => underDir dir path) = true :=
    any_eq_true.mpr ⟨dir,mem_append_right _ rooted,under⟩
  simp only [wipeForReinit,lookupSweeps,swept,if_true]

theorem purgedMarker (placed : RowsPlaced topology s.index) (path : String) :
    (wipeForReinit true s).fs.lookup (marker path) = none ↔
      (s.fs.lookup (marker path) ≠ none → path ∈ orphanPaths s.index) := by
  have hidden : (sweepTargets true).any (fun dir => underDir dir (marker path)) = false := by
    simp only [markerHidden]
    rfl
  simp only [wipeForReinit,lookupSweeps,hidden,if_true,Bool.false_eq_true,if_false]
  rw [sweepBlobTombstones,tombstonesSwept,orphanResolved placed,← or_iff_not_imp_left]

/- With a primary cell every marker under a blob root stands at the path of an orphan row; without one, where nothing is
wiped, there is nothing to wipe. -/
def Purgeable (s : State) : Prop :=
  (s.fs.lookup primary = none → Bare s.fs) ∧
    (s.fs.lookup primary ≠ none → ∀ dir ∈ blobRoots, ∀ path, underDir dir path = true →
      s.fs.lookup (marker path) ≠ none → path ∈ orphanPaths s.index)

theorem createdBare (created : createStore x o draw cfg kind s = (s',.initialised session desc)) :
    Bare s'.fs ↔ Bare s.fs := by
  refine forall₂_congr fun dir rooted => forall₂_congr fun path under => ?_
  have payload := underPayload rooted under
  rw [createdPayload created payload,createdPayload created (markerPayload payload)]

theorem purgedBare (placed : RowsPlaced topology s.index) :
    Bare (wipeForReinit true s).fs ↔ ∀ dir ∈ blobRoots, ∀ path, underDir dir path = true →
      s.fs.lookup (marker path) ≠ none → path ∈ orphanPaths s.index := by
  refine forall₂_congr fun dir rooted => forall₂_congr fun path under => ?_
  rw [and_iff_right (purgedBlob rooted under),purgedMarker placed]

theorem reinitBare (placed : RowsPlaced topology s.index) (purge : o.purgeOnReinit = true)
    (initialised : initStore x o draw s = (s',.initialised session desc)) : Bare s'.fs ↔ Purgeable s := by
  unfold initStore at initialised
  split at initialised
  · cases initialised
  next cfg kind _ =>
  have probed := prepareProbed x o kind s
  generalize prepareInitLocation x o kind s = result at probed initialised
  cases probed with
  | fresh absent =>
    rw [createdBare initialised]
    exact ⟨fun bare => ⟨fun _ => bare,fun found => absurd absent found⟩,fun purgeable => purgeable.1 absent⟩
  | wiped wipes =>
    have found := Option.isSome_iff_ne_none.mp wipes.1
    rw [createdBare initialised,purge,purgedBare placed]
    exact ⟨fun covered => ⟨fun absent => absurd absent found,fun _ => covered⟩,fun purgeable => purgeable.2 found⟩
  | refused found spared r => cases initialised
  | panicked found spared unread => cases initialised

end

/-- After any run, of a blob nothing refers to neither file nor marker nor row is left by cycles past the grace period. -/
theorem orphansReclaimed (e : Engine) (ops : List StoreOp) (path : String) (first : CycleRun) (rest : List CycleRun) :
    let s := after (advance e) emptyStore ops
    path ∈ orphanPaths s.index → (∃ c ∈ first::rest, Elapsed c (markedFile s.fs path first.tMark)) →
      Gone path (after collect s (first::rest)) := by
  intro s orphan elapsed
  have placed : RowsPlaced e.topology s.index := placedReached e ops
  have later := placedCollect placed first
  have ⟨taken,waiting⟩ := firstCycle (c := first) placed orphan
  by_cases due : Due first.grace first.tSweep (markedFile s.fs path first.tMark)
  · exact goneStays later (orphanDotless placed path orphan) (taken due) rest
  obtain ⟨marked,orphan'⟩ := waiting due
  obtain ⟨c,mem,elapsed⟩ := elapsed
  rcases mem_cons.mp mem with rfl | among
  · exact absurd (elapsedDue elapsed) due
  · exact orphanGoes later marked orphan' ⟨c,among,elapsed⟩

/-- A marker is gone after cycles past its grace period exactly when its path is that of an orphan row; a forced
initialisation with purge leaves none exactly when all of them were at such paths, or nothing was there. -/
theorem markersGoExactly (e : Engine) (ops : List StoreOp) (fs : Fs) (tx : Index)
    (reached : tx = (after (advance e) emptyStore ops).index) :
    (∀ path file cycles, fs.lookup (marker path) = some file → (∃ c ∈ cycles, Elapsed c file) →
      ((after collect ⟨fs,tx⟩ cycles).fs.lookup (marker path) = none ↔ path ∈ orphanPaths tx)) ∧
    ∀ x o draw s' session desc, o.forceReinit = true → o.purgeOnReinit = true →
      initStore x o draw ⟨fs,tx⟩ = (s',.initialised session desc) → (Bare s'.fs ↔ Purgeable ⟨fs,tx⟩) := by
  have placed : RowsPlaced e.topology tx := reached ▸ placedReached e ops
  refine ⟨fun path file cycles marked elapsed => ⟨fun gone => ?_,fun orphan => ?_⟩,?_⟩
  · by_contra stray
    have stays := strayStays (s := ⟨fs,tx⟩) placed marked stray cycles
    rw [gone] at stays
    cases stays
  · exact (orphanGoes (s := ⟨fs,tx⟩) placed marked orphan elapsed).marker
  · intro x o draw s' session desc _ purge initialised
    exact reinitBare (s := ⟨fs,tx⟩) placed purge initialised

def samplePurge : InitOptions := {sampleOptions .plain true with purgeOnReinit := true}
def strayPath : String := "blobs/07/07/0707070707070707070707070707070707070707070707070707070707070707"
def strayStore : State := {sampleStore with fs := LocalFs.put sampleStore.fs strayPath [1] 0}
def strayMarked : State := collect strayStore ⟨true,10,20,20⟩
def strayLater : State := collect strayMarked ⟨true,10,100,100⟩

theorem strayMarkerStays :
    strayMarked.fs.lookup strayPath = none ∧ strayMarked.fs.lookup (marker strayPath) = some ⟨[1],0,20⟩ ∧
    (strayMarked.index.blobs.entries.map fun entry => (entry.2.physicalPath,entry.2.refCount)) = [("blobs/00/00/00000102",1)] ∧
    Elapsed ⟨true,10,100,100⟩ ⟨[1],0,20⟩ ∧ strayLater.fs.lookup (marker strayPath) = some ⟨[1],0,20⟩ ∧
    underDir (rootFor .regular) strayPath = true ∧
    (initStore sampleHost samplePurge sampleDraw strayLater).2.created = true ∧
    (initStore sampleHost samplePurge sampleDraw strayLater).1.fs.lookup (marker strayPath) = some ⟨[1],0,20⟩ := by
  decide +kernel

def orphanOps : List StoreOp :=
  [.put (Readback.sampleConfig []) (Readback.sampleCall "u1" 1 0),.delete (Readback.sampleConfig []) "sha256-0000010201" 5]

theorem orphanReclaimed :
    Gone "blobs/00/00/00000102" (after collect (after (advance GracePeriod.sampleEngine) emptyStore orphanOps)
      [⟨true,10,6,6⟩,⟨true,10,100,100⟩]) :=
  orphansReclaimed GracePeriod.sampleEngine orphanOps _ ⟨true,10,6,6⟩ [⟨true,10,100,100⟩] (by decide +kernel) (by decide +kernel)

def orphanStore : State :=
  let s := collect (after (advance GracePeriod.sampleEngine) emptyStore orphanOps) ⟨true,10,6,6⟩
  {s with fs := LocalFs.put s.fs primary [7] 0}

def orphanMarked : String := "blobs/00/00/00000102"

theorem orphanMarker (path : String) (marked : orphanStore.fs.lookup (marker path) ≠ none) : path = orphanMarked := by
  have one : ∀ key ∈ orphanStore.fs.keys, tombstoneSuffix.toList <:+ key.toList → key = marker orphanMarked := by decide +kernel
  obtain ⟨file,found⟩ := Option.ne_none_iff_exists'.mp marked
  have suffix : tombstoneSuffix.toList <:+ (marker path).toList := by
    rw [marker,String.toList_append]
    exact suffix_append _ _
  exact markerInjective (one _ (memLookup.mpr ⟨file,found⟩) suffix)

theorem orphanMarkerGoes :
    (∃ file, orphanStore.fs.lookup (marker orphanMarked) = some file) ∧
    (after collect orphanStore [⟨true,10,100,100⟩]).fs.lookup (marker orphanMarked) = none ∧
    (initStore sampleHost samplePurge sampleDraw orphanStore).2.created = true ∧
    Bare (initStore sampleHost samplePurge sampleDraw orphanStore).1.fs := by
  have reached : orphanStore.index = (after (advance GracePeriod.sampleEngine) emptyStore
      (orphanOps ++ [.cycle true 10 6 6])).index := by
    rfl
  obtain ⟨cycles,purge⟩ := markersGoExactly GracePeriod.sampleEngine _ orphanStore.fs orphanStore.index reached
  have marked : ∃ file, orphanStore.fs.lookup (marker orphanMarked) = some file ∧ Elapsed ⟨true,10,100,100⟩ file :=
    ⟨⟨[1,2],0,6⟩,by decide +kernel⟩
  have orphan : orphanMarked ∈ orphanPaths orphanStore.index := by decide +kernel
  have done : (initStore sampleHost samplePurge sampleDraw orphanStore).2.created = true := by decide +kernel
  obtain ⟨file,there,elapsed⟩ := marked
  refine ⟨⟨file,there⟩,(cycles orphanMarked file _ there ⟨_,mem_singleton_self _,elapsed⟩).mpr orphan,done,?_⟩
  have cell : orphanStore.fs.lookup primary ≠ none := by decide +kernel
  have purgeable : Purgeable orphanStore := by
    refine ⟨fun absent => absurd absent cell,fun _ dir _ path _ marked => ?_⟩
    rw [orphanMarker path marked]
    exact orphan
  cases ended : (initStore sampleHost samplePurge sampleDraw orphanStore).2 with
  | initialised session desc =>
    exact (purge sampleHost samplePurge sampleDraw _ session desc rfl rfl (Prod.ext rfl ended)).mpr purgeable
  | refused r =>
    rw [ended] at done
    cases done
  | panicked =>
    rw [ended] at done
    cases done

end Scrinium.Markers
