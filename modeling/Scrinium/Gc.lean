import Scrinium.CasRead
import Scrinium.OwnedRows

/-! One garbage collection cycle over the driver and the index: mark, media reconciliation and sweep. -/
namespace Scrinium.Gc
open Keyed Domain Layout LocalFs SqliteIndex Cas Trace List
open OwnedRows (drops lookupDrops)

def markRef (tx : Index) (now : Instant) (fs : Fs) (ref : String) : Fs :=
  match resolve tx ref with
  | .error _ => fs
  | .ok path => if path = "" then fs else markTombstone fs path now

def mark (s : State) (now : Instant) : State :=
  {s with fs := (listOrphanBlobs s.index).foldl (markRef s.index now) s.fs}

def isUnknown (tx : Index) (path : String) : Bool :=
  match refFromBlobPath path with
  | .error _ => false
  | .ok ref =>
    match resolve tx ref with
    | .error .artifactNotFound => true
    | _ => false

def markUnknown (now : Instant) (fs : Fs) (path : String) : Fs :=
  if isTombstone fs path then fs else markTombstone fs path now

def reconcileMedia (complete : Bool) (s : State) (now : Instant) : State :=
  if complete then
    {s with fs := ((listObjects s.fs "blobs").filter (isUnknown s.index)).foldl (markUnknown now) s.fs}
  else s

structure Swept where
  state : State
  removed : List (String × File)

def sweepRef (grace : Nat) (now : Instant) (w : Swept) (ref : String) : Swept :=
  match resolve w.state.index ref with
  | .error _ => w
  | .ok path =>
    if path = "" then w
    else match tombstoneInfo w.state.fs path with
      | none => w
      | some since =>
        if 0 < grace ∧ now - since < grace then w
        else
          let fs := removeTombstone w.state.fs path
          let removed := w.removed ++ (w.state.fs.lookup (marker path)).toList.map fun file => (path,file)
          match deleteOrphanBlob w.state.index ref with
          | .ok (tx,_) => ⟨⟨fs,tx⟩,removed⟩
          | .error _ => ⟨⟨fs,w.state.index⟩,removed⟩

def sweep (grace : Nat) (now : Instant) (s : State) : Swept :=
  (listOrphanBlobs s.index).foldl (sweepRef grace now) ⟨s,[]⟩

def runCycle (complete : Bool) (grace : Nat) (tMark tSweep : Instant) (s : State) : Swept :=
  sweep grace tSweep (reconcileMedia complete (mark s tMark) tMark)

def orphanEntries (tx : Index) : List (Sigma fun _ : Key => BlobRow) :=
  tx.blobs.entries.filter fun entry => entry.2.refCount = 0

def orphanPaths (tx : Index) : List String := (orphanEntries tx).map fun entry => entry.2.physicalPath

variable {tx entry path other topology key row} {s : State} {paths : List String} {w w' grace now rest}

theorem orphanEntry : entry ∈ orphanEntries tx ↔ tx.blobs.lookup entry.1 = some entry.2 ∧ entry.2.refCount = 0 := by
  rw [orphanEntries,mem_filter,lookupEntry,decide_eq_true_eq]

theorem orphanPath :
    path ∈ orphanPaths tx ↔ ∃ key row, tx.blobs.lookup key = some row ∧ row.refCount = 0 ∧ row.physicalPath = path := by
  rw [orphanPaths,mem_map]
  refine ⟨?_,?_⟩
  · intro h
    obtain ⟨⟨key,row⟩,mem,same⟩ := h
    obtain ⟨found,orphan⟩ := orphanEntry.mp mem
    exact ⟨key,row,found,orphan,same⟩
  · intro h
    obtain ⟨key,row,found,orphan,same⟩ := h
    exact ⟨⟨key,row⟩,orphanEntry.mpr ⟨found,orphan⟩,same⟩

section
variable (placed : RowsPlaced topology tx) (found : tx.blobs.lookup key = some row)
include placed found
theorem keyNamed : key ≠ [] := by
  intro empty
  subst empty
  have shape := (placed [] row found).1
  contradiction

theorem pathNamed : row.physicalPath ≠ "" := by
  intro empty
  have head := rowHead placed found
  rw [empty] at head
  contradiction

theorem rowDotless : dotless row.physicalPath = true :=
  dotlessBlobPath (placed key row found).1 (placed key row found).2

end

theorem samePathKey {a b rowA rowB} (placed : RowsPlaced topology tx)
    (foundA : tx.blobs.lookup a = some rowA) (foundB : tx.blobs.lookup b = some rowB)
    (same : rowA.physicalPath = rowB.physicalPath) : a = b := by
  obtain ⟨shapeA,pathA⟩ := placed a rowA foundA
  obtain ⟨shapeB,pathB⟩ := placed b rowB foundB
  rw [same] at pathA
  exact HexText.encodeInjective (blobPathInjective shapeA shapeB pathA pathB)

theorem resolvePlaced (placed : RowsPlaced topology tx) (found : tx.blobs.lookup key = some row) :
    resolve tx (hexOut key) = .ok row.physicalPath :=
  resolveRow (keyNamed placed found) found

theorem markerDotted (path : String) : dotless (marker path) = false := by
  rw [marker,dotlessAppend,Bool.and_eq_false_iff]
  exact .inr rfl

theorem dotlessNotMarker (plain : dotless path = true) : path ≠ marker other := by
  intro same
  rw [same,markerDotted] at plain
  contradiction

theorem markerNoRef (path ref : String) : refFromBlobPath (marker path) ≠ .ok ref := by
  intro parsed
  obtain ⟨last,segment,rest⟩ := bindOk.mp parsed
  obtain ⟨_,shape,_⟩ := bindOk.mp rest
  have digits := (refShape.mp shape).2
  rw [lastSegment] at segment
  split at segment
  · cases segment
  cases segment
  have dot : '.' ∈ ((marker path).toList.reverse.takeWhile (· ≠ '/')).reverse := by
    have suffix : (marker path).toList.reverse = ".tombstone".toList.reverse ++ path.toList.reverse := by
      simp [marker,tombstoneSuffix,String.toList_append]
    have plain : ∀ c ∈ ".tombstone".toList.reverse, decide (c ≠ '/') = true := all_eq_true.mp rfl
    rw [suffix,takeWhile_append_of_pos plain,mem_reverse]
    exact mem_append_left _ (by decide)
  rw [String.toList_ofList] at digits
  exact absurd (all_eq_true.mp digits '.' dot) (by decide)

theorem orphanPathsNodup (placed : RowsPlaced topology tx) : (orphanPaths tx).Nodup := by
  have entries : (orphanEntries tx).Nodup := (List.NodupKeys.nodup tx.blobs.nodupKeys).filter _
  refine List.Nodup.map_on ?_ entries
  intro a memA b memB same
  obtain ⟨foundA,_⟩ := orphanEntry.mp memA
  obtain ⟨foundB,_⟩ := orphanEntry.mp memB
  have keys := samePathKey placed foundA foundB same
  obtain ⟨ka,ra⟩ := a
  obtain ⟨kb,rb⟩ := b
  cases keys
  cases someSame foundA foundB
  rfl

theorem markPaths (placed : RowsPlaced topology s.index) (now : Instant) :
    (mark s now).fs = (orphanPaths s.index).foldl (fun fs path => markTombstone fs path now) s.fs := by
  have step : ∀ (entries : List (Sigma fun _ : Key => BlobRow)) (fs : Fs),
      (∀ entry ∈ entries, s.index.blobs.lookup entry.1 = some entry.2) →
      (entries.map fun entry => hexOut entry.1).foldl (markRef s.index now) fs =
        (entries.map fun entry => entry.2.physicalPath).foldl (fun fs path => markTombstone fs path now) fs := by
    intro entries
    induction entries with
    | nil => intro fs _; rfl
    | cons entry rest ih =>
      intro fs held
      have found := held entry mem_cons_self
      have one : markRef s.index now fs (hexOut entry.1) = markTombstone fs entry.2.physicalPath now := by
        rw [markRef,resolvePlaced placed found]
        exact if_neg (pathNamed placed found)
      rw [map_cons,map_cons,foldl_cons,foldl_cons,one]
      exact ih _ fun e mem => held e (mem_cons_of_mem entry mem)
  exact step (orphanEntries s.index) s.fs fun entry mem => (orphanEntry.mp mem).1

theorem marksFrame (now : Instant) (fs : Fs) (away : ∀ path ∈ paths, other ≠ path ∧ other ≠ marker path) :
    (paths.foldl (fun fs path => markTombstone fs path now) fs).lookup other = fs.lookup other := by
  induction paths generalizing fs with
  | nil => rfl
  | cons path rest ih =>
    obtain ⟨notPath,notMarker⟩ := away path mem_cons_self
    rw [foldl_cons,ih _ fun p mem => away p (mem_cons_of_mem path mem)]
    exact markFrame now notPath notMarker

def markedFile (fs : Fs) (path : String) (now : Instant) : File :=
  (fs.lookup (marker path)).getD {(fs.lookup path).getD ⟨[],now,now⟩ with placedAt := now}

theorem marksAt (now : Instant) (fs : Fs) (distinct : paths.Nodup) (plain : ∀ path ∈ paths, dotless path = true)
    (mem : path ∈ paths) :
    (paths.foldl (fun fs path => markTombstone fs path now) fs).lookup path = none ∧
      (paths.foldl (fun fs path => markTombstone fs path now) fs).lookup (marker path) = some (markedFile fs path now) := by
  obtain ⟨before,after,rfl⟩ := append_of_mem mem
  have others : ∀ p ∈ before ++ after, p ≠ path ∧ dotless p = true := by
    intro p inside
    rw [nodup_middle,nodup_cons] at distinct
    exact ⟨fun same => distinct.1 (same ▸ inside),plain p (by simp only [mem_append,mem_cons] at inside ⊢; tauto)⟩
  -- the other paths are other blobs: neither their files nor their markers are this file or this marker
  have file : ∀ p ∈ before ++ after, path ≠ p ∧ path ≠ marker p := fun p inside =>
    ⟨(others p inside).1.symm,dotlessNotMarker (plain path mem)⟩
  have mark : ∀ p ∈ before ++ after, marker path ≠ p ∧ marker path ≠ marker p := fun p inside =>
    ⟨(dotlessNotMarker (others p inside).2).symm,fun same => (others p inside).1 (markerInjective same).symm⟩
  rw [foldl_append,foldl_cons]
  constructor
  · rw [marksFrame now _ fun p inside => file p (mem_append_right before inside),markSource]
  · rw [marksFrame now _ fun p inside => mark p (mem_append_right before inside),markMarker,
      marksFrame now _ fun p inside => mark p (mem_append_left after inside),
      marksFrame now _ fun p inside => file p (mem_append_left after inside)]
    rfl

theorem unknownsFrame (now : Instant) (fs : Fs) (away : ∀ path ∈ paths, other ≠ path ∧ other ≠ marker path) :
    (paths.foldl (markUnknown now) fs).lookup other = fs.lookup other := by
  induction paths generalizing fs with
  | nil => rfl
  | cons path rest ih =>
    obtain ⟨notPath,notMarker⟩ := away path mem_cons_self
    rw [foldl_cons,ih _ fun p mem => away p (mem_cons_of_mem path mem),markUnknown]
    split
    · rfl
    · exact markFrame now notPath notMarker

theorem isUnknownRef (unknown : isUnknown tx path = true) :
    ∃ ref, refFromBlobPath path = .ok ref ∧ resolve tx ref = .error .artifactNotFound := by
  unfold isUnknown at unknown
  split at unknown
  · contradiction
  next ref parsed =>
  split at unknown
  · next missing => exact ⟨ref,parsed,missing⟩
  · contradiction

theorem reconcileFrame (placed : RowsPlaced topology s.index) (complete : Bool) (now : Instant)
    (found : s.index.blobs.lookup key = some row) :
    (reconcileMedia complete s now).fs.lookup row.physicalPath = s.fs.lookup row.physicalPath ∧
      (reconcileMedia complete s now).fs.lookup (marker row.physicalPath) = s.fs.lookup (marker row.physicalPath) := by
  unfold reconcileMedia
  split
  · have known : ∀ path ∈ (listObjects s.fs "blobs").filter (isUnknown s.index),
        row.physicalPath ≠ path ∧ marker row.physicalPath ≠ path := by
      intro path mem
      obtain ⟨ref,parsed,missing⟩ := isUnknownRef (mem_filter.mp mem).2
      refine ⟨fun same => ?_,fun same => ?_⟩
      · obtain ⟨shape,place⟩ := placed key row found
        rw [← same,blobPathRef shape place] at parsed
        cases parsed
        rw [resolvePlaced placed found] at missing
        contradiction
      · exact markerNoRef _ ref (same ▸ parsed)
    refine ⟨unknownsFrame now s.fs ?_,unknownsFrame now s.fs ?_⟩
    · exact fun path mem => ⟨(known path mem).1,dotlessNotMarker (rowDotless placed found)⟩
    · exact fun path mem => ⟨(known path mem).2,fun same => (known path mem).1 (markerInjective same)⟩
  · exact ⟨rfl,rfl⟩

def Due (grace : Nat) (now : Instant) (file : File) : Prop := ¬ (0 < grace ∧ now - file.modTime < grace)
instance (grace : Nat) (now : Instant) (file : File) : Decidable (Due grace now file) := by
  unfold Due
  infer_instance

theorem sweepRefOrphan (placed : RowsPlaced topology w.state.index) (grace : Nat) (now : Instant)
    (found : w.state.index.blobs.lookup key = some row) (orphan : row.refCount = 0) :
    sweepRef grace now w (hexOut key) =
      match w.state.fs.lookup (marker row.physicalPath) with
      | none => w
      | some file =>
        if Due grace now file then
          ⟨⟨w.state.fs.erase (marker row.physicalPath),{w.state.index with blobs := w.state.index.blobs.erase key}⟩,
            w.removed ++ [(row.physicalPath,file)]⟩
        else w := by
  have reaped : deleteOrphanBlob w.state.index (hexOut key) =
      .ok ({w.state.index with blobs := w.state.index.blobs.erase key},true) := by
    simp only [deleteOrphanBlob,hexKeyEncode (keyNamed placed found),bind,Except.bind,found,orphan]
    rfl
  simp only [sweepRef,resolvePlaced placed found,if_neg (pathNamed placed found),tombstoneInfo]
  cases marked : w.state.fs.lookup (marker row.physicalPath) with
  | none => rfl
  | some file =>
    simp only [Option.map_some,Due]
    by_cases young : 0 < grace ∧ now - file.modTime < grace
    · simp [young]
    · simp [young,reaped,removeTombstone]

structure SweptOver (grace : Nat) (now : Instant) (entries : List (Sigma fun _ : Key => BlobRow)) (w w' : Swept) : Prop where
  removed : ∀ path file, (path,file) ∈ w'.removed ↔ (path,file) ∈ w.removed ∨ ∃ entry ∈ entries,
    entry.2.physicalPath = path ∧ w.state.fs.lookup (marker path) = some file ∧ Due grace now file
  files : ∀ other, dotless other = true → w'.state.fs.lookup other = w.state.fs.lookup other
  kept : ∀ key, (∀ entry ∈ entries, entry.1 ≠ key) →
    w'.state.index.blobs.lookup key = w.state.index.blobs.lookup key
  rows : ∀ key row, w'.state.index.blobs.lookup key = some row → w.state.index.blobs.lookup key = some row
  index : ∃ blobs, w'.state.index = {w.state.index with blobs := blobs}

theorem placedErase (placed : RowsPlaced topology tx) (key : Key) :
    RowsPlaced topology {tx with blobs := tx.blobs.erase key} := by
  intro k row found
  exact placed k row (lookupErased _ found).2

def taken (grace : Nat) (now : Instant) (fs : Fs) (entries : List (Sigma fun _ : Key => BlobRow)) :
    List ((Sigma fun _ : Key => BlobRow) × File) :=
  entries.filterMap fun entry =>
    ((fs.lookup (marker entry.2.physicalPath)).filter fun file => Due grace now file).map (Prod.mk entry)

theorem memTaken {fs file} :
    (entry,file) ∈ taken grace now fs rest ↔
      entry ∈ rest ∧ fs.lookup (marker entry.2.physicalPath) = some file ∧ Due grace now file := by
  rw [taken,mem_filterMap]
  constructor
  · rintro ⟨e,mem,same⟩
    obtain ⟨f,filtered,same⟩ := Option.map_eq_some_iff.mp same
    cases same
    rw [Option.filter_eq_some_iff,decide_eq_true_eq] at filtered
    exact ⟨mem,filtered⟩
  · rintro ⟨mem,marked,due⟩
    exact ⟨entry,mem,by simp [marked,due]⟩

structure Sweepable (topology : PathTopology) (entries : List (Sigma fun _ : Key => BlobRow)) (w : Swept) : Prop where
  placed : RowsPlaced topology w.state.index
  orphans : ∀ entry ∈ entries, w.state.index.blobs.lookup entry.1 = some entry.2 ∧ entry.2.refCount = 0
  distinct : (entries.map fun entry => entry.1).Nodup

variable {entries}

theorem sweepTakes (grace : Nat) (now : Instant) (ready : Sweepable topology entries w) :
    (entries.map fun entry => hexOut entry.1).foldl (sweepRef grace now) w =
      ⟨⟨drops w.state.fs ((taken grace now w.state.fs entries).map fun t => marker t.1.2.physicalPath),
        {w.state.index with blobs := drops w.state.index.blobs ((taken grace now w.state.fs entries).map fun t => t.1.1)}⟩,
        w.removed ++ (taken grace now w.state.fs entries).map fun t => (t.1.2.physicalPath,t.2)⟩ := by
  induction entries generalizing w with
  | nil => simp [taken,drops]
  | cons entry rest ih =>
    obtain ⟨placed,orphans,distinct⟩ := ready
    obtain ⟨fresh,tail⟩ := nodup_cons.mp distinct
    obtain ⟨found,orphan⟩ := orphans entry mem_cons_self
    have later : Sweepable topology rest w := ⟨placed,fun e mem => orphans e (mem_cons_of_mem entry mem),tail⟩
    have others : ∀ e ∈ rest, e.1 ≠ entry.1 := fun e mem same => fresh (mem_map.mpr ⟨e,mem,same⟩)
    have skipped (notDue : (w.state.fs.lookup (marker entry.2.physicalPath)).filter (fun file => Due grace now file) = none) :
        taken grace now w.state.fs (entry::rest) = taken grace now w.state.fs rest := by
      rw [taken,filterMap_cons,notDue]
      rfl
    rw [map_cons,foldl_cons,sweepRefOrphan placed grace now found orphan]
    cases marked : w.state.fs.lookup (marker entry.2.physicalPath) with
    | none => rw [skipped (by rw [marked]; rfl),ih later]
    | some old =>
      by_cases due : Due grace now old
      · -- No later entry has this marker, so the erasure hides none of them.
        have same : taken grace now (w.state.fs.erase (marker entry.2.physicalPath)) rest =
            taken grace now w.state.fs rest := by
          refine filterMap_congr fun e mem => ?_
          rw [lookupErase,if_neg fun clash => ?_]
          exact others e mem (samePathKey placed (later.orphans e mem).1 found (markerInjective clash))
        have first : taken grace now w.state.fs (entry::rest) = (entry,old)::taken grace now w.state.fs rest := by
          simp [taken,marked,due]
        simp only [due,if_true]
        rw [ih ⟨placedErase placed entry.1,fun e mem => ?_,tail⟩,same,first]
        · simp [drops]
        · simp only [lookupErase,if_neg (others e mem)]
          exact later.orphans e mem
      · simp only [due,if_false]
        rw [skipped (by simp [marked,due]),ih later]

theorem sweptOver (grace : Nat) (now : Instant) (ready : Sweepable topology entries w) :
    SweptOver grace now entries w ((entries.map fun entry => hexOut entry.1).foldl (sweepRef grace now) w) := by
  rw [sweepTakes grace now ready]
  refine ⟨fun path file => ?_,fun other plain => ?_,fun key away => ?_,fun key row found => ?_,⟨_,rfl⟩⟩
  · rw [mem_append,mem_map]
    refine or_congr_right ⟨?_,?_⟩
    · rintro ⟨⟨e,f⟩,mem,same⟩
      cases same
      obtain ⟨inside,marked,due⟩ := memTaken.mp mem
      exact ⟨e,inside,rfl,marked,due⟩
    · rintro ⟨e,inside,rfl,marked,due⟩
      exact ⟨(e,file),memTaken.mpr ⟨inside,marked,due⟩,rfl⟩
  · refine (lookupDrops _ _ _).trans (if_neg fun mem => ?_)
    obtain ⟨t,_,same⟩ := mem_map.mp mem
    exact dotlessNotMarker plain same.symm
  · refine (lookupDrops _ _ _).trans (if_neg fun mem => ?_)
    obtain ⟨t,took,same⟩ := mem_map.mp mem
    exact away t.1 (memTaken.mp took).1 same
  · simp only [lookupDrops] at found
    split at found
    · contradiction
    · exact found

theorem reconcileIndex (complete : Bool) (s : State) (now : Instant) : (reconcileMedia complete s now).index = s.index := by
  unfold reconcileMedia
  split <;> rfl

variable (placed : RowsPlaced topology s.index)
include placed

theorem orphanDotless : ∀ path ∈ orphanPaths s.index, dotless path = true := by
  intro path mem
  obtain ⟨key,row,found,_,rfl⟩ := orphanPath.mp mem
  exact rowDotless placed found

section
variable (complete : Bool) (now : Instant) (found : s.index.blobs.lookup key = some row)
include found
theorem preparedMarker (orphan : row.refCount = 0) :
    (reconcileMedia complete (mark s now) now).fs.lookup (marker row.physicalPath) =
      some (markedFile s.fs row.physicalPath now) := by
  rw [(reconcileFrame (s := mark s now) placed complete now found).2,markPaths placed now]
  exact (marksAt now s.fs (orphanPathsNodup placed) (orphanDotless placed) (orphanPath.mpr ⟨key,row,found,orphan,rfl⟩)).2

theorem preparedFile :
    (reconcileMedia complete (mark s now) now).fs.lookup row.physicalPath =
      if row.refCount = 0 then none else s.fs.lookup row.physicalPath := by
  rw [(reconcileFrame (s := mark s now) placed complete now found).1,markPaths placed now]
  split
  · next orphan =>
    exact (marksAt now s.fs (orphanPathsNodup placed) (orphanDotless placed) (orphanPath.mpr ⟨key,row,found,orphan,rfl⟩)).1
  next held =>
  refine marksFrame now s.fs fun path mem => ⟨fun same => ?_,dotlessNotMarker (rowDotless placed found)⟩
  obtain ⟨k,orphan,foundOrphan,zero,rfl⟩ := orphanPath.mp mem
  cases samePathKey placed found foundOrphan same
  cases someSame found foundOrphan
  exact held zero

end

theorem prepared (complete : Bool) (now : Instant) :
    Sweepable topology (orphanEntries s.index) ⟨reconcileMedia complete (mark s now) now,[]⟩ := by
  have same : (reconcileMedia complete (mark s now) now).index = s.index := reconcileIndex _ _ _
  refine ⟨same.symm ▸ placed,fun entry mem => ?_,List.NodupKeys.sublist filter_sublist s.index.blobs.nodupKeys⟩
  simpa only [same] using orphanEntry.mp mem

omit placed in
theorem runCycleRefs (complete : Bool) (grace : Nat) (tMark tSweep : Instant) :
    runCycle complete grace tMark tSweep s = ((orphanEntries s.index).map fun entry => hexOut entry.1).foldl
      (sweepRef grace tSweep) ⟨reconcileMedia complete (mark s tMark) tMark,[]⟩ := by
  have same : (reconcileMedia complete (mark s tMark) tMark).index = s.index := reconcileIndex _ _ _
  have orphans : listOrphanBlobs (reconcileMedia complete (mark s tMark) tMark).index =
      (orphanEntries s.index).map fun entry => hexOut entry.1 := by rw [same]; rfl
  rw [← orphans]
  rfl

structure Cycled (grace : Nat) (tMark tSweep : Instant) (s : State) (w : Swept) : Prop where
  removed : ∀ path file, (path,file) ∈ w.removed ↔
    path ∈ orphanPaths s.index ∧ file = markedFile s.fs path tMark ∧ Due grace tSweep file
  files : ∀ key row, s.index.blobs.lookup key = some row →
    w.state.fs.lookup row.physicalPath = if row.refCount = 0 then none else s.fs.lookup row.physicalPath
  kept : ∀ key row, s.index.blobs.lookup key = some row → row.refCount ≠ 0 →
    w.state.index.blobs.lookup key = some row
  rows : ∀ key row, w.state.index.blobs.lookup key = some row → s.index.blobs.lookup key = some row
  index : ∃ blobs, w.state.index = {s.index with blobs := blobs}

theorem cycled (complete : Bool) (grace : Nat) (tMark tSweep : Instant) :
    Cycled grace tMark tSweep s (runCycle complete grace tMark tSweep s) := by
  have same : (reconcileMedia complete (mark s tMark) tMark).index = s.index := reconcileIndex _ _ _
  have swept := sweptOver grace tSweep (prepared placed complete tMark)
  rw [← runCycleRefs] at swept
  refine ⟨?_,?_,?_,?_,?_⟩
  · intro path file
    rw [swept.removed path file]
    refine ⟨?_,?_⟩
    · intro h
      obtain ⟨⟨key,row⟩,mem,rfl,marked,due⟩ := h.resolve_left not_mem_nil
      obtain ⟨found,orphan⟩ := orphanEntry.mp mem
      rw [preparedMarker placed complete tMark found orphan] at marked
      exact ⟨orphanPath.mpr ⟨key,row,found,orphan,rfl⟩,(Option.some.inj marked).symm,due⟩
    · intro h
      obtain ⟨mem,rfl,due⟩ := h
      obtain ⟨key,row,found,orphan,rfl⟩ := orphanPath.mp mem
      exact .inr ⟨⟨key,row⟩,orphanEntry.mpr ⟨found,orphan⟩,rfl,preparedMarker placed complete tMark found orphan,due⟩
  · intro key row found
    rw [swept.files _ (rowDotless placed found)]
    exact preparedFile placed complete tMark found
  · intro key row found held
    have away : ∀ entry ∈ orphanEntries s.index, entry.1 ≠ key := by
      intro entry mem named
      obtain ⟨k,orphan⟩ := entry
      obtain ⟨foundOrphan,zero⟩ := orphanEntry.mp mem
      subst named
      cases someSame found foundOrphan
      exact held zero
    rw [swept.kept key away]
    exact same.symm ▸ found
  · intro key row found
    simpa only [same] using swept.rows key row found
  · simpa only [same] using swept.index

end Scrinium.Gc
