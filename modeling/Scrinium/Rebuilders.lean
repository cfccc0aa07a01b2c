import Mathlib.Data.List.TakeWhile
import Scrinium.Rebuild

/-! The rebuild scan against the open-time reconciliation, each into an empty index. -/
namespace Scrinium.Rebuild
open Keyed Domain Layout LocalFs SqliteIndex Cas Orphanscan Reconciliation IndexCompleteness ManifestCodec ManifestRemoval
open Trace Readback List
variable {e lib keys flag now fs path place digest m key}

section
variable {tx tx'}
variable {m'}
def SoundLocation (e : Engine) (lib : Library) (keys : KeyProvider) (fs : Fs) : Prop :=
  ∀ path ∈ listObjects fs "manifests", ∃ file m, fs.lookup path = some file ∧
    lastSegment path = .ok (e.hasher.hex file.data) ∧ decodeEncrypted lib keys file.data = .ok m ∧
    (m.layout = .inline ∨ m.layout = .target)

def contents (fs : Fs) : List Bytes := (listObjects fs "manifests").filterMap fun path => (fs.lookup path).map File.data

structure SoundFile (e : Engine) (lib : Library) (keys : KeyProvider) (fs : Fs) (path digest : String) (m : Manifest) :
    Prop where
  reads : Reads lib keys fs path digest m
  whole : ∃ file, fs.lookup path = some file ∧ e.hasher.hex file.data = digest
  layout : m.layout = .inline ∨ m.layout = .target

theorem soundFile (sound : SoundLocation e lib keys fs) (listed : path ∈ listObjects fs "manifests") :
    ∃ digest m, SoundFile e lib keys fs path digest m := by
  obtain ⟨file,m,found,named,decoded,layout⟩ := sound path listed
  have parsed : digestFromManifestPath path = .ok (e.hasher.hex file.data) :=
    bindOk.mpr ⟨_,named,bindOk.mpr ⟨(),Pipeline.hexShape e.hasher file.data,rfl⟩⟩
  exact ⟨_,{m with digest := e.hasher.hex file.data},⟨parsed,file,m,found,decoded,rfl⟩,⟨file,found,rfl⟩,layout⟩

theorem digestManifest (sound : SoundLocation e lib keys fs) (free : CollisionFree e.hasher (contents fs))
    {other} (listed : path ∈ listObjects fs "manifests") (listed' : other ∈ listObjects fs "manifests")
    (reads : Reads lib keys fs path digest m) (reads' : Reads lib keys fs other digest m') : m = m' := by
  have holds : ∀ {place : String} {n : Manifest}, place ∈ listObjects fs "manifests" → Reads lib keys fs place digest n →
      ∃ file n0, fs.lookup place = some file ∧ e.hasher.hex file.data = digest ∧ file.data ∈ contents fs ∧
        decodeEncrypted lib keys file.data = .ok n0 ∧ n = {n0 with digest := digest} := by
    rintro place n mem ⟨parsed,file,n0,found,decoded,rfl⟩
    obtain ⟨file',_,found',named,_⟩ := sound place mem
    cases someSame found found'
    refine ⟨file,n0,found,?_,mem_filterMap.mpr ⟨place,mem,by rw [found]; rfl⟩,decoded,rfl⟩
    exact okSame named (parsedLast parsed)
  obtain ⟨file,m0,_,hashes,mem,decoded,rfl⟩ := holds listed reads
  obtain ⟨file',m0',_,hashes',mem',decoded',rfl⟩ := holds listed' reads'
  have same : file.data = file'.data := free _ mem _ mem' (HexText.encodeInjective (hashes.trans hashes'.symm))
  rw [same] at decoded
  cases okSame decoded decoded'
  rfl

theorem loadReads (loaded : loadManifestByDigest (decoding e lib keys) fs digest = .ok m) :
    ∃ place, manifestPath digest = .ok place ∧ place ∈ listObjects fs "manifests" ∧ Reads lib keys fs place digest m := by
  obtain ⟨raw,m0,⟨place,file,built,found,rfl,_⟩,hashes,decoded,rfl⟩ := loadedIff.mp loaded
  have shape : validateRefShape digest = .ok () := hashes ▸ Pipeline.hexShape e.hasher file.data
  have listed : place ∈ listObjects fs "manifests" :=
    mem_filter.mpr ⟨memLookup.mpr ⟨file,found⟩,manifestListed shape built⟩
  exact ⟨place,built,listed,manifestPathRef shape built,file,m0,found,decoded,rfl⟩

theorem readsLoad (file : SoundFile e lib keys fs place digest m) (built : manifestPath digest = .ok place) :
    loadManifestByDigest (decoding e lib keys) fs digest = .ok m := by
  obtain ⟨⟨_,held,m0,found,decoded,rfl⟩,⟨_,found',hashes⟩,_⟩ := file
  cases someSame found found'
  exact loadedIff.mpr ⟨held.data,m0,⟨place,held,built,found,rfl,decodedSmall decoded⟩,hashes,decoded,rfl⟩

theorem ingestIff :
    storeIngester (decoding e lib keys) .none now fs tx digest = .ok tx' ↔
      ∃ m addr r, loadManifestByDigest (decoding e lib keys) fs digest = .ok m ∧ ingestAddr e m = .ok addr ∧
        registration e.indexes m = .ok r ∧ tx' = register tx m addr now r := by
  constructor
  · intro ok
    obtain ⟨m,loaded,rest⟩ := bindOk.mp ok
    obtain ⟨addr,derived,stored⟩ := bindOk.mp rest
    obtain ⟨r,accepted,same⟩ := indexManifestOk.mp stored
    exact ⟨m,addr,r,loaded,derived,accepted,same⟩
  · rintro ⟨m,addr,r,loaded,derived,accepted,same⟩
    exact bindOk.mpr ⟨m,loaded,bindOk.mpr ⟨addr,derived,indexManifestOk.mpr ⟨r,accepted,same⟩⟩⟩

theorem soundKey (file : SoundFile e lib keys fs path digest m) : ∃ key, bindKey digest = .ok key ∧ hexOut key = digest := by
  obtain ⟨held,_,hashes⟩ := file.whole
  have bound := bindKeyOk.mpr (hexKeyEncode (Pipeline.sumNe e.hasher held.data))
  have spelled : hexOut (e.hasher.sum held.data) = digest := hashes
  rw [spelled] at bound
  exact ⟨_,bound,spelled⟩

end

variable {p}

section

def ingester (e : Engine) (lib : Library) (keys : KeyProvider) (now : Instant) : Ingester :=
  storeIngester (decoding e lib keys) .none now

structure Behind (e : Engine) (lib : Library) (keys : KeyProvider) (fs : Fs) (p : Pass) : Prop where
  within : ∀ {digest place file}, manifestPath digest = .ok place → p.state.fs.lookup place = some file →
    fs.lookup place = some file
  kept : ∀ {digest place m}, manifestPath digest = .ok place → SoundFile e lib keys fs place digest m → Accepted e m →
    Addressed e m → p.state.fs.lookup place = fs.lookup place

section
variable (behind : Behind e lib keys fs p)
include behind
theorem loadWithin (loaded : loadManifestByDigest (decoding e lib keys) p.state.fs digest = .ok m) :
    loadManifestByDigest (decoding e lib keys) fs digest = .ok m := by
  obtain ⟨raw,m0,⟨place,file,built,found,same,small⟩,rest⟩ := loadedIff.mp loaded
  exact loadedIff.mpr ⟨raw,m0,⟨place,file,built,behind.within built found,same,small⟩,rest⟩

theorem ingestKept (built : manifestPath digest = .ok place)
    (file : SoundFile e lib keys fs place digest m) {addr} (derived : ingestAddr e m = .ok addr) {r}
    (ok : registration e.indexes m = .ok r) :
    ingester e lib keys now p.state.fs p.state.index digest = .ok (register p.state.index m addr now r) := by
  have same := behind.kept built file ⟨r,ok⟩ ⟨addr,derived⟩
  exact ingestIff.mpr ⟨m,addr,r,(loadSame built same).trans (readsLoad file built),derived,ok,rfl⟩

theorem behindExamine (path : String) :
    Behind e lib keys fs (examine .none (some (ingester e lib keys now)) p path) := by
  generalize reached : examine .none (some (ingester e lib keys now)) p path = p'
  cases examined reached with
  | noted err => exact ⟨behind.within,behind.kept⟩
  | known => exact behind
  | ingested => exact ⟨behind.within,behind.kept⟩
  | @removed digest key parsed sound bound spelled new fragment gone =>
    refine ⟨fun {other place file} built found => ?_,fun {other place m} built file accepted addressed => ?_⟩
    · exact behind.within built (lookupErased _ found).2
    have away : place ≠ path := by
      rintro rfl
      cases okSame parsed file.reads.1
      obtain ⟨r,ok⟩ := accepted
      obtain ⟨addr,derived⟩ := addressed
      cases fragment.symm.trans (ingestKept behind built file derived ok)
    have erased : (remove p.state.fs path).lookup place = p.state.fs.lookup place :=
      (lookupErase _ _ _).trans (if_neg away)
    exact erased.trans (behind.kept built file accepted addressed)

variable {paths : List String}

theorem passRows (mem : key ∈ (paths.foldl (examine .none (some (ingester e lib keys now))) p).state.index.manifests) :
    key ∈ p.state.index.manifests ∨ ∃ m, loadManifestByDigest (decoding e lib keys) fs (hexOut key) = .ok m ∧
      Accepted e m ∧ Addressed e m := by
  induction paths generalizing p with
  | nil => exact .inl mem
  | cons path rest ih =>
    rcases ih (behindExamine behind path) mem with earlier | taken
    · generalize reached : examine .none (some (ingester e lib keys now)) p path = p' at earlier
      cases examined reached with
      | noted err => exact .inl earlier
      | known => exact .inl earlier
      | removed => exact .inl earlier
      | @ingested digest key' tx parsed sound bound spelled new read =>
        rcases (ingestRows bound read).mp earlier with rfl | before
        · obtain ⟨m,addr,r,loaded,derived,ok,_⟩ := ingestIff.mp read
          exact .inr ⟨m,spelled ▸ loadWithin behind loaded,⟨r,ok⟩,⟨addr,derived⟩⟩
        · exact .inl before
    · exact .inr taken

theorem passTakes (mem : place ∈ paths) (built : manifestPath digest = .ok place)
    (file : SoundFile e lib keys fs place digest m) (accepted : Accepted e m) (addressed : Addressed e m)
    (bound : bindKey digest = .ok key) :
    key ∈ (paths.foldl (examine .none (some (ingester e lib keys now))) p).state.index.manifests := by
  induction paths generalizing p with
  | nil => exact absurd mem not_mem_nil
  | cons path rest ih =>
    rw [foldl_cons]
    rcases mem_cons.mp mem with rfl | later
    · refine (foldProgress (decoding e lib keys) .none now rest _).rows key ?_
      by_cases known : key ∈ p.state.index.manifests
      · exact (examineProgress (decoding e lib keys) .none now p place).rows key known
      obtain ⟨r,ok⟩ := accepted
      obtain ⟨addr,derived⟩ := addressed
      rw [examineUnknown file.reads.1 rfl bound known,ingestKept behind built file derived ok]
      have same := registrationDigest ok
      rw [readsDigest file.reads] at same
      exact registerRows.mpr (.inl (okSame bound same))
    · exact ih (behindExamine behind path) later

end

structure Dense (tx : Index) : Prop where
  seq : Sequenced tx
  gapless : Gapless tx

theorem denseFold (dense : Dense p.state.index) (paths : List String) :
    Dense (paths.foldl (examine .none (some (ingester e lib keys now))) p).state.index := by
  induction paths generalizing p with
  | nil => exact dense
  | cons path rest ih =>
    refine ih ?_
    generalize reached : examine .none (some (ingester e lib keys now)) p path = p'
    cases examined reached with
    | noted err => exact dense
    | known => exact dense
    | removed => exact dense
    | @ingested digest key tx parsed sound bound spelled new read =>
      obtain ⟨m,addr,r,loaded,derived,ok,rfl⟩ := ingestIff.mp read
      have same := registrationDigest ok
      rw [(loadedWhole loaded).2] at same
      cases okSame same bound
      exact ⟨sequencedRegister dense.seq _ _ _ _,gaplessRegister dense.gapless new⟩

end

section
variable {c}

/-- When the two treat a manifest file alike: one the scan takes stands at its digest's place with an address by its
first reference; one it passes over stands elsewhere or cannot be ingested. -/
structure Alike (e : Engine) (flag : FlagReader) (path digest : String) (m : Manifest) : Prop where
  referenced : ¬ Headless flag m → m.layout = .target → m.blobRefs ≠ []
  headless : Headless flag m → Accepted e m → Addressed e m → manifestPath digest ≠ .ok path
  headed : ¬ Headless flag m → Accepted e m → (m.layout = .target → Addressed e m) →
    manifestPath digest = .ok path ∧ Addressed e m

def AlikeLocation (e : Engine) (lib : Library) (keys : KeyProvider) (flag : FlagReader) (fs : Fs) : Prop :=
  ∀ path ∈ listObjects fs "manifests", ∀ digest m, Reads lib keys fs path digest m → Alike e flag path digest m

structure Level (e : Engine) (lib : Library) (keys : KeyProvider) (fs : Fs) (pre : List String) (p : Pass) (c : Scan) :
    Prop where
  index : p.state.index = c.index
  running : c.crashed = false
  behind : Behind e lib keys fs p
  rows : ∀ key ∈ c.index.manifests, ∃ place ∈ pre, manifestPath (hexOut key) = .ok place

variable {pre}

theorem levelTaken (alike : AlikeLocation e lib keys flag fs) (listed : path ∈ listObjects fs "manifests")
    (fresh : path ∉ pre) (file : SoundFile e lib keys fs path digest m) (taken : Taken e flag m)
    (level : Level e lib keys fs pre p c) :
    Level e lib keys fs (pre ++ [path]) (examine .none (some (ingester e lib keys now)) p path)
      (visit e lib keys flag now fs c path) := by
  obtain ⟨built,addr,derived⟩ := (alike path listed digest m file.reads).headed taken.1 taken.2.1 taken.2.2
  obtain ⟨r,ok⟩ := taken.2.1
  obtain ⟨key,bound,spelled⟩ := soundKey file
  have new : key ∉ c.index.manifests := by
    intro mem
    obtain ⟨place,earlier,built'⟩ := level.rows key mem
    rw [spelled] at built'
    exact fresh (okSame built' built ▸ earlier)
  have new' : key ∉ p.state.index.manifests := level.index ▸ new
  have here : r.keys.digest = key := by
    have same := registrationDigest ok
    rw [readsDigest file.reads] at same
    exact okSame same bound
  have passed : (examine .none (some (ingester e lib keys now)) p path).state.index =
      register p.state.index m addr now r := by
    rw [examineUnknown file.reads.1 rfl bound new',ingestKept level.behind built file derived ok]
  have scanned : visit e lib keys flag now fs c path = {c with index := register c.index m addr now r} := by
    obtain ⟨r',addr',ok',derived',indexed⟩ := visitTaken level.running file.reads taken
    rw [indexed]
    cases okSame ok' ok
    rcases file.layout with inline | target
    · rw [registerInline ok inline addr addr']
    · cases okSame (derived' target) derived
      rfl
  refine ⟨?_,?_,behindExamine level.behind path,fun other mem => ?_⟩
  · rw [passed,scanned,level.index]
  · rw [scanned]
    exact level.running
  · rw [scanned] at mem
    rcases registerRows.mp mem with rfl | earlier
    · rw [here,spelled]
      exact ⟨path,mem_append_right pre (mem_singleton_self path),built⟩
    · obtain ⟨place,before,built'⟩ := level.rows other earlier
      exact ⟨place,mem_append_left _ before,built'⟩

section
variable (sound : SoundLocation e lib keys fs) (free : CollisionFree e.hasher (contents fs))
    (alike : AlikeLocation e lib keys flag fs)
include sound free alike
theorem levelLeft (listed : path ∈ listObjects fs "manifests")
    (file : SoundFile e lib keys fs path digest m) (left : ¬ Taken e flag m) (level : Level e lib keys fs pre p c) :
    Level e lib keys fs (pre ++ [path]) (examine .none (some (ingester e lib keys now)) p path)
      (visit e lib keys flag now fs c path) := by
  have scanned : visit e lib keys flag now fs c path = c := by
    generalize reached : visit e lib keys flag now fs c path = c'
    cases visitCases reached with
    | ceased ceased => rfl
    | passed whole left => rfl
    | crashed crashes =>
      obtain ⟨digest',m',again,headed,target,refs⟩ := crashes
      exact absurd refs ((alike path listed digest' m' again).referenced headed target)
    | indexed whole again taken =>
      cases (readsSame again file.reads).2
      exact absurd taken left
  have passed : (examine .none (some (ingester e lib keys now)) p path).state.index = p.state.index := by
    generalize reached : examine .none (some (ingester e lib keys now)) p path = p'
    cases examined reached with
    | noted err => rfl
    | known => rfl
    | removed => rfl
    | @ingested digest' key tx parsed sound' bound spelled new read =>
      -- The file at the digest's place is in the listing too, and the scan would have taken it.
      cases okSame parsed file.reads.1
      obtain ⟨m',addr,r,loaded,derived,ok,_⟩ := ingestIff.mp read
      obtain ⟨place,built,listed',reads'⟩ := loadReads (loadWithin level.behind loaded)
      cases digestManifest sound free listed listed' file.reads reads'
      by_cases headless : Headless flag m
      · exact absurd built ((alike place listed' digest m reads').headless headless ⟨r,ok⟩ ⟨addr,derived⟩)
      · exact absurd ⟨headless,⟨r,ok⟩,fun _ => ⟨addr,derived⟩⟩ left
  refine ⟨?_,?_,behindExamine level.behind path,fun other mem => ?_⟩
  · rw [passed,scanned,level.index]
  · rw [scanned]
    exact level.running
  · rw [scanned] at mem
    obtain ⟨place,before,built'⟩ := level.rows other mem
    exact ⟨place,mem_append_left _ before,built'⟩

theorem levelFold {rest} (whole : listObjects fs "manifests" = pre ++ rest) (level : Level e lib keys fs pre p c) :
    Level e lib keys fs (pre ++ rest) (rest.foldl (examine .none (some (ingester e lib keys now))) p)
      (rest.foldl (visit e lib keys flag now fs) c) := by
  induction rest generalizing pre p c with
  | nil => exact (append_nil pre).symm ▸ level
  | cons path rest ih =>
    have listed : path ∈ listObjects fs "manifests" := whole ▸ mem_append_right pre mem_cons_self
    have nodup : (pre ++ path::rest).Nodup := whole ▸ fs.nodupKeys.filter _
    have fresh : path ∉ pre := fun mem => (nodup_append.mp nodup).2.2 path mem path mem_cons_self rfl
    have joined : pre ++ path::rest = (pre ++ [path]) ++ rest := by simp
    rw [joined] at whole ⊢
    obtain ⟨digest,m,file⟩ := soundFile sound listed
    by_cases taken : Taken e flag m
    · exact ih whole (levelTaken alike listed fresh file taken level)
    · exact ih whole (levelLeft sound free alike listed file taken level)

end

def scanned (e : Engine) (lib : Library) (keys : KeyProvider) (flag : FlagReader) (now : Instant) (fs : Fs) : Scan :=
  scanManifests e lib keys flag now fs Index.empty

def reconciled (e : Engine) (lib : Library) (keys : KeyProvider) (now : Instant) (fs : Fs) : Index :=
  (reconcile .none (some (ingester e lib keys now)) ⟨fs,Index.empty⟩).1.state.index

structure SameRows (a b : Index) : Prop where
  manifests : ∀ key, a.manifests.lookup key = b.manifests.lookup key
  manifestBlobs : ∀ edge, a.manifestBlobs.lookup edge = b.manifestBlobs.lookup edge
  manifestHandles : ∀ edge, a.manifestHandles.lookup edge = b.manifestHandles.lookup edge
  blobs : ∀ key, a.blobs.lookup key = b.blobs.lookup key

theorem visitedNone (fs : Fs) : visited .none fs = listObjects fs "manifests" := by
  unfold visited
  simp only [Faults.none,Option.isSome_none,Bool.false_or,Bool.or_false,Option.isNone_none]
  rw [if_neg (by simp)]
  exact takeWhile_eq_self_iff.mpr fun _ _ => rfl

theorem reconciledFold (e : Engine) (lib : Library) (keys : KeyProvider) (now : Instant) (fs : Fs) :
    ∃ p0 : Pass, p0.state.index = Index.empty ∧ Behind e lib keys fs p0 ∧ reconciled e lib keys now fs =
      ((listObjects fs "manifests").foldl (examine .none (some (ingester e lib keys now))) p0).state.index := by
  obtain ⟨p0,swept,visits⟩ := reconcileVisits .none (ingester e lib keys now) ⟨fs,Index.empty⟩
  refine ⟨p0,swept.index,⟨fun built found => ?_,fun built _ _ _ => swept.files _ _ built⟩,?_⟩
  · exact (swept.files _ _ built).symm.trans found
  · rw [reconciled,visits,visitedNone]

section
variable (sound : SoundLocation e lib keys fs)
include sound
theorem alikeSame (free : CollisionFree e.hasher (contents fs)) (alike : AlikeLocation e lib keys flag fs) :
    (scanned e lib keys flag now fs).crashed = false ∧ (scanned e lib keys flag now fs).index = reconciled e lib keys now fs := by
  obtain ⟨p0,empty,behind,visits⟩ := reconciledFold e lib keys now fs
  have start : Level e lib keys fs [] p0 ⟨Index.empty,false⟩ :=
    ⟨empty,rfl,behind,fun key mem => absurd mem (by simp [Index.empty])⟩
  have level : Level e lib keys fs ([] ++ listObjects fs "manifests")
      ((listObjects fs "manifests").foldl (examine .none (some (ingester e lib keys now))) p0)
      (scanned e lib keys flag now fs) := levelFold sound free alike (nil_append _).symm start
  exact ⟨level.running,by rw [visits,level.index]⟩

theorem soundReads (listed : path ∈ listObjects fs "manifests")
    (reads : Reads lib keys fs path digest m) : SoundFile e lib keys fs path digest m := by
  obtain ⟨digest',m',file⟩ := soundFile sound listed
  obtain ⟨rfl,rfl⟩ := readsSame file.reads reads
  exact file

theorem scanTook (free : CollisionFree e.hasher (contents fs))
    (running : (scanned e lib keys flag now fs).crashed = false) (listed : path ∈ listObjects fs "manifests")
    (reads : Reads lib keys fs path digest m) (bound : bindKey digest = .ok key)
    (mem : key ∈ (scanned e lib keys flag now fs).index.manifests) : Taken e flag m := by
  rcases (scanRows running).mp mem with none | ⟨other,listed',digest',m',reads',taken,bound'⟩
  · exact absurd none (by simp [Index.empty])
  obtain ⟨_,same,spelled⟩ := soundKey (soundReads sound listed reads)
  obtain ⟨_,same',spelled'⟩ := soundKey (soundReads sound listed' reads')
  cases okSame same bound
  cases okSame same' bound'
  cases spelled.symm.trans spelled'
  cases digestManifest sound free listed listed' reads reads'
  exact taken

end

theorem numberedEmpty : Numbered Index.empty := ⟨sequencedEmpty,fun positive => absurd positive (by decide)⟩

theorem sameGapless {a b} (numbered : Numbered a) (dense : Dense b)
    (rows : ∀ key, a.manifests.lookup key = b.manifests.lookup key) : ¬ ∃ n, 0 < n ∧ Gap a n := by
  rintro ⟨n,positive,bound,absent⟩
  obtain ⟨key,row,found,stamped⟩ := numbered.topped (Nat.lt_of_lt_of_le positive bound)
  rw [rows] at found
  have issued : a.csn ≤ b.csn := stamped ▸ (dense.seq.issued found).2
  obtain ⟨key',row',found',stamped'⟩ := dense.gapless n positive (Nat.le_trans bound issued)
  rw [← rows] at found'
  exact absent key' row' found' stamped'

theorem reconciledDense : Dense (reconciled e lib keys now fs) := by
  obtain ⟨p0,empty,_,visits⟩ := reconciledFold e lib keys now fs
  rw [visits]
  refine denseFold (empty ▸ ⟨sequencedEmpty,fun n positive bound => ?_⟩) _
  exact absurd (Nat.lt_of_lt_of_le positive bound) (by decide)

theorem sameAlike (sound : SoundLocation e lib keys fs) (free : CollisionFree e.hasher (contents fs))
    (running : (scanned e lib keys flag now fs).crashed = false)
    (rows : ∀ key, (scanned e lib keys flag now fs).index.manifests.lookup key =
      (reconciled e lib keys now fs).manifests.lookup key) : AlikeLocation e lib keys flag fs := by
  obtain ⟨p0,empty,behind,visits⟩ := reconciledFold e lib keys now fs
  have gapless := sameGapless (scanNumbered numberedEmpty _) reconciledDense rows
  have member : ∀ key, key ∈ (scanned e lib keys flag now fs).index.manifests ↔
      key ∈ (reconciled e lib keys now fs).manifests := fun key => by rw [memLookup,memLookup,rows]
  intro path listed digest m reads
  have file := soundReads sound listed reads
  obtain ⟨key,bound,spelled⟩ := soundKey file
  refine ⟨fun headed target refs => ?_,fun headless accepted addressed built => ?_,fun headed accepted addressed => ?_⟩
  · have ceased : (scanned e lib keys flag now fs).crashed = true :=
      crashedIff.mpr (.inr ⟨path,listed,digest,m,reads,headed,target,refs⟩)
    rw [running] at ceased
    cases ceased
  · have mem : key ∈ (reconciled e lib keys now fs).manifests := by
      rw [visits]
      exact passTakes behind listed built file accepted addressed bound
    exact (scanTook sound free running listed reads bound ((member key).mpr mem)).1 headless
  · have taken : Taken e flag m := ⟨headed,accepted,addressed⟩
    have mem := (member key).mp ((scanRows running).mpr (.inr ⟨path,listed,digest,m,reads,taken,bound⟩))
    rw [visits] at mem
    rcases passRows behind mem with none | ⟨m',loaded,_,addressed'⟩
    · exact absurd none (by simp [empty,Index.empty])
    rw [spelled] at loaded
    obtain ⟨place,built,listed',reads'⟩ := loadReads loaded
    cases digestManifest sound free listed listed' reads reads'
    refine ⟨?_,addressed'⟩
    -- A file elsewhere and the one at the place would both be taken in, and the scan would number the row twice.
    by_contra elsewhere
    refine gapless (takenTwice numberedEmpty running ?_ listed reads taken listed' reads' taken bound)
    rintro rfl
    exact elsewhere built

def WholeNamed (e : Engine) (fs : Fs) (path : String) : Prop :=
  ∃ file, fs.lookup path = some file ∧ lastSegment path = .ok (e.hasher.hex file.data)

def ScanIndexes (e : Engine) (lib : Library) (keys : KeyProvider) (flag : FlagReader) (now : Instant) (fs : Fs)
    (path : String) : Prop :=
  ∃ pre post tx tx', listObjects fs "manifests" = pre ++ path::post ∧
    pre.foldl (visit e lib keys flag now fs) ⟨Index.empty,false⟩ = ⟨tx,false⟩ ∧
    reindexManifestFile e lib keys flag now fs tx path = .indexed tx'

theorem scanIndexesIff : ScanIndexes e lib keys flag now fs path ↔
    ∃ pre post, listObjects fs "manifests" = pre ++ path::post ∧ (∀ other ∈ pre, ¬ Crashes lib keys flag fs other) ∧
      ∃ digest m, Reads lib keys fs path digest m ∧ Taken e flag m := by
  constructor
  · rintro ⟨pre,post,tx,tx',split,reached,outcome⟩
    refine ⟨pre,post,split,fun other mem crashes => ?_,?_⟩
    · have ceased : (pre.foldl (visit e lib keys flag now fs) ⟨Index.empty,false⟩).crashed = true :=
        crashedIff.mpr (.inr ⟨other,mem,crashes⟩)
      rw [reached] at ceased
      cases ceased
    · by_cases read : ∃ digest m, Reads lib keys fs path digest m
      · obtain ⟨digest,m,reads⟩ := read
        have classified := reindexed e flag now tx reads
        rw [outcome] at classified
        cases classified with
        | indexed taken => exact ⟨digest,m,reads,taken⟩
      · obtain ⟨err,failed⟩ := reindexUnread e flag now tx fun digest m reads => read ⟨digest,m,reads⟩
        cases outcome.symm.trans failed
  · rintro ⟨pre,post,split,clear,digest,m,reads,taken⟩
    generalize reached : pre.foldl (visit e lib keys flag now fs) ⟨Index.empty,false⟩ = c
    have running : c.crashed = false := by
      rw [Bool.eq_false_iff,← reached,Ne,crashedIff]
      rintro (start | ⟨other,mem,crashes⟩)
      · cases start
      · exact clear other mem crashes
    have classified := reindexed e flag now c.index reads
    generalize outcome : reindexManifestFile e lib keys flag now fs c.index path = o at classified
    cases classified with
    | skipped headless => exact absurd headless taken.1
    | crashed headed target refs => exact absurd refs (takenHolds taken target)
    | failed refs refused err => exact absurd taken refused
    | indexed _ ok derived => exact ⟨pre,post,c.index,_,split,by rw [reached,← running],outcome⟩

theorem reconciledWhole (mem : key ∈ (reconciled e lib keys now fs).manifests) : WholeAt e fs (hexOut key) := by
  obtain ⟨p0,empty,behind,visits⟩ := reconciledFold e lib keys now fs
  rw [visits] at mem
  rcases passRows behind mem with none | ⟨m,loaded,_⟩
  · exact absurd none (by simp [empty,Index.empty])
  · exact (loadedWhole loaded).1

/-- The scan and the reconciliation leave the same rows exactly when they treat every file alike; the reconciliation
takes in whole files only, the scan exactly when all it takes are whole. -/
theorem rebuildersAgreeExactly (e : Engine) (lib : Library) (keys : KeyProvider) (flag : FlagReader) (now : Instant) (fs : Fs)
    (free : CollisionFree e.hasher (contents fs)) :
    (SoundLocation e lib keys fs →
      ((scanned e lib keys flag now fs).crashed = false ∧
          SameRows (scanned e lib keys flag now fs).index (reconciled e lib keys now fs) ↔
        AlikeLocation e lib keys flag fs)) ∧
    ((∀ path, ScanIndexes e lib keys flag now fs path → WholeNamed e fs path) ∧
        (∀ key ∈ (reconciled e lib keys now fs).manifests, WholeAt e fs (hexOut key)) ↔
      ∀ pre path post, listObjects fs "manifests" = pre ++ path::post → (∀ other ∈ pre, ¬ Crashes lib keys flag fs other) →
        ∀ digest m, Reads lib keys fs path digest m → Taken e flag m → WholeNamed e fs path) := by
  refine ⟨fun sound => ⟨fun agree => sameAlike sound free agree.1 agree.2.manifests,fun alike => ?_⟩,?_⟩
  · obtain ⟨running,same⟩ : (scanned e lib keys flag now fs).crashed = false ∧
        (scanned e lib keys flag now fs).index = reconciled e lib keys now fs := alikeSame sound free alike
    exact ⟨running,by rw [same]; exact ⟨fun _ => rfl,fun _ => rfl,fun _ => rfl,fun _ => rfl⟩⟩
  · constructor
    · rintro ⟨whole,_⟩ pre path post split clear digest m reads taken
      exact whole path (scanIndexesIff.mpr ⟨pre,post,split,clear,digest,m,reads,taken⟩)
    · intro whole
      refine ⟨fun path indexes => ?_,fun key mem => reconciledWhole mem⟩
      obtain ⟨pre,post,split,clear,digest,m,reads,taken⟩ := scanIndexesIff.mp indexes
      exact whole pre path post split clear digest m reads taken

end

def packLibrary : Library :=
  { parseBody := fun body => .ok
      { ext := [], inlineBlob := "", usr := [], artifactID := if body = [1] then "a" else "", blobRefs := ["00000102"]
        contentHash := "00000102", createdAt := "", handleRefs := [], hashAlgo := "", identityNonce := ""
        blobStorage := "Target", originalSize := some 2, pipeline := [], retentionUntil := "", schemaVersion := 1
        sessionID := "" }
    parseText := fun _ => none, base64 := fun _ => none, parseTime := fun _ => none, validText := fun _ => true
    openBox := fun _ _ _ _ => none }

def userPath : String := "manifests/00/00/0000005343310001"
def packPath : String := "manifests/00/00/0000005343310002"
def userFile : Bytes := magicJSON ++ [0x00,0x01]
def packFile : Bytes := magicJSON ++ [0x00,0x02]

theorem packLeftOut :
    SoundLocation sampleEngine packLibrary none (put ∅ packPath packFile 0) ∧
    (scanned sampleEngine packLibrary none (fun _ => none) 0 (put ∅ packPath packFile 0)).index.blobs.keys = [] ∧
    (reconciled sampleEngine packLibrary none 0 (put ∅ packPath packFile 0)).blobs.keys = [[0,0,1,2]] ∧
    sampleEngine.hasher.hex userFile ≠ "000007" ∧
    (scanned sampleEngine packLibrary none (fun _ => none) 0
      (put ∅ "manifests/00/00/000007" userFile 0)).index.manifests.keys = [[0,0,7]] := by
  refine ⟨?_,by decide +kernel,by decide +kernel,by decide +kernel,by decide +kernel⟩
  intro path listed
  have only : listObjects (put ∅ packPath packFile 0) "manifests" = [packPath] := by decide +kernel
  rw [only,mem_singleton] at listed
  subst listed
  exact ⟨⟨packFile,0,0⟩,_,by decide +kernel,by decide +kernel,rfl,.inr rfl⟩

theorem userListed {path} (listed : path ∈ listObjects (put ∅ userPath userFile 0) "manifests") : path = userPath := by
  have only : listObjects (put ∅ userPath userFile 0) "manifests" = [userPath] := by decide +kernel
  rw [only] at listed
  exact mem_singleton.mp listed

theorem userSound : SoundLocation sampleEngine packLibrary none (put ∅ userPath userFile 0) := by
  intro path listed
  cases userListed listed
  exact ⟨⟨userFile,0,0⟩,_,by decide +kernel,by decide +kernel,rfl,.inr rfl⟩

theorem userTakenAlike :
    CollisionFree sampleEngine.hasher (contents (put ∅ userPath userFile 0)) ∧
    SameRows (scanned sampleEngine packLibrary none (fun _ => none) 0 (put ∅ userPath userFile 0)).index
      (reconciled sampleEngine packLibrary none 0 (put ∅ userPath userFile 0)) := by
  have free := sampleCollisionFree (contents (put ∅ userPath userFile 0))
  have exactly := rebuildersAgreeExactly sampleEngine packLibrary none (fun _ => none) 0 (put ∅ userPath userFile 0) free
  refine ⟨free,((exactly.1 userSound).mpr fun path listed digest m reads => ?_).2⟩
  cases userListed listed
  obtain ⟨parsed,file,m0,found,decoded,rfl⟩ := reads
  have name : digestFromManifestPath userPath = .ok "0000005343310001" := by decide +kernel
  cases okSame parsed name
  have held : (put ∅ userPath userFile 0).lookup userPath = some ⟨userFile,0,0⟩ := by decide +kernel
  cases someSame found held
  cases decoded
  refine ⟨fun _ _ => by decide,fun headless => ?_,fun _ _ _ => ⟨by decide +kernel,"blobs/00/00/00000102",by decide +kernel⟩⟩
  rcases headless with container | composite
  · exact absurd container (by decide)
  · exact absurd composite (by decide)

end Scrinium.Rebuild
