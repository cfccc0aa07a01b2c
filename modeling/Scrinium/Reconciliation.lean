import Scrinium.Orphanscan
import Scrinium.Readback

/-! What the reconciliation makes of the index. The pass adds rows and removes fragments, and never drops a row nor looks
into a file the index knows. -/
namespace Scrinium.Reconciliation
open Keyed Domain Layout LocalFs SqliteIndex Cas Orphanscan Trace List

def OnLocation (fs : Fs) (digest : String) : Prop :=
  validateRefShape digest = .ok () ∧ ∃ path, manifestPath digest = .ok path ∧ path ∈ fs

def WholeAt (e : Engine) (fs : Fs) (digest : String) : Prop :=
  ∃ path file, manifestPath digest = .ok path ∧ fs.lookup path = some file ∧ e.hasher.hex file.data = digest

section
variable {e f now p p' p''}

variable {fs digest path tx tx' m key ing} {paths : List String}

theorem wholeOver {fs'} (whole : WholeAt e fs digest)
    (files : ∀ path file, manifestPath digest = .ok path → fs.lookup path = some file → fs'.lookup path = some file) :
    WholeAt e fs' digest := by
  obtain ⟨path,file,built,found,same⟩ := whole
  exact ⟨path,file,built,files path file built found,same⟩

theorem wholeOnLocation (whole : WholeAt e fs digest) : OnLocation fs digest := by
  obtain ⟨path,file,built,found,same⟩ := whole
  exact ⟨same ▸ Pipeline.hexShape e.hasher file.data,path,built,memLookup.mpr ⟨file,found⟩⟩

theorem registerRows {r} : key ∈ (register tx m path now r).manifests ↔ key = r.keys.digest ∨ key ∈ tx.manifests := by
  simp only [register,memLookup,lookupUpdate,lookupInsertNew]
  by_cases same : key = r.keys.digest
  · simp [same]
  · simp [same]

theorem loadedWhole (ok : loadManifestByDigest e fs digest = .ok m) : WholeAt e fs digest ∧ m.digest = digest := by
  obtain ⟨path,built,rest⟩ := bindOk.mp ok
  obtain ⟨raw,read,rest⟩ := bindOk.mp rest
  obtain ⟨_,verified,rest⟩ := bindOk.mp rest
  obtain ⟨m',_,last⟩ := bindOk.mp rest
  cases last
  refine ⟨?_,rfl⟩
  unfold readManifestFile at read
  split at read
  · next file found =>
    split at read
    · cases read
    cases read
    unfold verifyManifestDigest at verified
    split at verified
    · next same => exact ⟨path,file,built,found,same⟩
    · cases verified
  · cases read

theorem ingestOk (ok : storeIngester e f now fs tx digest = .ok tx') :
    ∃ m addr r, loadManifestByDigest e fs digest = .ok m ∧ registration e.indexes m = .ok r ∧
      bindKey digest = .ok r.keys.digest ∧ tx' = register tx m addr now r := by
  unfold storeIngester at ok
  split at ok
  · cases ok
  obtain ⟨m,loaded,rest⟩ := bindOk.mp ok
  obtain ⟨addr,_,indexed⟩ := bindOk.mp rest
  obtain ⟨r,registered,rfl⟩ := indexManifestOk.mp indexed
  have bound := registrationDigest registered
  rw [(loadedWhole loaded).2] at bound
  exact ⟨m,addr,r,loaded,registered,bound,rfl⟩

theorem ingestRows {other} (bound : bindKey digest = .ok key) (ok : storeIngester e f now fs tx digest = .ok tx') :
    other ∈ tx'.manifests ↔ other = key ∨ other ∈ tx.manifests := by
  obtain ⟨m,addr,r,_,_,same,rfl⟩ := ingestOk ok
  cases okSame same bound
  exact registerRows

structure Progress (e : Engine) (p p' : Pass) : Prop where
  rows : ∀ key ∈ p.state.index.manifests, key ∈ p'.state.index.manifests
  files : ∀ path file, p'.state.fs.lookup path = some file → p.state.fs.lookup path = some file
  kept : ∀ key ∈ p.state.index.manifests, ∀ path, manifestPath (hexOut key) = .ok path →
    p'.state.fs.lookup path = p.state.fs.lookup path
  fresh : ∀ key ∈ p'.state.index.manifests, key ∈ p.state.index.manifests ∨ WholeAt e p'.state.fs (hexOut key)

theorem wholeKept (progress : Progress e p p') (known : key ∈ p.state.index.manifests)
    (whole : WholeAt e p.state.fs (hexOut key)) : WholeAt e p'.state.fs (hexOut key) :=
  wholeOver whole fun path _ built found => (progress.kept key known path built).trans found

theorem goneLater (progress : Progress e p p') (gone : p.state.fs.lookup path = none) :
    p'.state.fs.lookup path = none := by
  cases found : p'.state.fs.lookup path with
  | none => rfl
  | some file =>
    rw [progress.files path file found] at gone
    cases gone

theorem progressSame (e : Engine) (same : p'.state = p.state) : Progress e p p' where
  rows := fun _ mem => same ▸ mem
  files := fun _ _ found => same ▸ found
  kept := fun _ _ _ _ => by rw [same]
  fresh := fun _ mem => .inl (same ▸ mem)

theorem progressTrans (first : Progress e p p') (second : Progress e p' p'') : Progress e p p'' where
  rows := fun key mem => second.rows key (first.rows key mem)
  files := fun path file found => first.files path file (second.files path file found)
  kept := fun key mem path built =>
    (second.kept key (first.rows key mem) path built).trans (first.kept key mem path built)
  fresh := by
    intro key mem
    rcases second.fresh key mem with earlier | whole
    · exact (first.fresh key earlier).imp_right (wholeKept second earlier)
    · exact .inr whole

theorem placedShape (built : manifestPath (hexOut key) = .ok path) : validateRefShape (hexOut key) = .ok () := by
  obtain ⟨s1,s2,shards,_⟩ := manifestPathForm built
  have digits : (hexOut key).toList.all HexText.lowerDigit = true := HexText.encodeLower key
  rw [shardOfDigits digits] at shards
  split at shards
  · next long => exact refShape.mpr ⟨long,digits⟩
  · cases shards

theorem pathParses (built : manifestPath (hexOut key) = .ok path) (parsed : digestFromManifestPath path = .ok digest) :
    digest = hexOut key :=
  okSame parsed (manifestPathRef (placedShape built) built)

theorem examineProgress (e : Engine) (f : Faults) (now : Instant) (p : Pass) (path : String) :
    Progress e p (examine f (some (storeIngester e f now)) p path) := by
  generalize reached : examine f (some (storeIngester e f now)) p path = p'
  cases examined reached with
  | noted err => exact progressSame e rfl
  | known => exact progressSame e rfl
  | @ingested digest key tx parsed _ bound spelled new read =>
    constructor
    · exact fun other mem => (ingestRows bound read).mpr (.inr mem)
    · exact fun _ _ found => found
    · exact fun _ _ _ _ => rfl
    intro other mem
    rcases (ingestRows bound read).mp mem with rfl | earlier
    · obtain ⟨m,_,_,loaded,_⟩ := ingestOk read
      exact .inr (spelled ▸ (loadedWhole loaded).1)
    · exact .inl earlier
  | @removed digest key parsed _ bound spelled new fragment _ =>
    constructor
    · exact fun _ mem => mem
    · intro other file found
      exact (lookupErased _ found).2
    · intro other mem place built
      simp only [remove,lookupErase]
      refine if_neg fun same => ?_
      have digests := pathParses built (same ▸ parsed)
      exact new (HexText.encodeInjective (spelled.trans digests) ▸ mem)
    · exact fun _ mem => .inl mem

theorem foldProgress (e : Engine) (f : Faults) (now : Instant) (paths : List String) (p : Pass) :
    Progress e p (paths.foldl (examine f (some (storeIngester e f now))) p) := by
  induction paths generalizing p with
  | nil => exact progressSame e rfl
  | cons path rest ih => exact progressTrans (examineProgress e f now p path) (ih _)

theorem examineErrors (clean : (examine f (some ing) p path).report.errors = []) : p.report.errors = [] := by
  generalize reached : examine f (some ing) p path = p' at clean
  cases examined reached with
  | noted err => simp [Pass.fail] at clean
  | known => exact clean
  | ingested => exact clean
  | removed => exact clean

theorem foldErrors (clean : (paths.foldl (examine f (some ing)) p).report.errors = []) : p.report.errors = [] := by
  induction paths generalizing p with
  | nil => exact clean
  | cons path rest ih => exact examineErrors (ih clean)

def Settled (p : Pass) (path : String) : Prop :=
  ∃ key, digestFromManifestPath path = .ok (hexOut key) ∧
    (key ∈ p.state.index.manifests ∨ p.state.fs.lookup path = none)

theorem settledLater (progress : Progress e p p') (settled : Settled p path) : Settled p' path := by
  obtain ⟨key,parsed,known | gone⟩ := settled
  · exact ⟨key,parsed,.inl (progress.rows key known)⟩
  · exact ⟨key,parsed,.inr (goneLater progress gone)⟩

theorem examineSettled (clean : (examine f (some (storeIngester e f now)) p path).report.errors = []) :
    Settled (examine f (some (storeIngester e f now)) p path) path := by
  generalize reached : examine f (some (storeIngester e f now)) p path = p' at clean
  cases examined reached with
  | noted err => simp [Pass.fail] at clean
  | @known digest key parsed spelled mem => exact ⟨key,spelled ▸ parsed,.inl mem⟩
  | @ingested digest key tx parsed _ bound spelled _ read =>
    exact ⟨key,spelled ▸ parsed,.inl ((ingestRows bound read).mpr (.inl rfl))⟩
  | @removed digest key parsed _ _ spelled _ _ _ =>
    exact ⟨key,spelled ▸ parsed,.inr ((lookupErase _ _ _).trans (if_pos rfl))⟩

theorem foldSettled (clean : (paths.foldl (examine f (some (storeIngester e f now))) p).report.errors = []) :
    ∀ path ∈ paths, Settled (paths.foldl (examine f (some (storeIngester e f now))) p) path := by
  induction paths generalizing p with
  | nil => intro path mem; contradiction
  | cons first rest ih =>
    intro path mem
    rcases mem_cons.mp mem with rfl | later
    · exact settledLater (foldProgress e f now rest _) (examineSettled (foldErrors clean))
    · exact ih clean path later

theorem stagingFrame (paths : List String) (p : Pass) :
    (paths.foldl (sweepStaging f) p).state.index = p.state.index ∧
      ∀ other ∉ paths, (paths.foldl (sweepStaging f) p).state.fs.lookup other = p.state.fs.lookup other := by
  induction paths generalizing p with
  | nil => exact ⟨rfl,fun _ _ => rfl⟩
  | cons path rest ih =>
    obtain ⟨index,files⟩ := ih (sweepStaging f p path)
    have one : (sweepStaging f p path).state.index = p.state.index ∧
        ∀ other, other ≠ path → (sweepStaging f p path).state.fs.lookup other = p.state.fs.lookup other := by
      unfold sweepStaging
      split
      · exact ⟨rfl,fun _ _ => rfl⟩
      · exact ⟨rfl,fun other differ => (lookupErase _ _ _).trans (if_neg differ)⟩
    refine ⟨index.trans one.1,fun other away => ?_⟩
    rw [mem_cons,not_or] at away
    exact (files other away.2).trans (one.2 other away.1)

theorem stagingAway (built : manifestPath digest = .ok path) : path ∉ listObjects fs stagingPrefix := by
  intro listed
  cases (manifestPathHead built).symm.trans (listedHead listed)

theorem stagingNoManifest (staged : path ∈ listObjects fs stagingPrefix) : underDir "manifests" path = false := by
  refine Bool.eq_false_iff.mpr fun under => ?_
  cases (underHead under).symm.trans (listedHead staged)

theorem listRemove {dir} (outside : underDir dir path = false) :
    listObjects (remove fs path) dir = listObjects fs dir := by
  unfold listObjects remove
  rw [AList.keys_erase,← erase_filter,erase_of_not_mem]
  intro mem
  rw [(mem_filter.mp mem).2] at outside
  cases outside

theorem stagingListing (staged : ∀ path ∈ paths, underDir "manifests" path = false) (p : Pass) :
    listObjects (paths.foldl (sweepStaging f) p).state.fs "manifests" = listObjects p.state.fs "manifests" := by
  induction paths generalizing p with
  | nil => rfl
  | cons path rest ih =>
    have one : listObjects (sweepStaging f p path).state.fs "manifests" = listObjects p.state.fs "manifests" := by
      unfold sweepStaging
      split
      · rfl
      · exact listRemove (staged path mem_cons_self)
    exact (ih (fun other mem => staged other (mem_cons_of_mem path mem)) _).trans one

end

structure Swept (s : State) (p : Pass) : Prop where
  index : p.state.index = s.index
  files : ∀ digest path, manifestPath digest = .ok path → p.state.fs.lookup path = s.fs.lookup path
  listing : listObjects p.state.fs "manifests" = listObjects s.fs "manifests"

theorem stagingSwept (f : Faults) (s : State) :
    Swept s (listWalk f (sweepStaging f) stagingPrefix (Pass.start s)).1 := by
  unfold listWalk
  split
  · exact ⟨rfl,fun _ _ _ => rfl,rfl⟩
  rw [walkFold]
  have staged : ∀ path ∈ (listObjects s.fs stagingPrefix).takeWhile fun path => (f.cancelled path).isNone,
      path ∈ listObjects s.fs stagingPrefix := fun path mem => ( takeWhile_prefix _).subset mem
  obtain ⟨index,files⟩ := stagingFrame (f := f) _ (Pass.start s)
  exact ⟨index,fun digest path built => files path fun mem => stagingAway built (staged path mem),
    stagingListing (fun path mem => stagingNoManifest (staged path mem)) (Pass.start s)⟩

theorem reconcileDone {f ing s p} (done : reconcile f (some ing) s = (p,none)) :
    ∃ p0, Swept s p0 ∧ p = (listObjects p0.state.fs "manifests").foldl (examine f (some ing)) p0 := by
  have swept := stagingSwept f s
  unfold reconcile at done
  split at done
  · cases done
  next p0 staged =>
  rw [staged] at swept
  refine ⟨p0,swept,?_⟩
  unfold listWalk at done
  split at done
  · cases done
  · exact walkDone done

def Agrees (e : Engine) (s : State) : Prop :=
  (∀ digest, (∃ key ∈ s.index.manifests, hexOut key = digest) ↔ OnLocation s.fs digest) ∧
    ∀ digest, OnLocation s.fs digest → WholeAt e s.fs digest

/-- A pass that reports no error leaves index and Location in agreement exactly when every row it found
has its manifest file, and that file hashes to its name. -/
theorem reconciledExactly (e : Engine) (f : Faults) (now : Instant) (s : State) {p : Pass}
    (done : reconcile f (some (storeIngester e f now)) s = (p,none)) (clean : p.report.errors = []) :
    Agrees e p.state ↔ ∀ key ∈ s.index.manifests, WholeAt e s.fs (hexOut key) := by
  obtain ⟨p0,swept,folded⟩ := reconcileDone done
  have progress : Progress e p0 p := folded ▸ foldProgress e f now _ p0
  have settled : ∀ path ∈ listObjects p0.state.fs "manifests", Settled p path := folded ▸ foldSettled (folded ▸ clean)
  clear folded
  constructor
  · intro agrees key known
    -- rows are never dropped, and files only removed
    have later := progress.rows key (swept.index ▸ known)
    exact wholeOver (agrees.2 _ ((agrees.1 _).mp ⟨key,later,rfl⟩)) fun path file built found =>
      (swept.files _ path built).symm.trans (progress.files path file found)
  · intro backed
    have whole : ∀ key ∈ p0.state.index.manifests, WholeAt e p0.state.fs (hexOut key) := fun key known =>
      wholeOver (backed key (swept.index ▸ known)) fun path _ built found => (swept.files _ path built).trans found
    have rowWhole : ∀ key ∈ p.state.index.manifests, WholeAt e p.state.fs (hexOut key) := fun key mem =>
      (progress.fresh key mem).elim (fun old => wholeKept progress old (whole key old)) id
    have fileRow : ∀ digest, OnLocation p.state.fs digest → ∃ key ∈ p.state.index.manifests, hexOut key = digest := by
      intro digest onLocation
      obtain ⟨shape,path,built,present⟩ := onLocation
      obtain ⟨file,found⟩ := memLookup.mp present
      have walked : path ∈ listObjects p0.state.fs "manifests" :=
        mem_filter.mpr ⟨memLookup.mpr ⟨file,progress.files path file found⟩,manifestListed shape built⟩
      obtain ⟨key,parsed,known | gone⟩ := settled path walked
      · exact ⟨key,known,okSame parsed (manifestPathRef shape built)⟩
      · rw [gone] at found
        cases found
    refine ⟨fun digest => ⟨?_,fileRow digest⟩,fun digest onLocation => ?_⟩
    · intro row
      obtain ⟨key,mem,rfl⟩ := row
      exact wholeOnLocation (rowWhole key mem)
    · obtain ⟨key,mem,rfl⟩ := fileRow digest onLocation
      exact rowWhole key mem

def scanEngine : Engine :=
  {Readback.sampleEngine with
    decodeManifest := fun raw => .ok
      { artifactID := "", name := "", digest := "", identityNonce := [], sessionID := "", createdAt := none
        contentHash := "", originalSize := 0, hashAlgo := "", blobRefs := [], handleRefs := [], layout := .inline
        pipeline := [], inlineBlob := raw, retentionUntil := none, ext := [], usr := [] }}

def published : State :=
  (reconcile .none (some (storeIngester scanEngine .none 0)) ⟨put ∅ "manifests/00/00/000007" [7] 0,Index.empty⟩).1.state

def interrupted : State :=
  {published with fs := put (put published.fs "manifests/00/00/000009" [9] 0) "manifests/00/00/000008" [1] 0}

theorem interruptedAgrees :
    (∀ key ∈ interrupted.index.manifests, WholeAt scanEngine interrupted.fs (hexOut key)) ∧
    Agrees scanEngine (reconcile .none (some (storeIngester scanEngine .none 0)) interrupted).1.state := by
  have backed : ∀ key ∈ interrupted.index.manifests, WholeAt scanEngine interrupted.fs (hexOut key) := by
    intro key mem
    have rows : interrupted.index.manifests.keys = [[0,0,7]] := by decide +kernel
    change key ∈ interrupted.index.manifests.keys at mem
    rw [rows,mem_singleton] at mem
    subst mem
    exact ⟨"manifests/00/00/000007",⟨[7],0,0⟩,by decide +kernel,by decide +kernel,by decide +kernel⟩
  refine ⟨backed,(reconciledExactly scanEngine .none 0 interrupted (Prod.ext rfl ?_) ?_).mpr backed⟩
  · decide +kernel
  · decide +kernel

def halfDeleted : State := {published with fs := remove published.fs "manifests/00/00/000007"}

theorem leftoverRowStays :
    (reconcile .none (some (storeIngester scanEngine .none 0)) halfDeleted).2 = none ∧
    (reconcile .none (some (storeIngester scanEngine .none 0)) halfDeleted).1.report.errors = [] ∧
    ¬ Agrees scanEngine (reconcile .none (some (storeIngester scanEngine .none 0)) halfDeleted).1.state := by
  refine ⟨by decide +kernel,by decide +kernel,fun agrees => ?_⟩
  obtain ⟨_,path,built,present⟩ := (agrees.1 "000007").mp ⟨[0,0,7],by decide +kernel,by decide +kernel⟩
  have place : manifestPath "000007" = .ok "manifests/00/00/000007" := by decide +kernel
  cases okSame place built
  exact absurd present (by decide +kernel)

end Scrinium.Reconciliation
