import Scrinium.StoreOpen
import Scrinium.Reconciliation
import Scrinium.Gc

/-! When an index that is reported complete knows every whole manifest file. -/
namespace Scrinium.IndexCompleteness
open Keyed Domain Layout LocalFs SqliteIndex Cas Orphanscan Reconciliation StoreOpen Trace List

def Indexed (tx : Index) (digest : String) : Prop := ∃ key ∈ tx.manifests, hexOut key = digest
def WholeIndexed (e : Engine) (s : State) : Prop := ∀ digest, WholeAt e s.fs digest → Indexed s.index digest
def blobRefsOf (m : Manifest) : List String := if m.layout = .inline then [] else m.blobRefs

def References (e : Engine) (fs : Fs) (digest ref : String) : Prop :=
  ∃ path file m, manifestPath digest = .ok path ∧ fs.lookup path = some file ∧ e.hasher.hex file.data = digest ∧
    e.decodeManifest file.data = .ok m ∧ ref ∈ blobRefsOf m

def BlobsSpared (e : Engine) (c : Session) : Prop :=
  ∀ digest ref path now, References e c.state.fs digest ref → path ∈ listObjects c.state.fs "blobs" →
    refFromBlobPath path = .ok ref →
    (Gc.reconcileMedia c.indexComplete c.state now).fs.lookup path = c.state.fs.lookup path

def RowsResolve (e : Engine) (s : State) : Prop :=
  ∀ digest ref, Indexed s.index digest → References e s.fs digest ref → ∃ path, resolve s.index ref = .ok path

def visited (f : Faults) (fs : Fs) : List String :=
  if (f.list stagingPrefix).isSome || (listObjects fs stagingPrefix).any (fun path => (f.cancelled path).isSome) ||
      (f.list "manifests").isSome then []
  else (listObjects fs "manifests").takeWhile fun path => (f.cancelled path).isNone

section
variable (e : Engine) (f : Faults) (now : Instant) (s : State)
def TakesIn (digest path : String) : Prop :=
  digestFromManifestPath path = .ok digest ∧ f.probe digest = none ∧
    (verdict (storeIngester e f now s.fs s.index digest) = .ok () ∨
      verdict (storeIngester e f now s.fs s.index digest) = .error .corruptedManifest ∧
        manifestPath digest = .ok path ∧ f.remove path = none)

def AllTakenIn : Prop :=
  ∀ digest, WholeAt e s.fs digest → ¬ Indexed s.index digest → ∃ path ∈ visited f s.fs, TakesIn e f now s digest path

end

section
variable {f ing s p}
theorem walkCut {cb paths} :
    (walk f cb paths p).2 = none ↔ (paths.any fun path => (f.cancelled path).isSome) = false := by
  induction paths generalizing p with
  | nil => simp [walk]
  | cons path rest ih =>
    rw [walk]
    cases cut : f.cancelled path with
    | some err => simp [cut]
    | none => simp only [ih,any_cons,cut,Option.isSome_none,Bool.false_or]

variable (f : Faults) (ing : Ingester) (s : State)

theorem reconcileFold :
    (reconcile f (some ing) s).1 =
      (visited f s.fs).foldl (examine f (some ing)) (listWalk f (sweepStaging f) stagingPrefix (Pass.start s)).1 := by
  have swept := stagingSwept f s
  have cut : (listWalk f (sweepStaging f) stagingPrefix (Pass.start s)).2 = none ↔
      ((f.list stagingPrefix).isSome ||
        (listObjects s.fs stagingPrefix).any fun path => (f.cancelled path).isSome) = false := by
    unfold listWalk
    split
    · next err failed => simp [failed]
    · next started => simp only [walkCut,started,Option.isSome_none,Bool.false_or]; rfl
  unfold reconcile visited
  split
  · next p err halted =>
    rw [halted] at cut ⊢
    have stopped := mt cut.mpr (by simp)
    rw [Bool.not_eq_false] at stopped
    rw [if_pos (by rw [stopped,Bool.true_or])]
    rfl
  · next p done =>
    rw [done] at cut swept ⊢
    rw [cut.mp rfl,Bool.false_or]
    unfold listWalk
    split
    · next err failed => simp [failed]
    · next started =>
      rw [walkFold,swept.listing]
      simp [started]

theorem reconcileVisits :
    ∃ p0, Swept s p0 ∧ (reconcile f (some ing) s).1 = (visited f s.fs).foldl (examine f (some ing)) p0 :=
  ⟨_,stagingSwept f s,reconcileFold f ing s⟩

end

variable {e digest}

section
variable {s t p0}
structure SameManifests (s t : State) : Prop where
  index : s.index = t.index
  files : ∀ digest path, manifestPath digest = .ok path → s.fs.lookup path = t.fs.lookup path

theorem sameSymm (same : SameManifests s t) : SameManifests t s :=
  ⟨same.index.symm,fun digest path built => (same.files digest path built).symm⟩

theorem sweptSame (swept : Swept s p0) : SameManifests s p0.state :=
  ⟨swept.index.symm,fun digest path built => (swept.files digest path built).symm⟩

variable {ref fs}

theorem sameWhole (same : SameManifests s t) (whole : WholeAt e s.fs digest) : WholeAt e t.fs digest :=
  wholeOver whole fun path _ built found => (same.files digest path built).symm.trans found

theorem referencesOver {fs'} (references : References e fs digest ref)
    (files : ∀ path file, manifestPath digest = .ok path → fs.lookup path = some file → fs'.lookup path = some file) :
    References e fs' digest ref := by
  obtain ⟨path,file,m,built,found,rest⟩ := references
  exact ⟨path,file,m,built,files path file built found,rest⟩

theorem referencesWhole (references : References e fs digest ref) : WholeAt e fs digest := by
  obtain ⟨path,file,_,built,found,hashes,_⟩ := references
  exact ⟨path,file,built,found,hashes⟩

variable (same : SameManifests s t)
include same

theorem sameReferences (references : References e s.fs digest ref) : References e t.fs digest ref :=
  referencesOver references fun path _ built found => (same.files digest path built).symm.trans found

theorem sameIndexed (indexed : WholeIndexed e s) : WholeIndexed e t :=
  fun digest whole => same.index ▸ indexed digest (sameWhole (sameSymm same) whole)

theorem sameResolves (resolves : RowsResolve e s) : RowsResolve e t := by
  intro digest ref indexed references
  rw [← same.index] at indexed ⊢
  exact resolves digest ref indexed (sameReferences (sameSymm same) references)

end

variable {path}

section

structure Whole (e : Engine) (s : State) (digest place : String) (file : File) (key : Key) : Prop where
  built : manifestPath digest = .ok place
  found : s.fs.lookup place = some file
  hashes : e.hasher.hex file.data = digest
  shape : validateRefShape digest = .ok ()
  bound : bindKey digest = .ok key
  spelled : hexOut key = digest

def Untouched (s : State) (place : String) (key : Key) (p : Pass) : Prop :=
  p.state.fs.lookup place = s.fs.lookup place ∧ key ∉ p.state.index.manifests

def Resolved (place : String) (key : Key) (p : Pass) : Prop :=
  key ∈ p.state.index.manifests ∨ p.state.fs.lookup place = none

variable {f now s place file key p p'}

theorem wholeParts (whole : WholeAt e s.fs digest) : ∃ place file key, Whole e s digest place file key := by
  obtain ⟨place,file,built,found,hashes⟩ := whole
  have spelled : hexOut (e.hasher.sum file.data) = digest := hashes
  have bound := bindKeyOk.mpr (hexKeyEncode (Pipeline.sumNe e.hasher file.data))
  rw [spelled] at bound
  exact ⟨place,file,_,built,found,hashes,hashes ▸ Pipeline.hexShape e.hasher file.data,bound,spelled⟩

theorem indexedKey (whole : Whole e s digest place file key) {tx} : Indexed tx digest ↔ key ∈ tx.manifests := by
  constructor
  · intro indexed
    obtain ⟨other,mem,same⟩ := indexed
    cases HexText.encodeInjective (same.trans whole.spelled.symm)
    exact mem
  · exact fun mem => ⟨key,mem,whole.spelled⟩

variable {fs fs' : Fs}

section
variable (built : manifestPath digest = .ok place) (same : fs.lookup place = fs'.lookup place)
include built same
theorem loadSame : loadManifestByDigest e fs digest = loadManifestByDigest e fs' digest := by
  simp only [loadManifestByDigest,built,readManifestFile,same,bind,Except.bind]

theorem verdictAt (tx tx' : Index) :
    verdict (storeIngester e f now fs tx digest) = verdict (storeIngester e f now fs' tx' digest) := by
  unfold storeIngester
  split
  · rfl
  unfold ingestManifest
  rw [loadSame built same]
  refine verdictBind rfl fun m _ first second => ?_
  cases okSame first second
  refine verdictBind rfl fun addr _ first second => ?_
  cases okSame first second
  exact indexManifestVerdict e.indexes m addr now

end

theorem ingestVerdict (whole : Whole e s digest place file key) (untouched : Untouched s place key p) :
    verdict (storeIngester e f now p.state.fs p.state.index digest) =
      verdict (storeIngester e f now s.fs s.index digest) :=
  verdictAt whole.built untouched.1 p.state.index s.index

theorem resolvedLater (progress : Progress e p p') (resolved : Resolved place key p) : Resolved place key p' := by
  rcases resolved with known | gone
  · exact .inl (progress.rows key known)
  · exact .inr (goneLater progress gone)

section
variable (whole : Whole e s digest place file key) (untouched : Untouched s place key p)
include whole untouched
theorem takenIn (takes : TakesIn e f now s digest path) :
    Resolved place key (examine f (some (storeIngester e f now)) p path) := by
  obtain ⟨parsed,sound,taken⟩ := takes
  rw [← ingestVerdict whole untouched] at taken
  rw [examineUnknown parsed sound whole.bound untouched.2]
  cases read : storeIngester e f now p.state.fs p.state.index digest with
  | ok tx => exact .inl ((ingestRows whole.bound read).mpr (.inl rfl))
  | error err =>
    rw [read] at taken
    rcases taken with ok | ⟨corrupted,built,gone⟩
    · cases ok
    cases corrupted
    cases okSame whole.built built
    simp only [gone]
    exact .inr ((lookupErase _ _ _).trans (if_pos rfl))

theorem passedBy (passes : ¬ TakesIn e f now s digest path) :
    Untouched s place key (examine f (some (storeIngester e f now)) p path) := by
  generalize reached : examine f (some (storeIngester e f now)) p path = p'
  cases examined reached with
  | noted err => exact untouched
  | known => exact untouched
  | @ingested other row tx parsed sound bound spelled new read =>
    refine ⟨untouched.1,fun mem => ?_⟩
    rcases (ingestRows bound read).mp mem with rfl | earlier
    · cases spelled.symm.trans whole.spelled
      refine passes ⟨parsed,sound,.inl ?_⟩
      rw [← ingestVerdict whole untouched,read]
      rfl
    · exact untouched.2 earlier
  | @removed other row parsed sound bound spelled new fragment gone =>
    refine ⟨?_,untouched.2⟩
    have away : place ≠ path := by
      rintro rfl
      cases okSame parsed (manifestPathRef whole.shape whole.built)
      refine passes ⟨parsed,sound,.inr ⟨?_,whole.built,gone⟩⟩
      rw [← ingestVerdict whole untouched,fragment]
      rfl
    exact ((lookupErase _ _ _).trans (if_neg away)).trans untouched.1

end

theorem foldResolved {paths : List String} (whole : Whole e s digest place file key) (untouched : Untouched s place key p) :
    Resolved place key (paths.foldl (examine f (some (storeIngester e f now))) p) ↔
      ∃ path ∈ paths, TakesIn e f now s digest path := by
  induction paths generalizing p with
  | nil =>
    simp only [foldl_nil,not_mem_nil,false_and,exists_false,iff_false]
    rintro (known | gone)
    · exact untouched.2 known
    · rw [untouched.1,whole.found] at gone
      cases gone
  | cons path rest ih =>
    by_cases takes : TakesIn e f now s digest path
    · exact ⟨fun _ => ⟨path,mem_cons_self,takes⟩,
        fun _ => resolvedLater (foldProgress e f now rest _) (takenIn whole untouched takes)⟩
    · rw [foldl_cons,ih (passedBy whole untouched takes)]
      simp [takes]

end

section
variable {f now s p0 p p'}
theorem passExactly (e : Engine) (f : Faults) (now : Instant) (s : State) :
    WholeIndexed e (reconcile f (some (storeIngester e f now)) s).1.state ↔ AllTakenIn e f now s := by
  obtain ⟨p0,swept,visits⟩ := reconcileVisits f (storeIngester e f now) s
  have progress := foldProgress e f now (visited f s.fs) p0
  have exact' : ∀ {digest place file key}, Whole e s digest place file key → ¬ Indexed s.index digest →
      (Resolved place key ((visited f s.fs).foldl (examine f (some (storeIngester e f now))) p0) ↔
        ∃ path ∈ visited f s.fs, TakesIn e f now s digest path) := by
    intro digest place file key whole unknown
    refine foldResolved whole ⟨swept.files digest place whole.built,fun mem => unknown ?_⟩
    exact (indexedKey whole).mpr (swept.index ▸ mem)
  rw [visits]
  generalize (visited f s.fs).foldl (examine f (some (storeIngester e f now))) p0 = last at progress exact' ⊢
  constructor
  · intro complete digest wholeAt unknown
    obtain ⟨place,file,key,whole⟩ := wholeParts wholeAt
    refine (exact' whole unknown).mp ?_
    cases found : last.state.fs.lookup place with
    | none => exact .inr found
    | some other =>
      have same := progress.files place other found
      rw [swept.files digest place whole.built,whole.found] at same
      cases same
      exact .inl ((indexedKey whole).mp (complete digest ⟨place,file,whole.built,found,whole.hashes⟩))
  · intro taken digest wholeAt
    have earlier : WholeAt e p0.state.fs digest := wholeOver wholeAt fun path file _ found => progress.files path file found
    obtain ⟨place,file,key,whole⟩ := wholeParts (sameWhole (sameSymm (sweptSame swept)) earlier)
    rw [indexedKey whole]
    by_cases known : Indexed s.index digest
    · exact progress.rows key (swept.index ▸ (indexedKey whole).mp known)
    refine ((exact' whole known).mpr (taken digest ⟨place,file,whole.built,whole.found,whole.hashes⟩ known)).resolve_right ?_
    intro gone
    obtain ⟨there,other,built,found,_⟩ := wholeAt
    cases okSame whole.built built
    rw [gone] at found
    cases found

variable {tx ref addr m r}

theorem resolvesKey {key} (bound : bindKey ref = .ok key) : (∃ path, resolve tx ref = .ok path) ↔ key ∈ tx.blobs := by
  rw [memLookup]
  simp only [resolve,bindKeyOk.mp bound,bind,Except.bind]
  cases tx.blobs.lookup key with
  | none => simp [throw,throwThe,MonadExceptOf.throw]
  | some row => simp [pure,Except.pure]

theorem registerResolves (resolves : ∃ path, resolve tx ref = .ok path) :
    ∃ path, resolve (register tx m addr now r) ref = .ok path := by
  obtain ⟨path,found⟩ := resolves
  obtain ⟨key,row,hex,held,_⟩ := Cas.resolveKey found
  obtain ⟨new,kept,_⟩ := registeredKeeps m addr now r held
  exact (resolvesKey (bindKeyOk.mpr hex)).mpr (memLookup.mpr ⟨new,kept⟩)

theorem registeredRefs {indexes} (ok : registration indexes m = .ok r) (mem : ref ∈ blobRefsOf m) :
    ∃ path, resolve (register tx m addr now r) ref = .ok path := by
  unfold blobRefsOf at mem
  split at mem
  · cases mem
  next stored =>
  obtain ⟨keys,bound,rest⟩ := bindOk.mp ok
  obtain ⟨_,_,last⟩ := bindOk.mp rest
  cases last
  obtain ⟨digest,_,bound⟩ := bindOk.mp bound
  rw [if_neg stored,if_neg (ne_nil_of_mem mem)] at bound
  obtain ⟨content,_,bound⟩ := bindOk.mp bound
  obtain ⟨refs,read,last⟩ := bindOk.mp bound
  cases last
  obtain ⟨key,keyed,named⟩ := mapMMem read mem
  exact (resolvesKey keyed).mpr (registeredHas m addr now named)

theorem loadedRefs {fs digest} (loaded : loadManifestByDigest e fs digest = .ok m)
    (references : References e fs digest ref) : ref ∈ blobRefsOf m := by
  obtain ⟨place,file,decoded,built,found,_,decodes,mem⟩ := references
  obtain ⟨path,built',rest⟩ := bindOk.mp loaded
  cases okSame built built'
  obtain ⟨raw,read,rest⟩ := bindOk.mp rest
  obtain ⟨_,_,rest⟩ := bindOk.mp rest
  obtain ⟨m',decodes',last⟩ := bindOk.mp rest
  cases last
  rw [readManifestFile,found] at read
  dsimp only at read
  split at read
  · cases read
  · cases read
    cases okSame decodes decodes'
    exact mem

theorem examineResolves {path} (resolves : RowsResolve e p.state) :
    RowsResolve e (examine f (some (storeIngester e f now)) p path).state := by
  have progress := examineProgress e f now p path
  generalize reached : examine f (some (storeIngester e f now)) p path = p' at progress
  cases examined reached with
  | noted err => exact resolves
  | known => exact resolves
  | @ingested digest key tx parsed sound bound spelled new read =>
    obtain ⟨m,addr,r,loaded,registered,_,rfl⟩ := ingestOk read
    rintro other ref ⟨row,mem,rfl⟩ references
    rcases (ingestRows bound read).mp mem with rfl | earlier
    · rw [spelled] at references
      exact registeredRefs registered (loadedRefs loaded references)
    · exact registerResolves (resolves _ ref ⟨row,earlier,rfl⟩ references)
  | removed =>
    intro digest ref indexed references
    exact resolves digest ref indexed (referencesOver references fun path file _ found => progress.files path file found)

theorem foldResolves {paths : List String} (resolves : RowsResolve e p.state) :
    RowsResolve e (paths.foldl (examine f (some (storeIngester e f now))) p).state := by
  induction paths generalizing p with
  | nil => exact resolves
  | cons path rest ih => exact ih (examineResolves resolves)

theorem passResolves (resolves : RowsResolve e s) :
    RowsResolve e (reconcile f (some (storeIngester e f now)) s).1.state := by
  obtain ⟨p0,swept,visits⟩ := reconcileVisits f (storeIngester e f now) s
  rw [visits]
  exact foldResolves (sameResolves (sweptSame swept) resolves)

end

section
variable {f o now s c}
inductive Opened (e : Engine) (f : Faults) (o : StoreOptions) (now : Instant) (s : State) : Session → Prop where
  | opened {session : Session} (ok : openStore e f o now s = .ok session) : Opened e f o now s session
  | unlocked {shell : Session} (ok : openStore e f o now s = .ok shell) : Opened e f o now s (unlock e f o now shell).1

def settled (o : StoreOptions) (s : State) : State :=
  match settleIndex o (planIndexOpen o s) s with
  | .ok (next,_) => next
  | .error _ => s

def Reconciled (e : Engine) (f : Faults) (o : StoreOptions) (now : Instant) (s : State) (c : Session) : Prop :=
  c.state = (reconcile f (some (storeIngester e f now)) (settled o s)).1.state ∨
    c.state = recordCursor o now (reconcile f (some (storeIngester e f now)) (settled o s)).1.state

theorem bootstrapReconciled (complete : (bootstrap e f o now s).1.indexComplete = true) :
    Reconciled e f o now s (bootstrap e f o now s).1 := by
  unfold bootstrap at complete ⊢
  cases settles : settleIndex o (planIndexOpen o s) s with
  | error err =>
    rw [settles] at complete
    cases complete
  | ok result =>
    obtain ⟨next,flag⟩ := result
    simp only [Reconciled,settled,settles,unlockBootstrap]
    split
    · next reached => exact .inl (by rw [reached])
    · next reached => exact .inr (by rw [reached])

variable {session}

theorem bootstrapUnlocked (ok : bootstrap e f o now s = (session,none)) : session.status = .unlocked := by
  unfold bootstrap at ok
  split at ok
  · cases ok
  unfold unlockBootstrap at ok
  split at ok
  · cases ok
  · cases ok
    rfl

theorem openStoreOk (ok : openStore e f o now s = .ok session) :
    bootstrap e f o now s = (session,none) ∨ session = ⟨s,false,.locked,[]⟩ := by
  unfold openStore at ok
  split at ok
  · split at ok
    · cases ok
    · next result =>
      cases ok
      exact .inl result
  · exact .inr (Except.ok.inj ok).symm

theorem unlockLocked : (unlock e f o now ⟨s,false,.locked,[]⟩).1.state = (bootstrap e f o now s).1.state ∧
    (unlock e f o now ⟨s,false,.locked,[]⟩).1.indexComplete = (bootstrap e f o now s).1.indexComplete := by
  unfold unlock
  dsimp only
  split
  · next result => rw [result]; exact ⟨rfl,rfl⟩
  · next result => rw [result]; exact ⟨rfl,rfl⟩

theorem unlockUnlocked {shell} (done : shell.status = .unlocked) : (unlock e f o now shell).1 = shell := by
  simp [unlock,done]

theorem openedReconciled (opened : Opened e f o now s c) (complete : c.indexComplete = true) :
    Reconciled e f o now s c := by
  have started : ∀ {session}, bootstrap e f o now s = (session,none) → session.indexComplete = true →
      Reconciled e f o now s session := by
    intro session result complete
    have reconciled := @bootstrapReconciled e f o now s
    rw [result] at reconciled
    exact reconciled complete
  cases opened with
  | opened ok =>
    rcases openStoreOk ok with result | rfl
    · exact started result complete
    · cases complete
  | @unlocked shell ok =>
    rcases openStoreOk ok with result | rfl
    · rw [unlockUnlocked (bootstrapUnlocked result)] at complete ⊢
      exact started result complete
    · rw [unlockLocked.2] at complete
      rw [Reconciled,unlockLocked.1]
      exact bootstrapReconciled complete

theorem cursorFrame {digest} (built : manifestPath digest = .ok path) :
    (recordCursor o now s).fs.lookup path = s.fs.lookup path := by
  unfold recordCursor
  split
  · rfl
  refine (lookupInsert _ _ _ _).trans (if_neg fun same => ?_)
  have head := manifestPathHead built
  rw [same] at head
  simp [Named.cellFile,Named.fullPfx,Named.rootSlash] at head

theorem reconciledSame (reconciled : Reconciled e f o now s c) :
    SameManifests c.state (reconcile f (some (storeIngester e f now)) (settled o s)).1.state := by
  rcases reconciled with same | same
  · rw [same]
    exact ⟨rfl,fun _ _ _ => rfl⟩
  · rw [same]
    refine ⟨?_,fun digest path built => cursorFrame built⟩
    unfold recordCursor
    split <;> rfl

theorem resolvedSpared {ref blob} (complete : Bool) (parsed : refFromBlobPath path = .ok ref)
    (resolves : resolve s.index ref = .ok blob) :
    (Gc.reconcileMedia complete s now).fs.lookup path = s.fs.lookup path := by
  unfold Gc.reconcileMedia
  split
  · refine Gc.unknownsFrame now s.fs fun other mem => ⟨fun same => ?_,fun same => Gc.markerNoRef other ref (same ▸ parsed)⟩
    obtain ⟨unknown,parsed',missing⟩ := Gc.isUnknownRef (mem_filter.mp mem).2
    cases okSame parsed (same ▸ parsed')
    cases resolves.symm.trans missing
  · rfl

theorem sparedWhenIndexed (indexed : WholeIndexed e c.state) (resolves : RowsResolve e c.state) : BlobsSpared e c := by
  intro digest ref path now references _ parsed
  obtain ⟨blob,resolved⟩ := resolves digest ref (indexed digest (referencesWhole references)) references
  exact resolvedSpared c.indexComplete parsed resolved

/-- A session that reports a complete index has a row for every whole manifest file exactly when each one the settled
index did not know was taken in; media reconciliation then spares their blobs. -/
theorem completeExactly (e : Engine) (f : Faults) (o : StoreOptions) (now : Instant) (s : State) {c : Session}
    (opened : Opened e f o now s c) (complete : c.indexComplete = true) :
    (WholeIndexed e c.state ↔ AllTakenIn e f now (settled o s)) ∧
    (RowsResolve e (settled o s) →
      (WholeIndexed e c.state ∧ BlobsSpared e c ↔ AllTakenIn e f now (settled o s))) := by
  have same := reconciledSame (openedReconciled opened complete)
  have exact' : WholeIndexed e c.state ↔ AllTakenIn e f now (settled o s) :=
    ⟨fun indexed => (passExactly e f now _).mp (sameIndexed same indexed),
      fun taken => sameIndexed (sameSymm same) ((passExactly e f now _).mpr taken)⟩
  refine ⟨exact',fun resolves => ⟨fun both => exact'.mp both.1,fun taken => ?_⟩⟩
  have indexed := exact'.mpr taken
  exact ⟨indexed,sparedWhenIndexed indexed (sameResolves (sameSymm same) (passResolves resolves))⟩

end

theorem openDone {e f o now s} (key : o.unlocked = true)
    (done : (bootstrap e f o now s).2 = none) : openStore e f o now s = .ok (bootstrap e f o now s).1 := by
  rw [openStore,if_pos key]
  split
  · next result => cases (congrArg Prod.snd result).symm.trans done
  · next result => rw [result]

def blobEngine : Engine :=
  {Readback.sampleEngine with
    decodeManifest := fun _ => .ok
      { artifactID := "a", name := "", digest := "", identityNonce := [], sessionID := "", createdAt := none
        contentHash := "0102", originalSize := 2, hashAlgo := "", blobRefs := ["00000102"], handleRefs := []
        layout := .target, pipeline := [], inlineBlob := [], retentionUntil := none, ext := [], usr := [] }}

def rebuildOptions : StoreOptions :=
  { unlocked := true, ephemeral := false, allowRecovery := true, recoverIndex := none
    restoreCheckpoint := fun s => s.index, iterate := none, locate := none, cursor := .error (.other "unused") }

def lostIndex : State := ⟨put (put ∅ "manifests/00/00/000007" [7] 0) "blobs/00/00/00000102" [1,2] 0,Index.empty⟩

theorem lostOnly {digest} (whole : WholeAt blobEngine lostIndex.fs digest) : digest = "000007" := by
  obtain ⟨place,file,built,found,hashes⟩ := whole
  have files : lostIndex.fs.keys = ["blobs/00/00/00000102","manifests/00/00/000007"] := by decide +kernel
  have mem : place ∈ lostIndex.fs.keys := memLookup.mpr ⟨file,found⟩
  rw [files,mem_cons,mem_singleton] at mem
  rcases mem with rfl | rfl
  · exact absurd (manifestPathHead built) (by decide)
  · have data : lostIndex.fs.lookup "manifests/00/00/000007" = some ⟨[7],0,0⟩ := by decide +kernel
    cases someSame data found
    exact hashes.symm

theorem rebuiltComplete :
    (bootstrap blobEngine .none rebuildOptions 0 lostIndex).1.indexComplete = true ∧
    WholeIndexed blobEngine (bootstrap blobEngine .none rebuildOptions 0 lostIndex).1.state ∧
    BlobsSpared blobEngine (bootstrap blobEngine .none rebuildOptions 0 lostIndex).1 := by
  have opened : Opened blobEngine .none rebuildOptions 0 lostIndex (bootstrap blobEngine .none rebuildOptions 0 lostIndex).1 :=
    .opened (openDone rfl (by decide +kernel))
  have complete : (bootstrap blobEngine .none rebuildOptions 0 lostIndex).1.indexComplete = true := by decide +kernel
  have settles : settled rebuildOptions lostIndex = lostIndex := rfl
  have taken : AllTakenIn blobEngine .none 0 (settled rebuildOptions lostIndex) := by
    rw [settles]
    intro digest whole _
    cases lostOnly whole
    exact ⟨"manifests/00/00/000007",by decide +kernel,by decide +kernel,rfl,.inl (by decide +kernel)⟩
  have resolves : RowsResolve blobEngine (settled rebuildOptions lostIndex) := by
    rw [settles]
    rintro digest ref ⟨key,mem,_⟩
    exact absurd mem (AList.notMem_empty key)
  exact ⟨complete,((completeExactly blobEngine .none rebuildOptions 0 lostIndex opened complete).2 resolves).mpr taken⟩

def unreadable : Faults := {Faults.none with ingest := fun _ => some (.other "read manifest")}

theorem unreadManifestForgotten :
    openStore blobEngine unreadable rebuildOptions 0 lostIndex =
      .ok (bootstrap blobEngine unreadable rebuildOptions 0 lostIndex).1 ∧
    (bootstrap blobEngine unreadable rebuildOptions 0 lostIndex).1.indexComplete = true ∧
    ¬ WholeIndexed blobEngine (bootstrap blobEngine unreadable rebuildOptions 0 lostIndex).1.state ∧
    ¬ BlobsSpared blobEngine (bootstrap blobEngine unreadable rebuildOptions 0 lostIndex).1 := by
  refine ⟨openDone rfl (by decide +kernel),by decide +kernel,fun indexed => ?_,fun spared => ?_⟩
  · obtain ⟨key,mem,_⟩ := indexed "000007" ⟨"manifests/00/00/000007",⟨[7],0,0⟩,by decide +kernel,by decide +kernel,by decide +kernel⟩
    have none' : (bootstrap blobEngine unreadable rebuildOptions 0 lostIndex).1.state.index.manifests.keys = [] := by
      decide +kernel
    rw [AList.mem_keys,none'] at mem
    cases mem
  · have kept := spared "000007" "00000102" "blobs/00/00/00000102" 0
      ⟨"manifests/00/00/000007",⟨[7],0,0⟩,_,by decide +kernel,by decide +kernel,by decide +kernel,rfl,by decide +kernel⟩
      (by decide +kernel) (by decide +kernel)
    exact absurd kept (by decide +kernel)

end Scrinium.IndexCompleteness
