import Scrinium.GracePeriod
import Scrinium.MidFlight

/-! When a Put in flight is overtaken by the collector: only the tombstone of its path takes the blob file away. -/
namespace Scrinium.MidFlight
open List hiding after
open Keyed Domain Layout LocalFs Pipeline SqliteIndex Cas Gc StoreRuns Trace Option

section
variable (x : Setting) (output : Bytes)
def own : File := ⟨output,x.call.now,x.call.now⟩

def NamesBlob (m : Manifest) : Prop :=
  m.layout = .target ∧ m.blobRefs = [hexOut (x.engine.hasher.sum output)] ∧
    m.contentHash = x.engine.hasher.hex x.call.payload

def Carried (final : String) (tx : Index) : Stage → Prop
  | .ready => False
  | .placed blob => ∃ stages, blob =
      ⟨x.engine.hasher.hex x.call.payload,hexOut (x.engine.hasher.sum output),x.call.payload.length,stages,none,final⟩
  | .written m addr => NamesBlob x output m ∧ addr = final
  | .done m => NamesBlob x output m ∧ 0 < refCountIn tx.blobs (x.engine.hasher.sum output)
  | .failed _ => True

end

structure Underway (x : Setting) (output : Bytes) (final : String) (f : Flight) : Prop where
  laid : blobPath x.engine.topology .regular (x.engine.hasher.hex output) = .ok final
  placed : RowsPlaced x.engine.topology f.store.index
  carried : Carried x output final f.store.index f.put
  file : f.store.fs.lookup final = some (own x output) ∨ f.store.fs.lookup final = none

def Cycle.target : Cycle → Option String
  | .marking _ target => target
  | .burying _ target => target
  | _ => none

def Spares (final : String) (f : Flight) : Turn → Prop
  | .put => True
  | .collect i _ => (f.cycles i).target ≠ some final
instance (final : String) (f : Flight) (t : Turn) : Decidable (Spares final f t) := by
  cases t <;> unfold Spares <;> infer_instance

variable {x : Setting} {output final} {f : Flight} {m}

section
variable {s : State} {complete grace now}
theorem cycleCases (c : Cycle) :
    (c.target = none ∧ (cycleStep complete grace now s c).1 = s) ∨
    (∃ path, c.target = some path ∧
      (cycleStep complete grace now s c).1 = {s with fs := markTombstone s.fs path now}) ∨
    (c.target = none ∧ ∃ t ref, (cycleStep complete grace now s c).1 = (sweepRef grace t ⟨s,[]⟩ ref).state) := by
  cases c with
  | idle => exact .inl ⟨rfl,rfl⟩
  | marking refs target =>
    cases target with
    | some path => exact .inr (.inl ⟨path,rfl,rfl⟩)
    | none =>
      refine .inl ⟨rfl,?_⟩
      cases refs with
      | nil => rfl
      | cons ref refs =>
        simp only [cycleStep]
        split <;> rfl
  | probing paths unknown => cases paths <;> exact .inl ⟨rfl,rfl⟩
  | burying unknown target =>
    cases target with
    | some path => exact .inr (.inl ⟨path,rfl,rfl⟩)
    | none => cases unknown <;> exact .inl ⟨rfl,rfl⟩
  | sweeping t refs =>
    cases refs with
    | nil => exact .inl ⟨rfl,rfl⟩
    | cons ref refs => exact .inr (.inr ⟨rfl,t,ref,rfl⟩)
  | done => exact .inl ⟨rfl,rfl⟩

theorem cycleFile (plain : dotless final = true) (c : Cycle) :
    (cycleStep complete grace now s c).1.fs.lookup final =
      if c.target = some final then none else s.fs.lookup final := by
  rcases @cycleCases s complete grace now c with ⟨idle,same⟩ | ⟨path,aimed,hidden⟩ | ⟨idle,t,ref,swept⟩
  · rw [same,idle,if_neg (by simp)]
  · rw [hidden,aimed]
    by_cases same : path = final
    · rw [if_pos (congrArg some same),← same]
      exact markSource s.fs path now
    · rw [if_neg fun h => same (some.inj h)]
      exact markFrame now (Ne.symm same) (dotlessNotMarker plain)
  · rw [swept,idle,if_neg (by simp)]
    rcases sweepRefCases grace t ⟨s,[]⟩ ref with same | ⟨_,row,_,files,_⟩
    · rw [same]
    · rw [files,removeTombstone,lookupErase,if_neg (dotlessNotMarker plain)]

theorem cycleIndex (c : Cycle) :
    (cycleStep complete grace now s c).1.index = s.index ∨ ∃ key orphan, s.index.blobs.lookup key = some orphan ∧
      orphan.refCount = 0 ∧
      (cycleStep complete grace now s c).1.index = {s.index with blobs := s.index.blobs.erase key} := by
  rcases @cycleCases s complete grace now c with ⟨_,same⟩ | ⟨path,_,hidden⟩ | ⟨_,t,ref,swept⟩
  · exact .inl (by rw [same])
  · exact .inl (by rw [hidden])
  rw [swept]
  rcases sweepRefCases grace t ⟨s,[]⟩ ref with same | ⟨_,_,_,_,index⟩
  · exact .inl (by rw [same])
  · exact index

theorem cyclePlaced {topology} (placed : RowsPlaced topology s.index) (c : Cycle) :
    RowsPlaced topology (cycleStep complete grace now s c).1.index := by
  rcases @cycleIndex s complete grace now c with same | ⟨key,_,_,_,dropped⟩
  · rw [same]
    exact placed
  · rw [dropped]
    exact placedErase placed key

theorem cycleCount {key} (counted : 0 < refCountIn s.index.blobs key) (c : Cycle) :
    0 < refCountIn (cycleStep complete grace now s c).1.index.blobs key := by
  rcases @cycleIndex s complete grace now c with same | ⟨other,orphan,found,zero,dropped⟩
  · rw [same]
    exact counted
  · rw [dropped]
    have apart : key ≠ other := by
      rintro rfl
      simp [refCountIn,found,zero] at counted
    simpa only [refCountIn,lookupErase,if_neg apart] using counted

theorem carriedCycle {stage} (carried : Carried x output final s.index stage) (c : Cycle) :
    Carried x output final (cycleStep complete grace now s c).1.index stage := by
  cases stage with
  | done m => exact ⟨carried.1,cycleCount carried.2 c⟩
  | ready => exact carried
  | placed blob => exact carried
  | written m addr => exact carried
  | failed err => exact carried

theorem underwayPlain (u : Underway x output final f) : dotless final = true :=
  dotlessBlobPath (hexShape x.engine.hasher output) u.laid

variable {tx blob}

theorem carriedCommit {addr} (named : NamesBlob x output m)
    (told : indexManifest x.engine.indexes s.index m addr x.call.now = .ok tx) :
    ∃ r, tx = register s.index m addr x.call.now r ∧ r.keys.refs = [x.engine.hasher.sum output] := by
  obtain ⟨r,registered,rfl⟩ := indexManifestOk.mp told
  obtain ⟨layout,ref,hash⟩ := named
  exact ⟨r,rfl,(registrationKeys registered (by rw [layout]; decide) ref (sumNe x.engine.hasher output)
    (hash ▸ bindSum x.engine.hasher x.call.payload)).1⟩

theorem commitPlaced (named : NamesBlob x output m)
    (laid : blobPath x.engine.topology .regular (x.engine.hasher.hex output) = .ok final)
    (placed : RowsPlaced x.engine.topology s.index) (told : indexManifest x.engine.indexes s.index m final x.call.now = .ok tx) :
    RowsPlaced x.engine.topology tx ∧ 0 < refCountIn tx.blobs (x.engine.hasher.sum output) := by
  obtain ⟨r,rfl,refs⟩ := carriedCommit named told
  constructor
  · intro key row found
    rcases registeredRow found with ⟨old,held,same⟩ | ⟨_,mem,same⟩
    · rw [(identityEq same).2.2.1]
      exact placed key old held
    rw [refs,mem_singleton] at mem
    subst mem
    have addressed : row.physicalPath = final := by
      simpa [identity,blobRow] using congrArg BlobRow.physicalPath same
    rw [addressed]
    exact ⟨hexShape x.engine.hasher output,laid⟩
  · have counted := refCountRegister s.index.blobs (blobRow m r.keys.content final x.call.now) rfl r.keys.refs
      (x.engine.hasher.sum output)
    rw [refs,count_singleton_self] at counted
    simp only [register,refs,counted]
    omega

theorem manifestNotFinal {digest path}
    (laid : blobPath x.engine.topology .regular (x.engine.hasher.hex output) = .ok final)
    (file : manifestPath digest = .ok path) : final ≠ path :=
  headsApart (blobPathHead laid) (manifestPathHead file) (by decide)

section
variable (u : Underway x output final f)
include u
theorem putUnderway :
    (turn x f .put).store.fs.lookup final = f.store.fs.lookup final ∧
      RowsPlaced x.engine.topology (turn x f .put).store.index ∧
      Carried x output final (turn x f .put).store.index (turn x f .put).put := by
  obtain ⟨s,cycles,stage⟩ := f
  have placed := u.placed
  have carried := u.carried
  simp only [turn] at placed carried ⊢
  cases stage with
  | ready => exact carried.elim
  | placed blob =>
    obtain ⟨stages,rfl⟩ := carried
    simp only [putStep]
    split
    · exact ⟨rfl,placed,trivial⟩
    next m fileBytes assembled =>
    split
    · exact ⟨rfl,placed,trivial⟩
    next path file =>
    obtain ⟨layout,_,_,ref,hash⟩ := assembledTarget (sumNe x.engine.hasher output) assembled
    refine ⟨?_,placed,⟨layout,ref,hash⟩,rfl⟩
    rw [LocalFs.put,lookupInsert,if_neg (manifestNotFinal u.laid file)]
  | written m addr =>
    obtain ⟨named,rfl⟩ := carried
    simp only [putStep]
    split
    · exact ⟨rfl,placed,trivial⟩
    next tx told =>
      obtain ⟨still,counted⟩ := commitPlaced named u.laid placed told
      exact ⟨rfl,still,named,counted⟩
  | done m => exact ⟨rfl,placed,carried⟩
  | failed err => exact ⟨rfl,placed,trivial⟩

theorem turnFile (t : Turn) :
    (turn x f t).store.fs.lookup final = f.store.fs.lookup final ∧ Spares final f t ∨
      (turn x f t).store.fs.lookup final = none ∧ ¬ Spares final f t := by
  cases t with
  | put => exact .inl ⟨(putUnderway u).1,trivial⟩
  | collect i now =>
    have file := @cycleFile final f.store x.complete x.grace now (underwayPlain u) (f.cycles i)
    by_cases aimed : (f.cycles i).target = some final
    · rw [if_pos aimed] at file
      exact .inr ⟨file,fun spared => spared aimed⟩
    · rw [if_neg aimed] at file
      exact .inl ⟨file,aimed⟩

theorem underwayTurn (t : Turn) : Underway x output final (turn x f t) := by
  have file : (turn x f t).store.fs.lookup final = some (own x output) ∨ (turn x f t).store.fs.lookup final = none := by
    rcases turnFile u t with ⟨same,_⟩ | ⟨gone,_⟩
    · rw [same]
      exact u.file
    · exact .inr gone
  cases t with
  | put => exact ⟨u.laid,(putUnderway u).2.1,(putUnderway u).2.2,file⟩
  | collect i now => exact ⟨u.laid,cyclePlaced u.placed (f.cycles i),carriedCycle u.carried (f.cycles i),file⟩

theorem fileStill (t : Turn) :
    (turn x f t).store.fs.lookup final = some (own x output) ↔
      f.store.fs.lookup final = some (own x output) ∧ Spares final f t := by
  rcases turnFile u t with ⟨same,spared⟩ | ⟨gone,hit⟩
  · simp only [same,spared,and_true]
  · simp only [gone,hit,and_false,reduceCtorEq]

theorem committedRow (success : f.put = .done m) :
    ∃ row, f.store.index.blobs.lookup (x.engine.hasher.sum output) = some row ∧ 0 < row.refCount ∧
      row.physicalPath = final := by
  have carried := u.carried
  rw [success] at carried
  have counted := carried.2
  cases found : f.store.index.blobs.lookup (x.engine.hasher.sum output) with
  | none => simp [refCountIn,found] at counted
  | some row =>
    refine ⟨row,rfl,by simpa [refCountIn,found] using counted,?_⟩
    exact Except.ok.inj ((u.placed _ row found).2.symm.trans u.laid)

theorem openedAt (success : f.put = .done m) :
    openRawBlob f.store m = .ok output ↔ f.store.fs.lookup final = some (own x output) := by
  obtain ⟨row,found,_,path⟩ := committedRow u success
  have carried := u.carried
  rw [success] at carried
  obtain ⟨⟨layout,ref,_⟩,_⟩ := carried
  have primary : m.primaryBlobRef = hexOut (x.engine.hasher.sum output) := by simp [Manifest.primaryBlobRef,ref]
  have resolved : resolve f.store.index m.primaryBlobRef = .ok final := by
    rw [primary,resolvePlaced u.placed found,path]
  simp only [openRawBlob,layout,resolved,bind,Except.bind,LocalFs.get]
  rcases u.file with here | gone
  · simp [here,own,pure,Except.pure]
  · simp [gone]

end

theorem renamesWhen (moves : renames x s = some (output,final)) :
    (x.config.inlineMode && x.call.payload.length ≤ x.config.inlineBlobLimit) = false ∧ ∃ stages,
      buildPut x.engine.hasher x.engine.registry x.config.pipeline x.call.payload = .ok (output,stages) ∧
      dedupProbe x.engine s.index (x.engine.hasher.hex x.call.payload) x.call.payload.length
        (x.engine.hasher.hex output) (cryptoIdentityOf stages) = .ok none ∧
      blobPath x.engine.topology .regular (x.engine.hasher.hex output) = .ok final := by
  unfold renames at moves
  split at moves
  · contradiction
  next target =>
  split at moves
  · contradiction
  next bytes stages built =>
  split at moves
  · next place miss laid =>
    cases moves
    exact ⟨Bool.eq_false_iff.mpr target,stages,built,miss,laid⟩
  · contradiction

theorem freshPlaced {s' stages}
    (target : (x.config.inlineMode && x.call.payload.length ≤ x.config.inlineBlobLimit) = false)
    (built : buildPut x.engine.hasher x.engine.registry x.config.pipeline x.call.payload = .ok (output,stages))
    (miss : dedupProbe x.engine s.index (x.engine.hasher.hex x.call.payload) x.call.payload.length (x.engine.hasher.hex output) (cryptoIdentityOf stages) = .ok none)
    (laid : blobPath x.engine.topology .regular (x.engine.hasher.hex output) = .ok final)
    (stored : materialize x.engine x.config s x.call = (s',.ok blob)) :
    blob = ⟨x.engine.hasher.hex x.call.payload,hexOut (x.engine.hasher.sum output),x.call.payload.length,stages,none,
        final⟩ ∧ s'.fs.lookup final = some (own x output) ∧ s'.index = s.index := by
  have streamed : streamToTarget x.engine x.config s x.call = (s',.ok blob) := by
    unfold materialize at stored
    split at stored
    · cases stored
    · simpa only [target,if_false,Bool.false_eq_true] using stored
  have uninlined : blob.inlineBytes = none := by
    simp only [streamToTarget,built,Prod.mk.injEq] at streamed
    generalize commitBlob x.engine _ _ _ _ _ _ _ = pair at streamed
    obtain ⟨next,outcome⟩ := pair
    cases outcome with
    | error err => cases streamed.2
    | ok named =>
      cases Except.ok.inj streamed.2
      rfl
  cases streamToTargetPlaced streamed with
  | inline mode => cases uninlined
  | shared _ _ _ existing addr again hit =>
    cases okSame built again
    rw [miss] at hit
    cases hit
  | fresh _ _ _ place again _ path index file =>
    cases okSame built again
    cases okSame laid path
    exact ⟨rfl,file,index⟩

theorem renamedUnderway (placed : RowsPlaced x.engine.topology f.store.index)
    (moves : renames x f.store = some (output,final)) (ready : f.put = .ready) (first : (turn x f .put).put = .placed blob) :
    Underway x output final (turn x f .put) ∧ (turn x f .put).store.fs.lookup final = some (own x output) := by
  obtain ⟨s,cycles,stage⟩ := f
  subst ready
  simp only [turn,putStep] at first ⊢
  generalize (do validatePutInputs x.call; checkPutSupported x.engine x.config) = checked at first ⊢
  cases checked with
  | error err => contradiction
  | ok _ =>
    simp only at first ⊢
    generalize stored : materialize x.engine x.config s x.call = pair at first ⊢
    obtain ⟨s',outcome⟩ := pair
    cases outcome with
    | error err => contradiction
    | ok made =>
      obtain ⟨target,stages,built,miss,laid⟩ := renamesWhen moves
      obtain ⟨shape,file,index⟩ := freshPlaced target built miss laid stored
      refine ⟨⟨laid,?_,⟨stages,shape⟩,.inl file⟩,file⟩
      rw [index]
      exact placed

end

def Cycle.Holds (key : Key) (final : String) : Cycle → Prop
  | .marking refs target => target = some final ∨ ∃ ref ∈ refs, hexKey ref = .ok (some key)
  | .probing _ unknown => final ∈ unknown
  | .burying unknown target => target = some final ∨ final ∈ unknown
  | _ => False

def Cycle.Collects (key : Key) (final : String) (tx : Index) : Cycle → Prop
  | .idle => (tx.blobs.lookup key).any (fun row => row.refCount = 0) = true
  | .probing (path::_) _ => path = final ∧ tx.blobs.lookup key = none
  | _ => False
instance (key : Key) (final : String) (tx : Index) (c : Cycle) : Decidable (c.Collects key final tx) := by
  unfold Cycle.Collects
  split <;> infer_instance

section
variable (x : Setting) (output : Bytes) (final : String) (f : Flight)
def Uncollected : Turn → Prop
  | .put => True
  | .collect i _ => f.put.manifest.isSome = false → ¬ (f.cycles i).Collects (x.engine.hasher.sum output) final f.store.index
instance (x : Setting) (output : Bytes) (final : String) (f : Flight) (t : Turn) :
    Decidable (Uncollected x output final f t) := by
  cases t <;> unfold Uncollected <;> infer_instance

def Clear : Prop := ∀ i, ¬ (f.cycles i).Holds (x.engine.hasher.sum output) final

end

section
variable {now}

variable {key ref target unknown}

theorem orphanListed {tx} (listed : ref ∈ listOrphanBlobs tx) (named : hexKey ref = .ok (some key)) :
    (tx.blobs.lookup key).any (fun row => row.refCount = 0) = true := by
  obtain ⟨entry,mem,rfl⟩ := mem_map.mp listed
  obtain ⟨found,zero⟩ := orphanEntry.mp mem
  have nonempty : entry.1 ≠ [] := by
    intro empty
    rw [empty] at named
    cases named
  cases some.inj (okSame (hexKeyEncode nonempty) named)
  rw [found,any_some,decide_eq_true zero]

section
variable (u : Underway x output final f)
include u
theorem resolvedKey (resolved : resolve f.store.index ref = .ok final) :
    hexKey ref = .ok (some (x.engine.hasher.sum output)) := by
  obtain ⟨key,row,named,found,path⟩ := resolveKey resolved
  obtain ⟨shape,place⟩ := u.placed key row found
  rw [path] at place
  cases HexText.encodeInjective (blobPathInjective shape (hexShape x.engine.hasher output) place u.laid)
  exact named

theorem unknownUnindexed (unknown : isUnknown f.store.index final = true) :
    f.store.index.blobs.lookup (x.engine.hasher.sum output) = none := by
  cases found : f.store.index.blobs.lookup (x.engine.hasher.sum output) with
  | none => rfl
  | some row =>
    have parsed : refFromBlobPath final = .ok (hexOut (x.engine.hasher.sum output)) :=
      blobPathRef (hexShape x.engine.hasher output) u.laid
    simp [isUnknown,parsed,resolvePlaced u.placed found] at unknown

theorem clearMarking {refs} (clear : ¬ (Cycle.marking refs target).Holds (x.engine.hasher.sum output) final) :
    ¬ (cycleStep x.complete x.grace now f.store (.marking refs target)).2.Holds (x.engine.hasher.sum output) final := by
  cases target with
  | some path =>
    rintro (aimed | listed)
    · cases aimed
    · exact clear (.inr listed)
  | none =>
    cases refs with
    | nil =>
      simp only [cycleStep]
      cases x.complete with
      | true => exact not_mem_nil
      | false => exact id
    | cons ref refs =>
      have rest : ¬ ∃ ref ∈ refs, hexKey ref = .ok (some (x.engine.hasher.sum output)) := by
        rintro ⟨other,mem,named⟩
        exact clear (.inr ⟨other,mem_cons_of_mem ref mem,named⟩)
      simp only [cycleStep]
      cases resolved : resolve f.store.index ref with
      | error err =>
        rintro (aimed | listed)
        · cases aimed
        · exact rest listed
      | ok path =>
        rintro (aimed | listed)
        · split at aimed
          · cases aimed
          · cases aimed
            exact clear (.inr ⟨ref,mem_cons_self,resolvedKey u resolved⟩)
        · exact rest listed

theorem clearProbing {paths} (clear : final ∉ unknown)
    (passes : ¬ (Cycle.probing paths unknown).Collects (x.engine.hasher.sum output) final f.store.index) :
    ¬ (cycleStep x.complete x.grace now f.store (.probing paths unknown)).2.Holds (x.engine.hasher.sum output) final := by
  cases paths with
  | nil =>
    rintro (aimed | listed)
    · cases aimed
    · exact clear listed
  | cons path paths =>
    simp only [cycleStep,Cycle.Holds]
    split
    · next lost =>
      intro mem
      rcases mem_append.mp mem with earlier | here
      · exact clear earlier
      · cases mem_singleton.mp here
        exact passes ⟨rfl,unknownUnindexed u lost⟩
    · exact clear

end

theorem clearBurying (clear : ¬ (Cycle.burying unknown target).Holds key final) :
    ¬ (cycleStep x.complete x.grace now f.store (.burying unknown target)).2.Holds key final := by
  cases target with
  | some path =>
    rintro (aimed | listed)
    · cases aimed
    · exact clear (.inr listed)
  | none =>
    cases unknown with
    | nil => exact id
    | cons path unknown =>
      simp only [cycleStep,Cycle.Holds]
      rintro (aimed | listed)
      · split at aimed
        · cases aimed
        · cases aimed
          exact clear (.inr mem_cons_self)
      · exact clear (.inr (mem_cons_of_mem path listed))

theorem clearStep (u : Underway x output final f) {c} (clear : ¬ c.Holds (x.engine.hasher.sum output) final)
    (passes : ¬ c.Collects (x.engine.hasher.sum output) final f.store.index) :
    ¬ (cycleStep x.complete x.grace now f.store c).2.Holds (x.engine.hasher.sum output) final := by
  cases c with
  | idle =>
    rintro (aimed | ⟨ref,listed,named⟩)
    · cases aimed
    · exact passes (orphanListed listed named)
  | marking refs target => exact clearMarking u clear
  | probing paths unknown => exact clearProbing u clear passes
  | burying unknown target => exact clearBurying clear
  | sweeping t refs => cases refs <;> exact id
  | done => exact id

theorem committedPasses {m} (u : Underway x output final f) (success : f.put = .done m) (c : Cycle) :
    ¬ c.Collects (x.engine.hasher.sum output) final f.store.index := by
  obtain ⟨row,found,counted,_⟩ := committedRow u success
  unfold Cycle.Collects
  split
  · rw [found,any_some,decide_eq_true_eq]
    omega
  · rw [found]
    rintro ⟨_,none⟩
    cases none
  · exact id

theorem clearTurn (u : Underway x output final f) (clear : Clear x output final f) (t : Turn)
    (passes : Uncollected x output final f t) : Clear x output final (turn x f t) := by
  cases t with
  | put => exact clear
  | collect i now =>
    have apart : ¬ (f.cycles i).Collects (x.engine.hasher.sum output) final f.store.index := by
      cases stage : f.put with
      | done m => exact committedPasses u stage (f.cycles i)
      | ready => exact passes (by rw [stage]; rfl)
      | placed blob => exact passes (by rw [stage]; rfl)
      | written m addr => exact passes (by rw [stage]; rfl)
      | failed err => exact passes (by rw [stage]; rfl)
    intro j
    by_cases same : j = i
    · subst same
      simpa only [turn,Function.update_self] using clearStep u (clear j) apart
    · simpa only [turn,Function.update_of_ne same] using clear j

theorem clearSpares (clear : Clear x output final f) (t : Turn) : Spares final f t := by
  cases t with
  | put => trivial
  | collect i now =>
    intro aimed
    apply clear i
    cases stage : f.cycles i with
    | marking refs target => exact .inl (by simpa only [stage,Cycle.target] using aimed)
    | burying unknown target => exact .inl (by simpa only [stage,Cycle.target] using aimed)
    | idle => simp [stage,Cycle.target] at aimed
    | probing paths unknown => simp [stage,Cycle.target] at aimed
    | sweeping t refs => simp [stage,Cycle.target] at aimed
    | done => simp [stage,Cycle.target] at aimed

end

structure Waiting (x : Setting) (f : Flight) : Prop where
  placed : RowsPlaced x.engine.topology f.store.index
  ready : f.put = .ready

theorem waitingRun {pre} (collecting : ∀ t ∈ pre, t ≠ .put) (w : Waiting x f) : Waiting x (after (turn x) f pre) := by
  have keep : ∀ f t, Waiting x f → t ≠ .put → Waiting x (turn x f t) := by
    intro f t w other
    cases t with
    | put => contradiction
    | collect i now => exact ⟨cyclePlaced w.placed (f.cycles i),w.ready⟩
  exact invariantAfter keep w (alongOfMem collecting)

theorem returnedRun {stage} (returned : stage.outcome.isSome = true) (turns : List Turn) (there : f.put = stage) :
    (after (turn x) f turns).put = stage := by
  have keep : ∀ (f : Flight) t, f.put = stage → (turn x f t).put = stage := by
    intro f t there
    cases t with
    | put =>
      simp only [turn,there]
      cases stage with
      | done m => rfl
      | failed err => rfl
      | ready => cases returned
      | placed blob => cases returned
      | written m addr => cases returned
    | collect i now => exact there
  exact invariantRun keep turns there

theorem firstPlaced {rest} (w : Waiting x f)
    (success : (after (turn x) (turn x f .put) rest).put = .done m) : ∃ blob, (turn x f .put).put = .placed blob := by
  have stages : (∃ err, (turn x f .put).put = .failed err) ∨ ∃ blob, (turn x f .put).put = .placed blob := by
    simp only [turn,w.ready,putStep]
    split
    · exact .inl ⟨_,rfl⟩
    · split
      · exact .inl ⟨_,rfl⟩
      · exact .inr ⟨_,rfl⟩
  rcases stages with ⟨err,failed⟩ | placed
  · rw [returnedRun rfl rest failed] at success
    cases success
  · exact placed

theorem underwayRun (turns : List Turn) (u : Underway x output final f) :
    Underway x output final (after (turn x) f turns) := by
  have keep : ∀ f t, Underway x output final f → Underway x output final (turn x f t) := fun _ t u => underwayTurn u t
  exact invariantRun keep turns u

theorem fileRun (turns : List Turn) (u : Underway x output final f) (here : f.store.fs.lookup final = some (own x output)) :
    (after (turn x) f turns).store.fs.lookup final = some (own x output) ↔ Along (turn x) (Spares final) f turns := by
  let there : Flight → Prop := fun f => f.store.fs.lookup final = some (own x output)
  have keep : ∀ f t, Underway x output final f → Underway x output final (turn x f t) := fun _ t u => underwayTurn u t
  have exact : ∀ f t, Underway x output final f → (there (turn x f t) ↔ there f ∧ Spares final f t) :=
    fun _ t u => fileStill u t
  exact (stillIff keep exact u).trans (and_iff_right here)

theorem clearRun {turns} (u : Underway x output final f) (clear : Clear x output final f)
    (passes : Along (turn x) (Uncollected x output final) f turns) :
    Along (turn x) (Spares final) f turns ∧ Clear x output final (after (turn x) f turns) := by
  have keep : ∀ f t, Underway x output final f ∧ Clear x output final f → Uncollected x output final f t →
      Underway x output final (turn x f t) ∧ Clear x output final (turn x f t) :=
    fun _ t h passes => ⟨underwayTurn h.1 t,clearTurn h.1 h.2 t passes⟩
  refine ⟨?_,(invariantAfter keep ⟨u,clear⟩ passes).2⟩
  exact alongMono (alongInvariant keep ⟨u,clear⟩ passes) fun _ t h => clearSpares h.1.2 t

theorem doneUncollected (turns : List Turn) (done : f.put = .done m) :
    Along (turn x) (Uncollected x output final) f turns := by
  have keep : ∀ (f : Flight) t, f.put = .done m → True → (turn x f t).put = .done m := fun f t done _ => returnedRun rfl [t] done
  have free : Along (turn x) (fun _ _ => True) f turns := fun _ _ => trivial
  have all := alongInvariant keep done free
  refine alongMono all fun f t h => ?_
  cases t with
  | put => trivial
  | collect i now =>
    intro open'
    rw [h.1] at open'
    cases open'

/-- The blob of a Put in flight amid collection cycles is readable exactly when no turn since its rename was the
tombstone of its path, and stays so if no cycle collected it before the index transaction. -/
theorem midFlightReadable (x : Setting) (ops : List StoreOp) (pre rest : List Turn) {output : Bytes} {final : String}
    {m : Manifest} (collecting : ∀ t ∈ pre, t ≠ .put)
    (moves : renames x (after (turn x) (opened (after (advance x.engine) emptyStore ops)) pre).store = some (output,final))
    (success : (after (turn x) (opened (after (advance x.engine) emptyStore ops)) (pre ++ .put::rest)).put = .done m) :
    let before := after (turn x) (opened (after (advance x.engine) emptyStore ops)) pre
    let renamed := turn x before .put
    (openRawBlob (after (turn x) renamed rest).store m = .ok output ↔ Along (turn x) (Spares final) renamed rest) ∧
    (Clear x output final before → Along (turn x) (Uncollected x output final) renamed rest →
      ∀ more, openRawBlob (after (turn x) renamed (rest ++ more)).store m = .ok output) := by
  intro before renamed
  have reached : RowsPlaced x.engine.topology (after (advance x.engine) emptyStore ops).index :=
    placedReached x.engine ops
  have waiting : Waiting x before := waitingRun collecting ⟨reached,rfl⟩
  have success : (after (turn x) renamed rest).put = .done m := by
    rw [after,foldl_append] at success
    exact success
  obtain ⟨blob,first⟩ := firstPlaced waiting success
  obtain ⟨underway,here⟩ := renamedUnderway waiting.placed moves waiting.ready first
  refine ⟨?_,?_⟩
  · rw [openedAt (underwayRun rest underway) success,fileRun rest underway here]
  intro clear passes more
  have joined : Along (turn x) (Uncollected x output final) renamed (rest ++ more) :=
    alongAppend.mpr ⟨passes,doneUncollected more success⟩
  have finished : (after (turn x) renamed (rest ++ more)).put = .done m := by
    rw [after,foldl_append]
    exact returnedRun rfl more success
  rw [openedAt (underwayRun (rest ++ more) underway) finished,fileRun (rest ++ more) underway here]
  exact (clearRun underway clear joined).1

def sampleSetting : Setting :=
  ⟨Readback.sampleEngine,Readback.sampleConfig [],Readback.sampleCall "u1" 1 0,true,GracePeriod.hour⟩

def overtaking : List Turn :=
  [.put,.collect 0 0,.collect 0 0,.collect 0 0,.collect 0 0,.collect 0 0,.collect 0 0,.put,.put]

theorem overtakenUnreadable :
    0 < sampleSetting.grace ∧ sampleSetting.complete = true ∧
    ∃ m, (after (turn sampleSetting) (opened emptyStore) overtaking).put = .done m ∧
      resolve (after (turn sampleSetting) (opened emptyStore) overtaking).store.index m.primaryBlobRef =
        .ok "blobs/00/00/00000102" ∧
      LocalFs.get (after (turn sampleSetting) (opened emptyStore) overtaking).store.fs "blobs/00/00/00000102" =
        .error .notExist := by
  refine ⟨by decide,rfl,?_⟩
  have finished : (after (turn sampleSetting) (opened emptyStore) overtaking).put.manifest.any (fun m =>
      m.primaryBlobRef = "00000102") = true := by decide +kernel
  cases stage : (after (turn sampleSetting) (opened emptyStore) overtaking).put with
  | done m =>
    rw [stage,Stage.manifest,any_some,decide_eq_true_eq] at finished
    exact ⟨m,rfl,by rw [finished]; decide +kernel,by decide +kernel⟩
  | _ => simp [stage,Stage.manifest] at finished

def passing : List Turn := [.collect 0 0,.put,.collect 0 0,.put,.put,.collect 0 0,.collect 0 0,.collect 0 0]

theorem passingReadable :
    ∃ m, (after (turn sampleSetting) (opened emptyStore) passing).put = .done m ∧
      ∀ more, openRawBlob (after (turn sampleSetting) (opened emptyStore) (passing ++ more)).store m = .ok [1,2] := by
  have finished : (after (turn sampleSetting) (opened emptyStore) passing).put.manifest.isSome = true := by decide +kernel
  cases stage : (after (turn sampleSetting) (opened emptyStore) passing).put with
  | done m =>
    have read := midFlightReadable sampleSetting [] [.collect 0 0] (passing.drop 2) (by decide)
      (show renames sampleSetting _ = some ([1,2],"blobs/00/00/00000102") by decide +kernel) stage
    refine ⟨m,rfl,read.2 ?_ (by decide +kernel)⟩
    intro i
    by_cases first : i = 0
    · subst first
      rintro (aimed | ⟨ref,listed,_⟩)
      · cases aimed
      · cases listed
    · simp [after,turn,opened,first,Cycle.Holds]
  | _ => simp [stage,Stage.manifest] at finished

end Scrinium.MidFlight
