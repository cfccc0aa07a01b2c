import Scrinium.ManifestCodec
import Scrinium.IndexCompleteness

/-! Which manifest files the open-time reconciliation removes, with the real decoder in the ingester. -/
namespace Scrinium.ManifestRemoval
open Keyed Domain Layout LocalFs SqliteIndex Cas Orphanscan Reconciliation IndexCompleteness ManifestCodec Trace List

def decoding (e : Engine) (lib : Library) (keys : KeyProvider) : Engine :=
  {e with decodeManifest := decodeEncrypted lib keys}

section

theorem hexKeyHonest (text : String) : Honest (hexKey text) := by
  unfold hexKey
  split
  · exact honestOk _
  split
  · exact honestOk _
  · intro same
    cases same

theorem notNullHonest (key : Option Key) : Honest (notNull key) := by
  cases key with
  | some raw => exact honestOk raw
  | none =>
    intro same
    cases same

theorem foldlMHonest {α β : Type} {f} (each : ∀ acc item, Honest (f acc item)) (items : List α)
    (start : β) : Honest (items.foldlM f start) := by
  induction items generalizing start with
  | nil => exact honestOk start
  | cons item rest ih =>
    rw [foldlM_cons]
    exact honestBind (each start item) fun next _ => ih next

theorem rowHonest (tx : Index) (m : Manifest) (now : Instant) : Honest (insertManifestRow tx m now) := by
  unfold insertManifestRow
  refine honestBind (hexKeyHonest _) fun digest _ => honestBind (hexKeyHonest _) fun _ _ => ?_
  exact honestBind (notNullHonest digest) fun _ _ => honestOk _

theorem indexBlobHonest (tx : Index) (m : Manifest) (path : String) (now : Instant) :
    Honest (indexBlobManifest tx m path now) := by
  unfold indexBlobManifest
  split
  · exact rowHonest tx m now
  split
  · exact honestOther _
  refine honestBind (foldlMHonest (fun blobs ref => ?_) _ _) fun _ _ => honestBind (rowHonest _ m now) fun _ _ =>
    honestBind (foldlMHonest (fun edges ref => ?_) _ _) fun _ _ => honestOk _
  · unfold registerBlob
    refine honestBind (hexKeyHonest _) fun bound _ => honestBind (hexKeyHonest _) fun content _ => ?_
    refine honestBind (notNullHonest bound) fun key _ => honestBind (notNullHonest content) fun _ _ => ?_
    simp only [memInsertNew,if_true]
    exact honestOk _
  · unfold linkManifestToBlob
    refine honestBind (hexKeyHonest _) fun digest _ => honestBind (hexKeyHonest _) fun key _ => ?_
    exact honestBind (notNullHonest digest) fun _ _ => honestBind (notNullHonest key) fun _ _ => honestOk _

variable {indexes m key err}

theorem indexersError (bound : bindKey m.digest = .ok key) (tx : Index) :
    applyIndexers indexes tx m = .error err ↔ projectionsOf indexes m = .error err := by
  unfold applyIndexers projectionsOf
  induction indexes generalizing tx with
  | nil => simp [pure,Except.pure]
  | cons ci rest ih =>
    rw [foldlM_cons,mapM_cons]
    cases indexed : ci.index m with
    | error other => simp [applyIndexer,indexed,bind,Except.bind]
    | ok cells =>
      have one : applyIndexer m tx ci = .ok {tx with projExt := projectRows key [(ci.name,cells)] tx.projExt} := by
        simp only [applyIndexer,indexed,upsertProjectionsBound bound,bind,Except.bind]
        rfl
      rw [one]
      exact (ih _).trans bindPureError.symm

theorem notifyError (bound : bindKey m.digest = .ok key) (tx : Index) :
    notifyIndexed indexes tx m = .error err ↔ observed indexes m = .error err := by
  unfold notifyIndexed observed
  split
  · simp [pure,Except.pure]
  rw [bindError,bindError,indexersError bound]
  refine or_congr Iff.rfl ⟨?_,?_⟩
  · rintro ⟨_,applied,told⟩
    obtain ⟨projections,indexed,_⟩ := (applyIndexersOk bound).mp applied
    exact ⟨projections,indexed,bindPureError.mpr (bindPureError.mp told)⟩
  · rintro ⟨projections,indexed,told⟩
    exact ⟨_,(applyIndexersOk bound).mpr ⟨projections,indexed,rfl⟩,
      bindPureError.mpr (bindPureError.mp told)⟩

theorem indexCorrupted {tx path now} :
    indexManifest indexes tx m path now = .error .corruptedManifest ↔
      (∃ keys, blobKeys m = .ok keys) ∧ observed indexes m = .error .corruptedManifest := by
  unfold indexManifest
  rw [bindError]
  constructor
  · rintro (early | ⟨tx1,stored,late⟩)
    · exact absurd early (indexBlobHonest tx m path now)
    obtain ⟨keys,bound,_⟩ := indexBlobManifestOk.mp stored
    have digest := blobKeysDigest bound
    rw [linkHandlesBound digest,digest] at late
    rcases bindError.mp late with linked | ⟨handles,_,late⟩
    · cases linked
    · rcases bindError.mp late with refused | ⟨_,_,last⟩
      · exact ⟨⟨keys,bound⟩,(notifyError digest _).mp refused⟩
      · cases last
  · rintro ⟨⟨keys,bound⟩,refused⟩
    have digest := blobKeysDigest bound
    refine .inr ⟨_,indexBlobManifestOk.mpr ⟨keys,bound,rfl⟩,?_⟩
    rw [linkHandlesBound digest]
    exact bindError.mpr (.inr ⟨_,rfl,bindError.mpr (.inl ((notifyError digest _).mpr refused))⟩)

end

section
variable {f ing p path other}
def Removes (f : Faults) (ing : Ingester) (p : Pass) (path : String) : Prop :=
  ∃ digest key, digestFromManifestPath path = .ok digest ∧ f.probe digest = none ∧ bindKey digest = .ok key ∧
    key ∉ p.state.index.manifests ∧ ing p.state.fs p.state.index digest = .error .corruptedManifest ∧ f.remove path = none

theorem examineRemoves (removes : Removes f ing p path) :
    (examine f (some ing) p path).state = {p.state with fs := remove p.state.fs path} := by
  obtain ⟨digest,key,parsed,sound,bound,new,fragment,gone⟩ := removes
  rw [examineUnknown parsed sound bound new,fragment]
  simp only [gone]

theorem examineKeeps (keeps : ¬ Removes f ing p path) : (examine f (some ing) p path).state.fs = p.state.fs := by
  generalize reached : examine f (some ing) p path = p'
  cases examined reached with
  | noted err => rfl
  | known => rfl
  | ingested => rfl
  | removed parsed sound bound spelled new fragment gone =>
    exact absurd ⟨_,_,parsed,sound,bound,new,fragment,gone⟩ keeps

theorem examineAway (away : other ≠ path) : (examine f (some ing) p path).state.fs.lookup other = p.state.fs.lookup other := by
  by_cases removes : Removes f ing p path
  · rw [examineRemoves removes]
    exact (lookupErase _ _ _).trans (if_neg away)
  · rw [examineKeeps removes]

theorem foldAway {paths : List String} (away : other ∉ paths) :
    (paths.foldl (examine f (some ing)) p).state.fs.lookup other = p.state.fs.lookup other := by
  induction paths generalizing p with
  | nil => rfl
  | cons path rest ih =>
    rw [foldl_cons,ih fun mem => away (mem_cons_of_mem path mem)]
    exact examineAway fun same => away (same ▸ mem_cons_self)

end

variable {e} {s : State}

section
variable {f now digest place path key} {p : Pass}
def CalledFragment (e : Engine) (f : Faults) (now : Instant) (s : State) (digest : String) : Prop :=
  storeIngester e f now s.fs s.index digest = .error .corruptedManifest

structure Names (digest place : String) (key : Key) : Prop where
  shape : validateRefShape digest = .ok ()
  built : manifestPath digest = .ok place
  bound : bindKey digest = .ok key
  spelled : hexOut key = digest

theorem placeParses (names : Names digest place key) : digestFromManifestPath place = .ok digest :=
  manifestPathRef names.shape names.built

theorem calledSame (names : Names digest place key) {t} (same : t.fs.lookup place = s.fs.lookup place) :
    CalledFragment e f now t digest ↔ CalledFragment e f now s digest := by
  have verdicts : verdict (storeIngester e f now t.fs t.index digest) = verdict (storeIngester e f now s.fs s.index digest) :=
    verdictAt names.built same t.index s.index
  unfold CalledFragment
  rw [← verdictError,verdicts,verdictError]

theorem soundLater (names : Names digest place key) (sound : ¬ CalledFragment e f now p.state digest) (paths : List String) :
    ¬ CalledFragment e f now (paths.foldl (examine f (some (storeIngester e f now))) p).state digest ∧
      (paths.foldl (examine f (some (storeIngester e f now))) p).state.fs.lookup place = p.state.fs.lookup place := by
  induction paths generalizing p with
  | nil => exact ⟨sound,rfl⟩
  | cons path rest ih =>
    have same : (examine f (some (storeIngester e f now)) p path).state.fs.lookup place = p.state.fs.lookup place := by
      by_cases here : place = path
      · subst here
        rw [examineKeeps]
        rintro ⟨other,_,parsed,_,_,_,fragment,_⟩
        cases okSame parsed (placeParses names)
        exact sound fragment
      · exact examineAway here
    obtain ⟨later,stays⟩ := ih (mt (calledSame names same).mp sound)
    exact ⟨later,stays.trans same⟩

def Stuck (e : Engine) (f : Faults) (now : Instant) (digest : String) (key : Key) (p : Pass) : Prop :=
  key ∉ p.state.index.manifests ∧ verdict (storeIngester e f now p.state.fs p.state.index digest) ≠ .ok ()

theorem missingRefused (names : Names digest place key) (gone : p.state.fs.lookup place = none) :
    storeIngester e f now p.state.fs p.state.index digest = .error ((f.ingest digest).getD .artifactNotFound) := by
  unfold storeIngester
  split
  · next err failed => rw [failed]; rfl
  · next clean =>
    simp only [ingestManifest,loadManifestByDigest,names.built,readManifestFile,gone,clean,bind,Except.bind]
    rfl

theorem calledStuck (called : CalledFragment e f now p.state digest) (unknown : key ∉ p.state.index.manifests) :
    Stuck e f now digest key p := by
  refine ⟨unknown,?_⟩
  rw [called]
  intro same
  cases same

theorem stuckExamine (names : Names digest place key) (stuck : Stuck e f now digest key p) (path : String) :
    Stuck e f now digest key (examine f (some (storeIngester e f now)) p path) := by
  obtain ⟨unknown,refused⟩ := stuck
  generalize reached : examine f (some (storeIngester e f now)) p path = p'
  cases examined reached with
  | noted err => exact ⟨unknown,refused⟩
  | known => exact ⟨unknown,refused⟩
  | @ingested other row tx parsed sound bound spelled new read =>
    refine ⟨fun mem => ?_,?_⟩
    · rcases (ingestRows bound read).mp mem with rfl | earlier
      · cases spelled.symm.trans names.spelled
        rw [read] at refused
        exact refused rfl
      · exact unknown earlier
    · rw [verdictAt names.built rfl tx p.state.index]
      exact refused
  | @removed other row parsed sound bound spelled new fragment gone =>
    refine ⟨unknown,?_⟩
    by_cases here : place = path
    · have erased : (remove p.state.fs path).lookup place = none := (lookupErase _ _ _).trans (if_pos here)
      have refusal : storeIngester e f now (remove p.state.fs path) p.state.index digest =
          .error ((f.ingest digest).getD .artifactNotFound) :=
        @missingRefused e f now digest place key ⟨{p.state with fs := remove p.state.fs path},p.report⟩ names erased
      rw [refusal]
      intro same
      cases same
    · have away : (remove p.state.fs path).lookup place = p.state.fs.lookup place := (lookupErase _ _ _).trans (if_neg here)
      rw [verdictAt names.built away p.state.index p.state.index]
      exact refused

theorem stuckFold (names : Names digest place key) (stuck : Stuck e f now digest key p) (paths : List String) :
    Stuck e f now digest key (paths.foldl (examine f (some (storeIngester e f now))) p) := by
  induction paths generalizing p with
  | nil => exact stuck
  | cons path rest ih => exact ih (stuckExamine names stuck path)

theorem foldPinned (pinned : f.remove place ≠ none) (paths : List String) :
    (paths.foldl (examine f (some (storeIngester e f now))) p).state.fs.lookup place = p.state.fs.lookup place := by
  induction paths generalizing p with
  | nil => rfl
  | cons path rest ih =>
    rw [foldl_cons,ih]
    by_cases here : place = path
    · subst here
      rw [examineKeeps]
      rintro ⟨_,_,_,_,_,_,_,gone⟩
      exact pinned gone
    · exact examineAway here

theorem fragmentGone (names : Names digest place key) (sound : f.probe digest = none) (gone : f.remove place = none)
    (called : CalledFragment e f now p.state digest) (unknown : key ∉ p.state.index.manifests) {paths : List String}
    (reached : place ∈ paths) :
    (paths.foldl (examine f (some (storeIngester e f now))) p).state.fs.lookup place = none := by
  obtain ⟨pre,post,rfl,first⟩ := eq_append_cons_of_mem reached
  rw [foldl_append,foldl_cons]
  generalize earlier : pre.foldl (examine f (some (storeIngester e f now))) p = before
  have same : before.state.fs.lookup place = p.state.fs.lookup place := earlier ▸ foldAway first
  have stuck : Stuck e f now digest key before := earlier ▸ stuckFold names (calledStuck called unknown) pre
  have removes : Removes f (storeIngester e f now) before place :=
    ⟨digest,key,placeParses names,sound,names.bound,stuck.1,(calledSame names same).mpr called,gone⟩
  have erased : (examine f (some (storeIngester e f now)) before place).state.fs.lookup place = none := by
    rw [examineRemoves removes]
    exact (lookupErase _ _ _).trans (if_pos rfl)
  cases later : (post.foldl (examine f (some (storeIngester e f now)))
      (examine f (some (storeIngester e f now)) before place)).state.fs.lookup place with
  | none => rfl
  | some file => exact absurd ((foldProgress e f now post _).files place file later) (by rw [erased]; intro same; cases same)

theorem refusedCalled (refused : f.ingest digest = some .corruptedManifest) : CalledFragment e f now s digest := by
  simp only [CalledFragment,storeIngester,refused]

theorem calledAfter (names : Names digest place key) (sound : f.probe digest = none)
    (unknown : key ∉ p.state.index.manifests) (paths : List String) :
    CalledFragment e f now (paths.foldl (examine f (some (storeIngester e f now))) p).state digest ↔
      CalledFragment e f now p.state digest ∧
        (place ∈ paths → f.remove place ≠ none ∨ f.ingest digest = some .corruptedManifest) := by
  generalize after : paths.foldl (examine f (some (storeIngester e f now))) p = p'
  constructor
  · intro later
    have called : CalledFragment e f now p.state digest := by
      by_contra other
      exact (soundLater names other paths).1 (after ▸ later)
    refine ⟨called,fun reached => or_iff_not_imp_left.mpr fun removed => ?_⟩
    have gone : p'.state.fs.lookup place = none :=
      after ▸ fragmentGone names sound (not_not.mp removed) called unknown reached
    rw [CalledFragment,missingRefused names gone] at later
    cases ingest : f.ingest digest with
    | none =>
      rw [ingest] at later
      cases later
    | some err =>
      rw [ingest] at later
      exact congrArg some (Except.error.inj later)
  · rintro ⟨called,pinned⟩
    by_cases reached : place ∈ paths
    · rcases pinned reached with kept | refused
      · exact (calledSame names (after ▸ foldPinned kept paths)).mpr called
      · exact refusedCalled refused
    · exact (calledSame names (after ▸ foldAway reached)).mpr called

end

variable {lib keys}

section
variable {f now digest place}
def HeldAt (fs : Fs) (digest : String) (raw : Bytes) : Prop :=
  ∃ place file, manifestPath digest = .ok place ∧ fs.lookup place = some file ∧ file.data = raw ∧
    raw.length ≤ maxManifestSize

theorem shardHonest (ref : String) : Honest (shardOf ref) := by
  unfold shardOf
  split
  · exact honestOther _
  · exact honestOk _

theorem manifestPathHonest (digest : String) : Honest (manifestPath digest) := by
  unfold manifestPath
  split
  · exact honestOther _
  · exact honestBind (shardHonest digest) fun _ _ => honestOk _

theorem ingestAddrHonest (m : Manifest) : Honest (ingestAddr e m) := by
  unfold ingestAddr blobPath
  split
  · exact honestOk _
  split
  · exact honestOk _
  · exact honestBind (shardHonest _) fun _ _ => honestOk _
  · exact honestBind (shardHonest _) fun _ _ => honestOk _
  · exact honestOther _

variable {fs}

theorem readIff {path raw} :
    readManifestFile fs path = .ok raw ↔
      ∃ file, fs.lookup path = some file ∧ file.data = raw ∧ raw.length ≤ maxManifestSize := by
  unfold readManifestFile
  cases found : fs.lookup path with
  | none => simp
  | some file =>
    by_cases large : maxManifestSize < file.data.length
    · simp only [if_pos large,Option.some.injEq,exists_eq_left']
      refine ⟨fun same => (by cases same),?_⟩
      rintro ⟨rfl,small⟩
      exact absurd small (Nat.not_le.mpr large)
    · simp only [if_neg large,Option.some.injEq,exists_eq_left',Except.ok.injEq]
      refine ⟨fun same => ⟨same,same ▸ Nat.not_lt.mp large⟩,fun both => both.1⟩

theorem readHonest (fs : Fs) (path : String) : Honest (readManifestFile fs path) := by
  unfold readManifestFile
  split
  · split
    · intro same
      cases same
    · exact honestOk _
  · intro same
    cases same

theorem loadedIff {m} :
    loadManifestByDigest e fs digest = .ok m ↔
      ∃ raw m0, HeldAt fs digest raw ∧ e.hasher.hex raw = digest ∧ e.decodeManifest raw = .ok m0 ∧
        m = {m0 with digest := digest} := by
  constructor
  · intro ok
    obtain ⟨path,built,rest⟩ := bindOk.mp ok
    obtain ⟨raw,read,rest⟩ := bindOk.mp rest
    obtain ⟨_,verified,rest⟩ := bindOk.mp rest
    obtain ⟨m0,decoded,last⟩ := bindOk.mp rest
    obtain ⟨file,found,same,small⟩ := readIff.mp read
    refine ⟨raw,m0,⟨path,file,built,found,same,small⟩,?_,decoded,(Except.ok.inj last).symm⟩
    unfold Cas.verifyManifestDigest at verified
    split at verified
    · next hashes => exact hashes
    · cases verified
  · rintro ⟨raw,m0,⟨path,file,built,found,same,small⟩,hashes,decoded,rfl⟩
    refine bindOk.mpr ⟨path,built,bindOk.mpr ⟨raw,readIff.mpr ⟨file,found,same,small⟩,?_⟩⟩
    exact bindOk.mpr ⟨(),if_pos hashes,bindOk.mpr ⟨m0,decoded,rfl⟩⟩

theorem loadCorrupted :
    loadManifestByDigest e fs digest = .error .corruptedManifest ↔
      ∃ raw, HeldAt fs digest raw ∧
        (e.hasher.hex raw ≠ digest ∨ e.hasher.hex raw = digest ∧ e.decodeManifest raw = .error .corruptedManifest) := by
  constructor
  · intro failed
    rcases bindError.mp failed with early | ⟨path,built,failed⟩
    · exact absurd early (manifestPathHonest digest)
    rcases bindError.mp failed with early | ⟨raw,read,failed⟩
    · exact absurd early (readHonest fs path)
    obtain ⟨file,found,same,small⟩ := readIff.mp read
    refine ⟨raw,⟨path,file,built,found,same,small⟩,?_⟩
    by_cases hashes : e.hasher.hex raw = digest
    · refine .inr ⟨hashes,?_⟩
      rw [Cas.verifyManifestDigest,if_pos hashes] at failed
      exact bindPureError.mp failed
    · exact .inl hashes
  · rintro ⟨raw,⟨path,file,built,found,same,small⟩,cause⟩
    refine bindError.mpr (.inr ⟨path,built,bindError.mpr (.inr ⟨raw,readIff.mpr ⟨file,found,same,small⟩,?_⟩)⟩)
    rcases cause with differs | ⟨hashes,undecoded⟩
    · exact bindError.mpr (.inl (if_neg differs))
    · exact bindError.mpr (.inr ⟨(),if_pos hashes,bindError.mpr (.inl undecoded)⟩)

/-- Why the ingester answers for a digest as if its file were a fragment: something around it says so, or the file at
its place does not hash to it, is misread, or is refused so by an extension. -/
inductive Condemned (e : Engine) (lib : Library) (keys : KeyProvider) (f : Faults) (s : State) (digest : String) : Prop where
  | surroundings (refused : f.ingest digest = some .corruptedManifest)
  | torn {raw} (read : f.ingest digest = none) (held : HeldAt s.fs digest raw) (differs : e.hasher.hex raw ≠ digest)
  | misread {raw} (read : f.ingest digest = none) (held : HeldAt s.fs digest raw) (hashes : e.hasher.hex raw = digest)
      (misread : Misread lib keys raw)
  | rejected {raw m addr refs} (read : f.ingest digest = none) (held : HeldAt s.fs digest raw)
      (hashes : e.hasher.hex raw = digest) (decoded : decodeEncrypted lib keys raw = .ok m)
      (address : ingestAddr e {m with digest := digest} = .ok addr) (bound : blobKeys {m with digest := digest} = .ok refs)
      (refused : observed e.indexes {m with digest := digest} = .error .corruptedManifest)

theorem calledIff : CalledFragment (decoding e lib keys) f now s digest ↔ Condemned e lib keys f s digest := by
  unfold CalledFragment storeIngester
  cases asked : f.ingest digest with
  | some err =>
    refine ⟨fun same => .surroundings (Except.error.inj same ▸ asked),fun condemned => ?_⟩
    cases condemned with
    | surroundings refused => exact congrArg Except.error (someSame asked refused)
    | torn read => rw [asked] at read; cases read
    | misread read => rw [asked] at read; cases read
    | rejected read => rw [asked] at read; cases read
  | none =>
    constructor
    · intro failed
      rcases bindError.mp failed with unread | ⟨m,loaded,failed⟩
      · obtain ⟨raw,held,differs | ⟨hashes,undecoded⟩⟩ := loadCorrupted.mp unread
        · exact .torn asked held differs
        · exact .misread asked held hashes (decodeCorrupted.mp undecoded).2
      · obtain ⟨raw,m0,held,hashes,decoded,rfl⟩ := loadedIff.mp loaded
        rcases bindError.mp failed with early | ⟨addr,address,failed⟩
        · exact absurd early (ingestAddrHonest _)
        · obtain ⟨⟨refs,bound⟩,refused⟩ := indexCorrupted.mp failed
          exact .rejected asked held hashes decoded address bound refused
    · intro condemned
      refine bindError.mpr ?_
      cases condemned with
      | surroundings refused => rw [asked] at refused; cases refused
      | torn read held differs => exact .inl (loadCorrupted.mpr ⟨_,held,.inl differs⟩)
      | misread read held hashes misread =>
        have small : _ ≤ maxManifestSize := held.choose_spec.choose_spec.2.2.2
        exact .inl (loadCorrupted.mpr ⟨_,held,.inr ⟨hashes,decodeCorrupted.mpr ⟨small,misread⟩⟩⟩)
      | rejected read held hashes decoded address bound refused =>
        refine .inr ⟨_,loadedIff.mpr ⟨_,_,held,hashes,decoded,rfl⟩,bindError.mpr (.inr ⟨_,address,?_⟩)⟩
        exact indexCorrupted.mpr ⟨⟨_,bound⟩,refused⟩

end

section
variable {f now}
variable {digest place path key}
structure WholeFile (e : Engine) (fs : Fs) (path digest : String) (file : File) : Prop where
  under : "manifests/".toList <+: path.toList
  named : lastSegment path = .ok digest
  found : fs.lookup path = some file
  hashes : e.hasher.hex file.data = digest

/-- The pass gets to the file of a digest without a row and its removal succeeds; a file at the digest's own place
that was visited before is still there, unless it is not even read. -/
def Reaches (f : Faults) (s : State) (path digest : String) : Prop :=
  ∃ key pre post, visited f s.fs = pre ++ path :: post ∧ digestFromManifestPath path = .ok digest ∧
    f.probe digest = none ∧ bindKey digest = .ok key ∧ key ∉ s.index.manifests ∧ f.remove path = none ∧
    ∀ place ∈ pre, manifestPath digest = .ok place → f.remove place ≠ none ∨ f.ingest digest = some .corruptedManifest

theorem parsedLast (parsed : digestFromManifestPath path = .ok digest) : lastSegment path = .ok digest := by
  obtain ⟨last,segment,rest⟩ := bindOk.mp parsed
  obtain ⟨_,_,same⟩ := bindOk.mp rest
  exact (Except.ok.inj same) ▸ segment

theorem namesOf (parsed : digestFromManifestPath path = .ok digest) (bound : bindKey digest = .ok key) :
    ∃ place, Names digest place key := by
  have shape := parsedShape parsed
  obtain ⟨_,same,spelled⟩ := keyOfShape shape (bindKeyOk.mp bound)
  cases same
  have named : digest ≠ "" := by
    rintro rfl
    cases shape
  have built : ∃ place, manifestPath digest = .ok place := by
    rw [manifestPath,if_neg named,shardOfRef shape]
    exact ⟨_,rfl⟩
  obtain ⟨place,built⟩ := built
  exact ⟨place,shape,built,bound,spelled⟩

theorem stagingOutside (under : "manifests/".toList <+: path.toList) : path ∉ listObjects s.fs stagingPrefix := by
  intro listed
  obtain ⟨other,joined⟩ := under
  have head := listedHead listed
  rw [← joined] at head
  cases head

theorem stagingKeeps (outside : path ∉ listObjects s.fs stagingPrefix) :
    (listWalk f (sweepStaging f) stagingPrefix (Pass.start s)).1.state.fs.lookup path = s.fs.lookup path := by
  unfold listWalk
  split
  · rfl
  · rw [walkFold]
    exact (stagingFrame _ (Pass.start s)).2 path fun mem => outside (( takeWhile_prefix _).subset mem)

theorem visitedNodup (f : Faults) (fs : Fs) : (visited f fs).Nodup := by
  unfold visited
  split
  · exact nodup_nil
  · exact (fs.nodupKeys.filter _).sublist (takeWhile_sublist _)

variable {pre post}

theorem visitedOnce (split : visited f s.fs = pre ++ path :: post) : path ∉ pre ∧ path ∉ post := by
  have nodup := visitedNodup f s.fs
  rw [split] at nodup
  obtain ⟨_,tail,apart⟩ := nodup_append.mp nodup
  exact ⟨fun mem => apart path mem path mem_cons_self rfl,(nodup_cons.mp tail).1⟩

theorem removesIff {p0} (swept : Swept s p0) (split : visited f s.fs = pre ++ path :: post)
    (named : lastSegment path = .ok digest) :
    Removes f (storeIngester (decoding e lib keys) f now)
        (pre.foldl (examine f (some (storeIngester (decoding e lib keys) f now))) p0) path ↔
      Reaches f s path digest ∧ Condemned e lib keys f s digest := by
  have here : ∀ {place : String} {key : Key}, Names digest place key →
      (CalledFragment (decoding e lib keys) f now p0.state digest ↔ Condemned e lib keys f s digest) := fun names =>
    (calledSame names (swept.files _ _ names.built)).trans calledIff
  constructor
  · rintro ⟨digest',key,parsed,sound,bound,new,fragment,gone⟩
    cases okSame (parsedLast parsed) named
    obtain ⟨place,names⟩ := namesOf parsed bound
    have unknown : key ∉ p0.state.index.manifests := fun mem =>
      new ((foldProgress (decoding e lib keys) f now pre p0).rows key mem)
    obtain ⟨called,pinned⟩ := (calledAfter names sound unknown pre).mp fragment
    refine ⟨⟨key,pre,post,split,parsed,sound,bound,swept.index ▸ unknown,gone,fun other mem built => ?_⟩,(here names).mp called⟩
    cases okSame built names.built
    exact pinned mem
  · rintro ⟨⟨key,pre',post',split',parsed,sound,bound,new,gone,pinned⟩,condemned⟩
    obtain ⟨place,names⟩ := namesOf parsed bound
    have called := (here names).mpr condemned
    have unknown : key ∉ p0.state.index.manifests := swept.index ▸ new
    obtain ⟨early,late⟩ := visitedOnce split
    obtain ⟨rfl,_,rfl⟩ := (append_cons_inj_of_notMem early late).mp (split.symm.trans split')
    refine ⟨digest,key,parsed,sound,bound,(stuckFold names (calledStuck called unknown) pre).1,?_,gone⟩
    exact (calledAfter names sound unknown pre).mpr ⟨called,fun mem => pinned place mem names.built⟩

/-- A file whose bytes hash to its name stays exactly unless the pass reaches it and its digest is condemned. -/
theorem wholeKeptExactly (e : Engine) (lib : Library) (keys : KeyProvider) (f : Faults) (now : Instant) (s : State)
    {file : File} (whole : WholeFile e s.fs path digest file) :
    (reconcile f (some (storeIngester (decoding e lib keys) f now)) s).1.state.fs.lookup path = some file ↔
      ¬ (Reaches f s path digest ∧ Condemned e lib keys f s digest) := by
  have kept : (listWalk f (sweepStaging f) stagingPrefix (Pass.start s)).1.state.fs.lookup path = some file :=
    (stagingKeeps (stagingOutside whole.under)).trans whole.found
  rw [reconcileFold]
  by_cases reached : path ∈ visited f s.fs
  · obtain ⟨pre,post,split⟩ := append_of_mem reached
    obtain ⟨first,last⟩ := visitedOnce split
    rw [← removesIff (stagingSwept f s) split whole.named,split,foldl_append,foldl_cons,foldAway last]
    generalize earlier : pre.foldl _ _ = before
    have there : before.state.fs.lookup path = some file := earlier ▸ (foldAway first).trans kept
    by_cases removes : Removes f (storeIngester (decoding e lib keys) f now) before path
    · rw [examineRemoves removes]
      have erased : (remove before.state.fs path).lookup path = none := (lookupErase _ _ _).trans (if_pos rfl)
      simp [removes,erased]
    · simp [removes,examineKeeps removes,there]
  · rw [foldAway reached,kept]
    refine iff_of_true rfl ?_
    rintro ⟨⟨_,pre,post,split,_⟩,_⟩
    exact reached (split ▸ mem_append_right pre mem_cons_self)

def bareExt : Bytes := magicJSON ++ [0x01,0x00,0x7b,0x7d]

def bareLibrary : Library :=
  { parseBody := fun body => .ok
      { ext := body, inlineBlob := "", usr := [], artifactID := "a", blobRefs := [], contentHash := "", createdAt := ""
        handleRefs := [], hashAlgo := "", identityNonce := "", blobStorage := "Inline", originalSize := some 0
        pipeline := [], retentionUntil := "", schemaVersion := 1, sessionID := "" }
    parseText := fun raw => if raw.head? = some 0x22 then some "" else none
    base64 := fun _ => some [], parseTime := fun _ => none, validText := fun _ => true
    openBox := fun _ _ _ _ => none }

def bareLocation : State := ⟨put ∅ "manifests/00/00/00000053433101007b7d" bareExt 0,Index.empty⟩

theorem bareWhole : WholeFile Readback.sampleEngine bareLocation.fs "manifests/00/00/00000053433101007b7d"
    "00000053433101007b7d" ⟨bareExt,0,0⟩ :=
  ⟨by decide +kernel,by decide +kernel,by decide +kernel,by decide +kernel⟩

theorem bareExtRemoved :
    WholeFile Readback.sampleEngine bareLocation.fs "manifests/00/00/00000053433101007b7d" "00000053433101007b7d"
      ⟨bareExt,0,0⟩ ∧
    (reconcile .none (some (storeIngester (decoding Readback.sampleEngine bareLibrary (some fun _ => .ok [[1]])) .none 0))
      bareLocation).1.state.fs.lookup "manifests/00/00/00000053433101007b7d" = none :=
  ⟨bareWhole,by decide +kernel⟩

theorem bareExtKept :
    WholeFile Readback.sampleEngine bareLocation.fs "manifests/00/00/00000053433101007b7d" "00000053433101007b7d"
      ⟨bareExt,0,0⟩ ∧
    (reconcile .none (some (storeIngester (decoding Readback.sampleEngine bareLibrary none) .none 0))
      bareLocation).1.state.fs.lookup "manifests/00/00/00000053433101007b7d" = some ⟨bareExt,0,0⟩ := by
  refine ⟨bareWhole,(wholeKeptExactly Readback.sampleEngine bareLibrary none .none 0 bareLocation bareWhole).mpr ?_⟩
  rintro ⟨_,condemned⟩
  have unread : verdict (storeIngester (decoding Readback.sampleEngine bareLibrary none) .none 0 bareLocation.fs
      bareLocation.index "00000053433101007b7d") ≠ .error .corruptedManifest := by decide +kernel
  exact unread (verdictError.mpr (calledIff.mpr condemned))

end

end Scrinium.ManifestRemoval
