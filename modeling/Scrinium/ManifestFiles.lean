import Scrinium.ChangeSequence
import Scrinium.ManifestEncode
import Scrinium.Reconciliation
import Scrinium.StoreRuns

/-! Manifest rows and manifest files over runs of a store. A Put writes the file before the row, a Delete removes it
before the row. -/
namespace Scrinium.ManifestFiles
open List hiding after
open Keyed Domain Layout LocalFs SqliteIndex Cas Gc StoreRuns Reconciliation Trace
open ManifestCodec (carried)

/-- What a manifest file that decodes gives back (package artifact): times in whole seconds, documents that may have been
compacted, neither name nor key id. No handle is empty. -/
structure Codec (e : Engine) : Prop where
  carries : ∀ {m raw d}, e.encodeManifest m = .ok raw → e.decodeManifest raw = .ok d → ∃ ext usr, d = carried m ext usr
  named : ∀ contentHash nonce, e.handleOf contentHash nonce ≠ ""

structure Filed (e : Engine) (fs : Fs) (key : Key) (row : ManifestRow) (m : Manifest) : Prop where
  file : ∃ path file, manifestPath (hexOut key) = .ok path ∧ fs.lookup path = some file ∧
    file.data.length ≤ maxManifestSize ∧ e.decodeManifest file.data = .ok m ∧ e.hasher.sum file.data = key
  handle : row.artifactID = some m.artifactID
  named : m.artifactID ≠ ""
  session : row.sessionID = m.sessionID

def Stored (e : Engine) (s : State) : Prop :=
  Sequenced s.index ∧ ∀ key row, s.index.manifests.lookup key = some row → ∃ m, Filed e s.fs key row m

theorem storedEmpty (e : Engine) : Stored e emptyStore :=
  ⟨sequencedEmpty,fun key row found => by simp [emptyStore,Index.empty] at found⟩

variable {e : Engine} {s key row m}

section

def read (key : Key) (m : Manifest) : Manifest := {m with digest := hexOut key}

variable {fs}

theorem loadFiled (filed : Filed e fs key row m) : loadManifestByDigest e fs (hexOut key) = .ok (read key m) := by
  obtain ⟨path,file,place,found,fits,decoded,hash⟩ := filed.file
  have small : ¬ maxManifestSize < file.data.length := Nat.not_lt.mpr fits
  have spelled : e.hasher.hex file.data = hexOut key := by rw [← hash]; rfl
  simp only [loadManifestByDigest,place,readManifestFile,found,small,verifyManifestDigest,spelled,
    decoded,bind,Except.bind,if_false,if_true]
  rfl

theorem loadNewest {id}
    (newest : NewestRow s.index id key row)
    (distinct : Stamped.Distinct ManifestRow.csn s.index.manifests) (filed : Filed e s.fs key row m) :
    load e s id = .ok (read key m) := by
  have same : id = m.artifactID := someSame newest.member filed.handle
  have resolved : resolveManifestDigest s.index id = some (hexOut key) := by
    cases found : resolveManifestDigest s.index id with
    | none => exact absurd newest.member (resolvesNone.mp found key row newest.found)
    | some digest =>
      obtain ⟨other,row',rfl,top⟩ := resolvesNewest found
      rw [Stamped.newestUnique distinct top newest]
  have named : id ≠ "" := same ▸ filed.named
  unfold load
  rw [if_neg named,resolved]
  simp only [loadFiled filed,bind,Except.bind,pure,Except.pure,read,← same]

theorem filedUnique {row' m'} (filed : Filed e fs key row m) (filed' : Filed e fs key row' m') : m = m' := by
  obtain ⟨path,file,laid,found,_,decoded,_⟩ := filed.file
  obtain ⟨path',file',laid',found',_,decoded',_⟩ := filed'.file
  cases okSame laid laid'
  cases someSame found found'
  exact okSame decoded decoded'

end

variable {s' cfg call path raw}

section
variable {blob}
theorem manifestPathKey {a b} (first : manifestPath (hexOut a) = .ok path) (second : manifestPath (hexOut b) = .ok path) : a = b :=
  HexText.encodeInjective (manifestPathInjective first second)

/- The manifest a Put assembles, with the bytes it is about to write. -/
def offered (e : Engine) (cfg : StoreConfig) (s : State) (call : PutCall) : Option (Manifest × Bytes) :=
  match (materialize e cfg s call).2 with
  | .error _ => none
  | .ok blob => (assembleManifest e cfg call blob).toOption

structure Wrote (e : Engine) (cfg : StoreConfig) (s : State) (call : PutCall) (s' : State) (m : Manifest) (raw : Bytes)
    (place : String) : Prop where
  offers : offered e cfg s call = some (read (e.hasher.sum raw) m,raw)
  blank : m.digest = ""
  encoded : e.encodeManifest m = .ok raw
  handle : ∃ contentHash nonce, m.artifactID = e.handleOf contentHash nonce
  session : m.sessionID = call.sessionID
  dates : m.createdAt = some call.now ∧ m.retentionUntil = call.retentionUntil
  layout : m.layout ≠ .unset
  binds : ∃ keys, blobKeys (read (e.hasher.sum raw) m) = .ok keys
  path : manifestPath (hexOut (e.hasher.sum raw)) = .ok place
  files : ∀ path, path.toList.head? = some 'm' →
    s'.fs.lookup path = if path = place then some ⟨raw,call.now,call.now⟩ else s.fs.lookup path

theorem placedManifests (placed : Placed e cfg s call s' blob) (manifest : path.toList.head? = some 'm') :
    s'.fs.lookup path = s.fs.lookup path := by
  have notStaging : path ≠ stagingPath call.stagingID := headsApart manifest (stagingHead _) (by decide)
  cases placed with
  | inline => rfl
  | shared _ output stages existing addr built hit resolved index files => exact files path notStaging
  | fresh _ output stages final built miss place index stored files =>
    exact files path (headsApart manifest (blobPathHead place) (by decide)) notStaging

theorem assembledWrote (assembled : assembleManifest e cfg call blob = .ok (m,raw)) :
    ∃ m', m = read (e.hasher.sum raw) m' ∧ m'.digest = "" ∧ e.encodeManifest m' = .ok raw ∧
      (∃ contentHash nonce, m'.artifactID = e.handleOf contentHash nonce) ∧ m'.sessionID = call.sessionID ∧
      (m'.createdAt = some call.now ∧ m'.retentionUntil = call.retentionUntil) ∧ m'.layout ≠ .unset := by
  unfold assembleManifest at assembled
  obtain ⟨bytes,encoded,last⟩ := bindOk.mp assembled
  cases last
  refine ⟨_,rfl,rfl,encoded,⟨_,_,rfl⟩,rfl,⟨rfl,rfl⟩,?_⟩
  simp only
  split <;> nofun

theorem assembledBinds (placed : Placed e cfg s call s' blob)
    (assembled : assembleManifest e cfg call blob = .ok (m,raw)) : ∃ keys, blobKeys m = .ok keys := by
  unfold assembleManifest at assembled
  obtain ⟨bytes,encoded,last⟩ := bindOk.mp assembled
  cases last
  have named : ∀ {ref key}, bindKey ref = .ok key → ref ≠ "" := by
    rintro ref key bound rfl
    cases bound
  unfold blobKeys
  simp only [bindSum,bind,Except.bind]
  cases placed with
  | inline => exact ⟨_,rfl⟩
  | shared _ output stages existing addr built hit resolved index files =>
    obtain ⟨key,row,bound,_⟩ := resolveKey resolved
    have ref : bindKey existing = .ok key := by simp only [bindKey,bound,bind,Except.bind,notNull]
    simp [named ref,bindSum,ref,bind,Except.bind,pure,Except.pure]
  | fresh _ output stages final built miss place index stored files =>
    simp [named (bindSum e.hasher output),bindSum,bind,Except.bind,pure,Except.pure]

theorem putWrites {outcome} (h : Cas.put e cfg s call = (s',outcome)) :
    ((∀ path, path.toList.head? = some 'm' → s'.fs.lookup path = s.fs.lookup path) ∧ s'.index = s.index ∧
      ∃ err, outcome = .error err) ∨
    ∃ m raw place, Wrote e cfg s call s' m raw place ∧
      (s'.index = s.index ∧ (∃ err, outcome = .error err) ∧
        (∀ r, registration e.indexes (read (e.hasher.sum raw) m) ≠ .ok r) ∨
      ∃ addr r, registration e.indexes (read (e.hasher.sum raw) m) = .ok r ∧
        s'.index = register s.index (read (e.hasher.sum raw) m) addr call.now r ∧
        outcome = .ok (read (e.hasher.sum raw) m)) := by
  unfold Cas.put at h
  split at h
  · cases h
    exact .inl ⟨fun _ _ => rfl,rfl,_,rfl⟩
  split at h
  · next mid _ broken =>
    cases h
    refine .inl ⟨fun path manifest => (materializeFailed broken).2 path ?_,(materializeFailed broken).1,_,rfl⟩
    exact headsApart manifest (stagingHead _) (by decide)
  · next mid blob placed =>
    have placement := materializePlaced placed
    have unchanged : mid.index = s.index := placedIndex placement
    split at h
    · cases h
      exact .inl ⟨fun path manifest => placedManifests placement manifest,unchanged,_,rfl⟩
    next m raw assembled =>
    have binds := assembledBinds placement assembled
    have offers : offered e cfg s call = some (m,raw) := by
      rw [offered,placed]
      simp only [assembled]
      rfl
    obtain ⟨m',rfl,blank,encoded,handle,session,dates,layout⟩ := assembledWrote assembled
    have wrote : ∀ {final : State} {place}, manifestPath (hexOut (e.hasher.sum raw)) = .ok place →
        final.fs = LocalFs.put mid.fs place raw call.now → Wrote e cfg s call final m' raw place := fun laid files =>
      ⟨offers,blank,encoded,handle,session,dates,layout,binds,laid,fun path manifest => by
        rw [files,LocalFs.put,lookupInsert,placedManifests placement manifest]⟩
    split at h
    · next persisted =>
      cases h
      rcases persistCases persisted with ⟨rfl,_⟩ | ⟨place,laid,files,⟨index,_,refused⟩ | ⟨_,_,_,done⟩⟩
      · exact .inl ⟨fun path manifest => placedManifests placement manifest,unchanged,_,rfl⟩
      · exact .inr ⟨m',raw,place,wrote laid files,.inl ⟨index.trans unchanged,⟨_,rfl⟩,refused⟩⟩
      · cases done
    · next persisted =>
      cases h
      rcases persistCases persisted with ⟨_,_,stop⟩ | ⟨place,laid,files,⟨_,⟨_,stop⟩,_⟩ | ⟨r,possible,index,_⟩⟩
      · cases stop
      · cases stop
      · exact .inr ⟨m',raw,place,wrote laid files,.inr ⟨blob.addr,r,possible,by rw [index,unchanged],rfl⟩⟩

end

variable {place}

section
variable {id outcome now}
/- The place of the file is free or holds the same bytes. -/
def Apart (e : Engine) (fs : Fs) (raw : Bytes) : Prop :=
  ∀ place ∈ (manifestPath (hexOut (e.hasher.sum raw))).toOption, ∀ file ∈ fs.lookup place, file.data = raw

instance {fs : Fs} : Decidable (Apart e fs raw) :=
  inferInstanceAs (Decidable (∀ place ∈ (manifestPath (hexOut (e.hasher.sum raw))).toOption, _))

/-- A file the reader takes. -/
structure Legible (e : Engine) (fs : Fs) (raw : Bytes) : Prop where
  fits : raw.length ≤ maxManifestSize
  decodes : (e.decodeManifest raw).toOption.isSome
  apart : Apart e fs raw

instance {fs : Fs} : Decidable (Legible e fs raw) :=
  decidable_of_iff (_ ∧ _ ∧ _) ⟨fun ⟨fits,decodes,apart⟩ => ⟨fits,decodes,apart⟩,fun l => ⟨l.fits,l.decodes,l.apart⟩⟩

def PutsLegible (e : Engine) (s : State) : StoreOp → Prop
  | .put cfg call => ∀ made ∈ offered e cfg s call, Legible e s.fs made.2
  | .delete _ _ _ => True
  | .cycle _ _ _ _ => True

instance (op : StoreOp) : Decidable (PutsLegible e s op) :=
  match op with
  | .put cfg call => inferInstanceAs (Decidable (∀ made ∈ offered e cfg s call, Legible e s.fs made.2))
  | .delete _ _ _ => isTrue trivial
  | .cycle _ _ _ _ => isTrue trivial

section
variable (wrote : Wrote e cfg s call s' m raw place)
include wrote
theorem filedOver (apart : Apart e s.fs raw) {old} (filed : Filed e s.fs key row old) : Filed e s'.fs key row old := by
  obtain ⟨path,file,laid,found,fits,decoded,hash⟩ := filed.file
  have kept := wrote.files path (manifestPathHead laid)
  refine ⟨?_,filed.handle,filed.named,filed.session⟩
  by_cases here : path = place
  · subst here
    rw [if_pos rfl] at kept
    have same : e.hasher.sum raw = key := manifestPathKey wrote.path laid
    have data : file.data = raw := apart path (by rw [wrote.path]; rfl) file found
    exact ⟨path,_,laid,kept,data ▸ fits,data ▸ decoded,same⟩
  · rw [if_neg here] at kept
    exact ⟨path,file,laid,kept.trans found,fits,decoded,hash⟩

theorem filedNew (codec : Codec e) (legible : PutsLegible e s (.put cfg call)) : ∃ d ext usr, e.decodeManifest raw = .ok d ∧ d = carried m ext usr ∧
    ∀ {row : ManifestRow}, row.sessionID = m.sessionID → row.artifactID = some m.artifactID →
      Filed e s'.fs (e.hasher.sum raw) row d := by
  have taken := legible _ wrote.offers
  obtain ⟨d,decoded⟩ := okSome taken.decodes
  obtain ⟨ext,usr,rfl⟩ := codec.carries wrote.encoded decoded
  obtain ⟨contentHash,nonce,same⟩ := wrote.handle
  have written := (wrote.files place (manifestPathHead wrote.path)).trans (if_pos rfl)
  refine ⟨_,ext,usr,decoded,rfl,fun session handle => ⟨⟨place,_,wrote.path,written,taken.fits,decoded,rfl⟩,handle,?_,session⟩⟩
  exact same ▸ codec.named contentHash nonce

end

theorem legiblePut (legible : PutsLegible e s (.put cfg call)) : ∀ made ∈ offered e cfg s call, Apart e s.fs made.2 :=
  fun made offers => (legible made offers).apart

theorem filedPut (apart : ∀ made ∈ offered e cfg s call, Apart e s.fs made.2) (done : Cas.put e cfg s call = (s',outcome))
    (filed : Filed e s.fs key row m) : Filed e s'.fs key row m := by
  rcases putWrites done with ⟨files,_⟩ | ⟨m,raw,place,wrote,_⟩
  · obtain ⟨path,file,laid,held,rest⟩ := filed.file
    exact ⟨⟨path,file,laid,(files path (manifestPathHead laid)).trans held,rest⟩,filed.handle,filed.named,filed.session⟩
  · exact filedOver wrote (apart _ wrote.offers) filed

theorem putRow (codec : Codec e) (legible : PutsLegible e s (.put cfg call)) (done : Cas.put e cfg s call = (s',outcome))
    (found : s'.index.manifests.lookup key = some row) :
    (∃ old csn, s.index.manifests.lookup key = some old ∧ row = {old with csn := csn}) ∨
    ∃ m raw place addr r ext usr, Wrote e cfg s call s' m raw place ∧ key = e.hasher.sum raw ∧
      registration e.indexes (read key m) = .ok r ∧ s'.index = register s.index (read key m) addr call.now r ∧
      Filed e s'.fs key row (carried m ext usr) := by
  rcases putWrites done with ⟨_,index,_⟩ | ⟨m,raw,place,wrote,⟨index,_⟩ | ⟨addr,r,possible,index,_⟩⟩
  · exact .inl ⟨row,row.csn,index ▸ found,rfl⟩
  · exact .inl ⟨row,row.csn,index ▸ found,rfl⟩
  have digest : r.keys.digest = e.hasher.sum raw :=
    okSame (registrationDigest possible) (bindSum e.hasher raw)
  rw [index,registerLookup,digest] at found
  split at found
  · next here =>
    subst here
    cases held : s.index.manifests.lookup (e.hasher.sum raw) with
    | some old =>
      rw [held] at found
      cases found
      exact .inl ⟨old,s.index.csn + 1,rfl,rfl⟩
    | none =>
      rw [held] at found
      cases found
      obtain ⟨contentHash,nonce,same⟩ := wrote.handle
      have named : m.artifactID ≠ "" := same ▸ codec.named contentHash nonce
      obtain ⟨_,ext,usr,_,rfl,filed⟩ := filedNew wrote codec legible
      exact .inr ⟨m,raw,place,addr,r,ext,usr,wrote,rfl,possible,index,filed rfl (if_neg named)⟩
  · exact .inl ⟨row,row.csn,found,rfl⟩

theorem sequencedPut (seq : Sequenced s.index) (cfg : StoreConfig) (call : PutCall) :
    Sequenced (Cas.put e cfg s call).1.index := by
  rcases done : Cas.put e cfg s call with ⟨s',outcome⟩
  rcases putWrites done with ⟨_,index,_⟩ | ⟨m,raw,place,_,⟨index,_⟩ | ⟨addr,r,_,index,_⟩⟩
  · exact index ▸ seq
  · exact index ▸ seq
  · exact index ▸ sequencedRegister seq _ addr call.now r

theorem storedPut (codec : Codec e) (stored : Stored e s) {cfg call} (legible : PutsLegible e s (.put cfg call)) :
    Stored e (Cas.put e cfg s call).1 := by
  refine ⟨sequencedPut stored.1 cfg call,?_⟩
  rcases done : Cas.put e cfg s call with ⟨s',outcome⟩
  intro key row found
  rcases putRow codec legible done found with ⟨old,csn,held,rfl⟩ | ⟨_,_,_,_,_,_,_,_,_,_,_,filed⟩
  · obtain ⟨m,filed⟩ := stored.2 key old held
    have kept := filedPut (legiblePut legible) done filed
    exact ⟨m,kept.file,filed.handle,filed.named,filed.session⟩
  · exact ⟨_,filed⟩

structure Dropped (s s' : State) (id : String) (key : Key) (row : ManifestRow) (path : String) : Prop where
  newest : Stamped.Newest ManifestRow.artifactID ManifestRow.csn s.index.manifests id key row
  laid : manifestPath (hexOut key) = .ok path
  fs : s'.fs = remove s.fs path
  index : s'.index = markPrune (nextCSN (dropManifest s.index key))

theorem hexKeyPlaced (laid : manifestPath (hexOut key) = .ok path) : hexKey (hexOut key) = .ok (some key) := by
  refine hexKeyEncode fun empty => ?_
  subst empty
  cases laid

theorem deleteDropped (done : Cas.delete e cfg s id now = (s',.ok ())) :
    ∃ key row path, Dropped s s' id key row path := by
  rcases deleteCases done with ⟨_,_,refused⟩ | ⟨digest,path,resolved,laid,fs,⟨_,_,refused⟩ | ⟨dropped,_⟩⟩
  · cases refused
  · cases refused
  obtain ⟨key,row,rfl,newest⟩ := resolvesNewest resolved
  have bound := hexKeyPlaced laid
  refine ⟨key,row,path,newest,laid,fs,?_⟩
  rcases deleteManifestOk dropped with ⟨_,absent⟩ | ⟨other,same,_,index⟩
  · exact absurd (memLookup.mpr ⟨row,newest.found⟩) (absent key bound)
  · cases Option.some.inj (okSame bound same)
    exact index

def DeletesCommit (e : Engine) : Prop := ∀ tx key, ∃ tx', deleteManifest e.indexes tx (hexOut key) = .ok tx'

theorem deleteEnds (commit : DeletesCommit e) {outcome} (done : Cas.delete e cfg s id now = (s',outcome)) :
    s' = s ∧ (∃ err, outcome = .error err) ∨ outcome = .ok () ∧ ∃ key row path, Dropped s s' id key row path := by
  rcases deleteCases done with refused | ⟨digest,path,resolved,laid,fs,⟨index,err,stopped⟩ | ⟨_,ok⟩⟩
  · exact .inl refused
  · obtain ⟨key,row,rfl,_⟩ := resolvesNewest resolved
    obtain ⟨tx,commits⟩ := commit s.index key
    refine .inl ?_
    unfold Cas.delete at done
    split at done
    · cases done
      exact ⟨rfl,_,rfl⟩
    next digest' path' checked =>
    obtain ⟨m,loaded,rest⟩ := bindOk.mp checked
    obtain ⟨_,_,rest⟩ := bindOk.mp rest
    obtain ⟨_,_,last⟩ := bindOk.mp rest
    cases last
    have same : m.digest = hexOut key := Option.some.inj ((loadResolved loaded).1.symm.trans resolved)
    simp only [same,commits] at done
    cases done
    cases stopped
  · subst ok
    exact .inr ⟨rfl,deleteDropped done⟩

theorem droppedTable (d : Dropped s s' id key row path) : s'.index.manifests = s.index.manifests.erase key := by
  rw [d.index]
  rfl

theorem droppedLookup (d : Dropped s s' id key row path) (other : Key) :
    s'.index.manifests.lookup other = if other = key then none else s.index.manifests.lookup other := by
  rw [droppedTable d,lookupErase]

theorem droppedHeld {other row'} (d : Dropped s s' id key row path) (found : s'.index.manifests.lookup other = some row') :
    other ≠ key ∧ s.index.manifests.lookup other = some row' :=
  lookupErased _ (droppedTable d ▸ found)

theorem filedDropped {other row'} (d : Dropped s s' id key row path) (away : other ≠ key)
    (filed : Filed e s.fs other row' m) : Filed e s'.fs other row' m := by
  obtain ⟨place,file,laid,held,rest⟩ := filed.file
  refine ⟨⟨place,file,laid,?_,rest⟩,filed.handle,filed.named,filed.session⟩
  rw [d.fs,remove,lookupErase,if_neg,held]
  rintro rfl
  exact away (manifestPathKey laid d.laid)

theorem storedDropped (stored : Stored e s) (d : Dropped s s' id key row path) : Stored e s' := by
  refine ⟨d.index ▸ sequencedDrop stored.1 key,fun other row' found => ?_⟩
  obtain ⟨away,found⟩ := droppedHeld d found
  obtain ⟨m,filed⟩ := stored.2 other row' found
  exact ⟨m,filedDropped d away filed⟩

end

theorem markerHead {c} (head : place.toList.head? = some c) : (marker place).toList.head? = some c := by
  cases chars : place.toList with
  | nil => rw [chars] at head; cases head
  | cons first rest =>
    rw [chars] at head
    simp [marker,String.toList_append,chars] at head ⊢
    exact head

theorem manifestAway (manifest : path.toList.head? = some 'm') (blob : place.toList.head? = some 'b') :
    path ≠ place ∧ path ≠ marker place :=
  ⟨headsApart manifest blob (by decide),headsApart manifest (markerHead blob) (by decide)⟩

theorem sweepManifests {topology grace now} (refs : List String) {w}
    (placed : RowsPlaced topology w.state.index) (manifest : path.toList.head? = some 'm') :
    (refs.foldl (sweepRef grace now) w).state.fs.lookup path = w.state.fs.lookup path := by
  induction refs generalizing w with
  | nil => rfl
  | cons ref rest ih =>
    rw [foldl_cons,ih (placedSweepRef grace now ref placed)]
    rcases sweepRefCases grace now w ref with same | ⟨_,row,found,files,_⟩
    · rw [same]
    · rw [files,removeTombstone,lookupErase,if_neg (manifestAway manifest (rowHead placed found)).2]

theorem cycleManifests (placed : RowsPlaced e.topology s.index) (complete : Bool) (grace : Nat) (tMark tSweep : Instant)
    (manifest : path.toList.head? = some 'm') :
    (runCycle complete grace tMark tSweep s).state.fs.lookup path = s.fs.lookup path := by
  have marked : (mark s tMark).fs.lookup path = s.fs.lookup path := by
    rw [markPaths placed]
    refine marksFrame tMark s.fs fun place mem => manifestAway manifest ?_
    obtain ⟨key,row,found,_,rfl⟩ := orphanPath.mp mem
    exact rowHead placed found
  have reconciled : (reconcileMedia complete (mark s tMark) tMark).fs.lookup path = (mark s tMark).fs.lookup path := by
    unfold reconcileMedia
    split
    · exact unknownsFrame tMark _ fun place mem => manifestAway manifest (listedHead (mem_filter.mp mem).1)
    · rfl
  have rows : RowsPlaced e.topology (reconcileMedia complete (mark s tMark) tMark).index := by
    rw [reconcileIndex]
    exact placed
  unfold runCycle sweep
  rw [sweepManifests _ rows manifest]
  exact reconciled.trans marked

def FilesKnown (s : State) : Prop :=
  ∀ path ∈ s.fs, path.toList.head? = some 'm' → ∃ key ∈ s.index.manifests, manifestPath (hexOut key) = .ok path

/- No custom index refuses the manifest. -/
def PutsAccepted (e : Engine) (s : State) : StoreOp → Prop
  | .put cfg call => ∀ made ∈ offered e cfg s call, (registration e.indexes made.1).toOption.isSome
  | .delete _ _ _ => True
  | .cycle _ _ _ _ => True

instance (op : StoreOp) : Decidable (PutsAccepted e s op) :=
  match op with
  | .put cfg call => inferInstanceAs (Decidable (∀ made ∈ offered e cfg s call, (registration e.indexes made.1).toOption.isSome))
  | .delete _ _ _ => isTrue trivial
  | .cycle _ _ _ _ => isTrue trivial

theorem knownOver (known : FilesKnown s) (index : s'.index.manifests = s.index.manifests)
    (files : ∀ path, path.toList.head? = some 'm' → s'.fs.lookup path = s.fs.lookup path) : FilesKnown s' := by
  intro path present manifest
  rw [memLookup,files path manifest,← memLookup] at present
  rw [index]
  exact known path present manifest

theorem knownPut {cfg call} (known : FilesKnown s) (accepted : PutsAccepted e s (.put cfg call)) :
    FilesKnown (Cas.put e cfg s call).1 := by
  rcases done : Cas.put e cfg s call with ⟨s',outcome⟩
  rcases putWrites done with ⟨files,index,_⟩ | ⟨m,raw,place,wrote,⟨_,_,refused⟩ | ⟨addr,r,possible,index,_⟩⟩
  · exact knownOver known (congrArg Index.manifests index) files
  · obtain ⟨r,possible⟩ := okSome (accepted _ wrote.offers)
    exact absurd possible (refused r)
  have digest : r.keys.digest = e.hasher.sum raw :=
    okSame (registrationDigest possible) (bindSum e.hasher raw)
  intro path present manifest
  rw [memLookup,wrote.files path manifest] at present
  rw [index]
  by_cases here : path = place
  · subst here
    exact ⟨e.hasher.sum raw,registerRows.mpr (.inl digest.symm),wrote.path⟩
  · rw [if_neg here] at present
    obtain ⟨key,mem,laid⟩ := known path (memLookup.mpr present) manifest
    exact ⟨key,registerRows.mpr (.inr mem),laid⟩

theorem knownDropped {id path key row} (known : FilesKnown s) (d : Dropped s s' id key row path) : FilesKnown s' := by
  intro other present manifest
  rw [d.fs] at present
  obtain ⟨away,present⟩ := AList.mem_erase.mp present
  obtain ⟨k,mem,laid⟩ := known other present manifest
  refine ⟨k,?_,laid⟩
  rw [memLookup,droppedLookup d,if_neg,← memLookup]
  · exact mem
  · rintro rfl
    exact away (okSame laid d.laid)

structure Settled (e : Engine) (s : State) : Prop where
  stored : Stored e s
  placed : RowsPlaced e.topology s.index

section
variable (codec : Codec e) (commit : DeletesCommit e)
include commit
theorem knownAdvance {op} (placed : RowsPlaced e.topology s.index) (known : FilesKnown s) (accepted : PutsAccepted e s op) :
    FilesKnown (advance e s op) := by
  cases op with
  | put cfg call => exact knownPut known accepted
  | delete cfg id now =>
    simp only [advance]
    rcases done : Cas.delete e cfg s id now with ⟨s',outcome⟩
    rcases deleteEnds commit done with ⟨same,_⟩ | ⟨_,key,row,path,d⟩
    · exact same.symm ▸ known
    · exact knownDropped known d
  | cycle complete grace tMark tSweep =>
    obtain ⟨blobs,index⟩ := (cycled placed complete grace tMark tSweep).index
    exact knownOver known (by rw [advance,index]) fun path manifest => cycleManifests placed complete grace tMark tSweep manifest

include codec
theorem settledAdvance {op} (settled : Settled e s) (legible : PutsLegible e s op) : Settled e (advance e s op) := by
  have placed := placedAdvance op settled.placed
  cases op with
  | put cfg call => exact ⟨storedPut codec settled.stored legible,placed⟩
  | delete cfg id now =>
    simp only [advance] at placed ⊢
    generalize done : Cas.delete e cfg s id now = pair at placed ⊢
    rcases deleteEnds commit done with ⟨same,_⟩ | ⟨_,key,row,path,d⟩
    · exact same.symm ▸ settled
    · exact ⟨storedDropped settled.stored d,placed⟩
  | cycle complete grace tMark tSweep =>
    obtain ⟨blobs,index⟩ := (cycled settled.placed complete grace tMark tSweep).index
    simp only [advance]
    have rows : (runCycle complete grace tMark tSweep s).state.index.manifests = s.index.manifests := by rw [index]
    refine ⟨⟨?_,fun key row found => ?_⟩,placed⟩
    · rw [index]
      exact ⟨settled.stored.1.issued,settled.stored.1.distinct,settled.stored.1.pruned⟩
    · obtain ⟨m,filed⟩ := settled.stored.2 key row (rows ▸ found)
      obtain ⟨path,file,laid,held,rest⟩ := filed.file
      refine ⟨m,⟨path,file,laid,?_,rest⟩,filed.handle,filed.named,filed.session⟩
      rw [cycleManifests settled.placed complete grace tMark tSweep (manifestPathHead laid),held]

/-- Every row has its manifest file after every run whose Puts write files that can be read back. -/
theorem settledRun {ops} (legible : Along (advance e) (PutsLegible e) emptyStore ops) :
    Settled e (after (advance e) emptyStore ops) :=
  invariantAfter (fun _ _ settled ok => settledAdvance codec commit settled ok) ⟨storedEmpty e,placedEmpty e.topology⟩ legible

theorem knownRun {ops} (legible : Along (advance e) (PutsLegible e) emptyStore ops)
    (accepted : Along (advance e) (PutsAccepted e) emptyStore ops) : FilesKnown (after (advance e) emptyStore ops) := by
  have keep : ∀ s op, Settled e s ∧ FilesKnown s → PutsLegible e s op ∧ PutsAccepted e s op →
      Settled e (advance e s op) ∧ FilesKnown (advance e s op) := fun s op both ok =>
    ⟨settledAdvance codec commit both.1 ok.1,knownAdvance commit both.1.placed both.2 ok.2⟩
  refine (invariantAfter keep ⟨⟨storedEmpty e,placedEmpty e.topology⟩,fun path present => ?_⟩ (alongAnd.mpr ⟨legible,accepted⟩)).2
  simp [emptyStore] at present

end

theorem bareCommit (bare : e.indexes = []) : DeletesCommit e := by
  intro tx key
  have bound : ∃ value, hexKey (hexOut key) = .ok value := by
    by_cases empty : key = []
    · subst empty
      exact ⟨none,rfl⟩
    · exact ⟨some key,hexKeyEncode empty⟩
  obtain ⟨value,bound⟩ := bound
  have told : ∀ event, dispatchCustomIndexes [] event = .ok () := fun _ => rfl
  have dropped : ∀ id digest, applyUnindexers [] id digest = .ok () := fun _ _ => rfl
  simp only [deleteManifest,bare,bound,bind,Except.bind,told,dropped]
  cases value with
  | none => exact ⟨_,rfl⟩
  | some key =>
    simp only [ite_self]
    split <;> exact ⟨_,rfl⟩

/- A codec for the manifests of a list. -/
def tabled (known : List Manifest) : Engine :=
  {Readback.sampleEngine with
    encodeManifest := fun m => if m ∈ known then .ok (replicate (known.idxOf m + 1) 0) else .error (.other "not a sample")
    decodeManifest := fun raw => match known[raw.length - 1]? with
      | some m => .ok (carried m m.ext m.usr)
      | none => .error (.other "not a sample")}

theorem tabledCodec (known : List Manifest) : Codec (tabled known) where
  carries := by
    intro m raw d encoded decoded
    simp only [tabled] at encoded decoded
    split at encoded
    · next mem =>
      cases encoded
      rw [length_replicate,Nat.add_sub_cancel,getElem?_idxOf mem] at decoded
      cases decoded
      exact ⟨_,_,rfl⟩
    · cases encoded
  named := by
    intro contentHash nonce empty
    have first := congrArg String.toList empty
    simp [tabled,Readback.sampleEngine,String.toList_append] at first

theorem tabledCommit (known : List Manifest) : DeletesCommit (tabled known) := bareCommit rfl

end Scrinium.ManifestFiles
