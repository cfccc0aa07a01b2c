import Scrinium.ManifestFiles
import Scrinium.Overtaking

/-! The sweep of one blob, call by call, while Puts run. The last call looks at the counter once more, but the marker is
gone. -/
namespace Scrinium.SweepRace
open Keyed Domain Layout LocalFs Pipeline SqliteIndex Cas Gc StoreRuns MidFlight Trace Function
open ManifestFiles (markerHead)

/- Where the sweep stands with this blob. `since` is the clock the sweep reads after its listing. -/
inductive Sweeping where
  | idle
  | listed (since : Instant)
  | resolved (since : Instant) (path : String)
  | marked (path : String)
  | removed (path : String)
  | dropped
  | revived (path : String)
  | passed
  deriving DecidableEq

def sweepCall (grace : Nat) (ref : String) (now : Instant) (s : State) : Sweeping → State × Sweeping
  | .idle => (s,if ref ∈ listOrphanBlobs s.index then .listed now else .passed)
  | .listed since =>
    match resolve s.index ref with
    | .error _ => (s,.passed)
    | .ok path => (s,if path = "" then .passed else .resolved since path)
  | .resolved since path =>
    match tombstoneInfo s.fs path with
    | none => (s,.passed)
    | some placed => (s,if 0 < grace ∧ since - placed < grace then .passed else .marked path)
  | .marked path => ({s with fs := removeTombstone s.fs path},.removed path)
  | .removed path =>
    match deleteOrphanBlob s.index ref with
    | .error _ => (s,.passed)
    | .ok (tx,true) => ({s with index := tx},.dropped)
    | .ok (tx,false) => ({s with index := tx},.revived path)
  | .dropped => (s,.dropped)
  | .revived path => (s,.revived path)
  | .passed => (s,.passed)

/-- A sweep nothing interferes with does to the blob what the collector's sweep does. -/
theorem sweepAlone (grace : Nat) (now : Instant) (s : State) (ref : String) (orphan : ref ∈ listOrphanBlobs s.index) :
    ((fun p : State × Sweeping => sweepCall grace ref now p.1 p.2)^[5] (s,.idle)).1 =
      (sweepRef grace now ⟨s,[]⟩ ref).state := by
  simp only [iterate_succ,iterate_zero,comp,id,sweepCall,if_pos orphan,sweepRef]
  cases resolve s.index ref with
  | error err => rfl
  | ok path =>
    by_cases packed : path = ""
    · simp only [if_pos packed]
    simp only [if_neg packed]
    cases tombstoneInfo s.fs path with
    | none => rfl
    | some placed =>
      by_cases young : 0 < grace ∧ now - placed < grace
      · simp only [if_pos young]
      simp only [if_neg young]
      cases deleteOrphanBlob s.index ref with
      | error err => rfl
      | ok pair =>
        obtain ⟨tx,removed⟩ := pair
        cases removed <;> rfl

structure Course where
  engine : Engine
  grace : Nat
  ref : String
  puts : Nat → StoreConfig × PutCall

structure Race where
  store : State
  sweep : Sweeping
  puts : Nat → Stage

inductive Move where
  | sweep (now : Instant)
  | put (i : Nat)
  deriving DecidableEq

def move (x : Course) (r : Race) : Move → Race
  | .sweep now =>
    let next := sweepCall x.grace x.ref now r.store r.sweep
    {r with store := next.1, sweep := next.2}
  | .put i =>
    let next := putStep x.engine (x.puts i).1 (x.puts i).2 r.store (r.puts i)
    {r with store := next.1, puts := update r.puts i next.2}

def started (s : State) : Race := ⟨s,.idle,fun _ => .ready⟩

def Held (e : Engine) (fs : Fs) (place ref : String) : Prop :=
  ∃ file, fs.lookup place = some file ∧ e.hasher.hex file.data = ref

def flight (x : Course) (i : Nat) : Setting := ⟨x.engine,(x.puts i).1,(x.puts i).2,false,0⟩

def Anew (x : Course) (r : Race) : Move → Prop
  | .sweep _ => False
  | .put i => r.puts i = .ready ∧ (∃ blob, (putStep x.engine (x.puts i).1 (x.puts i).2 r.store .ready).2 = .placed blob) ∧
      ∃ output final, renames (flight x i) r.store = some (output,final) ∧ x.engine.hasher.hex output = x.ref

variable {x r path s}

section
variable {y}
theorem changedRenames {s' blob} (stored : materialize y.engine y.config s y.call = (s',.ok blob))
    (under : path.toList.head? = some 'b') (changed : s'.fs.lookup path ≠ s.fs.lookup path) :
    ∃ output, renames y s = some (output,path) ∧ s'.fs.lookup path = some (own y output) := by
  have notStaging : path ≠ stagingPath y.call.stagingID := headsApart under (stagingHead _) (by decide)
  unfold materialize at stored
  split at stored
  · cases stored
  split at stored
  · cases stored
    exact absurd rfl changed
  next target =>
    cases streamToTargetPlaced stored with
    | inline => exact absurd rfl changed
    | shared _ _ _ _ _ _ _ _ _ files => exact absurd (files path notStaging) changed
    | fresh _ output stages final built miss laid index held files =>
      by_cases here : path = final
      · subst here
        refine ⟨output,?_,held⟩
        simp only [renames,if_neg target,built,miss,laid]
      · exact absurd (files path here notStaging) changed

theorem readyFileIff {ref} (laid : blobPath y.engine.topology .regular ref = .ok path)
    (shape : validateRefShape ref = .ok ()) :
    Held y.engine (putStep y.engine y.config y.call s .ready).1.fs path ref ↔ Held y.engine s.fs path ref ∨
      ((∃ blob, (putStep y.engine y.config y.call s .ready).2 = .placed blob) ∧
        ∃ output final, renames y s = some (output,final) ∧ y.engine.hasher.hex output = ref) := by
  have under : path.toList.head? = some 'b' := blobPathHead laid
  simp only [putStep]
  cases checked : (do validatePutInputs y.call; checkPutSupported y.engine y.config) with
  | error err => simp
  | ok _ =>
    rcases stored : materialize y.engine y.config s y.call with ⟨s',outcome⟩
    cases outcome with
    | error err =>
      have same : s'.fs.lookup path = s.fs.lookup path :=
        (materializeFailed stored).2 path (headsApart under (stagingHead _) (by decide))
      simp [Held,same]
    | ok blob =>
      by_cases changed : s'.fs.lookup path = s.fs.lookup path
      · have held : Held y.engine s'.fs path ref ↔ Held y.engine s.fs path ref := by simp only [Held,changed]
        refine held.trans ⟨.inl,fun either => either.elim id ?_⟩
        rintro ⟨_,output,final,moves,rfl⟩
        obtain ⟨target,stages,built,miss,place⟩ := renamesWhen moves
        cases okSame place laid
        have file := (freshPlaced target built miss place stored).2.1
        exact ⟨own y output,changed ▸ file,rfl⟩
      · obtain ⟨output,moves,file⟩ := changedRenames stored under changed
        obtain ⟨_,_,_,_,place⟩ := renamesWhen moves
        have named : y.engine.hasher.hex output = ref :=
          blobPathInjective (hexShape y.engine.hasher output) shape place laid
        exact iff_of_true ⟨own y output,file,named⟩ (.inr ⟨⟨blob,rfl⟩,output,path,moves,named⟩)

theorem putFileIff (laid : blobPath x.engine.topology .regular x.ref = .ok path) (shape : validateRefShape x.ref = .ok ())
    (i : Nat) :
    Held x.engine (move x r (.put i)).store.fs path x.ref ↔
      Held x.engine r.store.fs path x.ref ∨ Anew x r (.put i) := by
  have under : path.toList.head? = some 'b' := blobPathHead laid
  have unready : ∀ {stage : Stage}, r.puts i = stage → stage ≠ .ready →
      (putStep x.engine (x.puts i).1 (x.puts i).2 r.store stage).1.fs.lookup path = r.store.fs.lookup path →
      (Held x.engine (move x r (.put i)).store.fs path x.ref ↔
        Held x.engine r.store.fs path x.ref ∨ Anew x r (.put i)) := by
    intro stage at' other same
    have held : Held x.engine (move x r (.put i)).store.fs path x.ref ↔ Held x.engine r.store.fs path x.ref := by
      simp only [Held,move,at',same]
    rw [held]
    exact ⟨.inl,fun either => either.resolve_right fun anew => other (at'.symm.trans anew.1)⟩
  cases stage : r.puts i with
  | placed blob =>
    refine unready stage (by simp) ?_
    simp only [putStep]
    split
    · rfl
    split
    · rfl
    · next place built =>
      exact (lookupInsert _ _ _ _).trans (if_neg (headsApart under (manifestPathHead built) (by decide)))
  | written m addr =>
    refine unready stage (by simp) ?_
    simp only [putStep]
    split <;> rfl
  | done m => exact unready stage (by simp) rfl
  | failed err => exact unready stage (by simp) rfl
  | ready =>
    have first := readyFileIff (y := flight x i) (s := r.store) laid shape
    simp only [Held,move,stage,Anew,true_and]
    exact first

theorem sweepCallFs (grace : Nat) (ref : String) (now : Instant) (s : State) (at' : Sweeping) :
    (sweepCall grace ref now s at').1.fs = s.fs ∨
      ∃ path, at' = .marked path ∧ (sweepCall grace ref now s at').1.fs = removeTombstone s.fs path := by
  cases at' with
  | idle => exact .inl rfl
  | listed since =>
    simp only [sweepCall]
    split <;> exact .inl rfl
  | resolved since path =>
    simp only [sweepCall]
    split <;> exact .inl rfl
  | marked path => exact .inr ⟨path,rfl,rfl⟩
  | removed path =>
    simp only [sweepCall]
    split <;> exact .inl rfl
  | dropped => exact .inl rfl
  | revived path => exact .inl rfl
  | passed => exact .inl rfl

theorem moveFileIff (laid : blobPath x.engine.topology .regular x.ref = .ok path) (shape : validateRefShape x.ref = .ok ())
    (r : Race) (m : Move) :
    Held x.engine (move x r m).store.fs path x.ref ↔ Held x.engine r.store.fs path x.ref ∨ Anew x r m := by
  cases m with
  | put i => exact putFileIff laid shape i
  | sweep now =>
    have same : (move x r (.sweep now)).store.fs.lookup path = r.store.fs.lookup path := by
      have files := sweepCallFs x.grace x.ref now r.store r.sweep
      rcases files with unchanged | ⟨other,_,removed⟩
      · simp only [move,unchanged]
      · simp only [move,removed,removeTombstone,lookupErase]
        exact if_neg (dotlessNotMarker (dotlessBlobPath shape laid))
    simp only [Held,same,Anew,or_false]

theorem putMarker (under : path.toList.head? = some 'b') (y : Setting) (s : State) (stage : Stage) :
    (putStep y.engine y.config y.call s stage).1.fs.lookup (marker path) = s.fs.lookup (marker path) := by
  have head : (marker path).toList.head? = some 'b' := markerHead under
  cases stage with
  | placed blob =>
    simp only [putStep]
    split
    · rfl
    split
    · rfl
    · next place built =>
      exact (lookupInsert _ _ _ _).trans (if_neg (headsApart head (manifestPathHead built) (by decide)))
  | written m addr =>
    simp only [putStep]
    split <;> rfl
  | done m => rfl
  | failed err => rfl
  | ready =>
    simp only [putStep]
    split
    · rfl
    rcases stored : materialize y.engine y.config s y.call with ⟨s',outcome⟩
    cases outcome with
    | error err =>
      exact (materializeFailed stored).2 (marker path) (headsApart head (stagingHead _) (by decide))
    | ok blob =>
      by_contra changed
      obtain ⟨output,moves,_⟩ := changedRenames stored head changed
      obtain ⟨_,_,_,_,place⟩ := renamesWhen moves
      have plain := dotlessBlobPath (hexShape y.engine.hasher output) place
      rw [markerDotted] at plain
      cases plain

end

section
variable {i}
def Bound (e : Engine) (call : PutCall) : Stage → Prop
  | .placed blob => blob.inlineBytes.isSome = true ∨ ∃ key size stages addr,
      blob = ⟨e.hasher.hex call.payload,hexOut key,size,stages,none,addr⟩ ∧ validateRefShape (hexOut key) = .ok () ∧
      blobPath e.topology .regular (hexOut key) = .ok addr
  | .written m addr => m.layout = .inline ∨ ∃ key, m.layout = .target ∧ m.blobRefs = [hexOut key] ∧
      m.contentHash = e.hasher.hex call.payload ∧ validateRefShape (hexOut key) = .ok () ∧
      blobPath e.topology .regular (hexOut key) = .ok addr
  | _ => True

theorem shapedNe {key} (shape : validateRefShape (hexOut key) = .ok ()) : key ≠ [] := by
  rintro rfl
  cases shape

variable {e cfg call blob m}

theorem boundPlaced {s'} (rows : RowsPlaced e.topology s.index) (placed : Placed e cfg s call s' blob) :
    Bound e call (.placed blob) := by
  cases placed with
  | inline mode => exact .inl rfl
  | shared _ output stages existing addr built hit resolved =>
    obtain ⟨key,row,rfl,_,found,rfl⟩ := probeHit rfl (sumNe e.hasher output) hit resolved
    obtain ⟨shape,place⟩ := rows key row found
    exact .inr ⟨key,_,_,_,rfl,shape,place⟩
  | fresh _ output stages final built miss place =>
    exact .inr ⟨e.hasher.sum output,_,_,_,rfl,hexShape e.hasher output,place⟩

theorem boundWritten {fileBytes} (bound : Bound e call (.placed blob))
    (assembled : assembleManifest e cfg call blob = .ok (m,fileBytes)) :
    Bound e call (.written m blob.addr) := by
  rcases bound with inline | ⟨key,size,stages,addr,rfl,shape,place⟩
  · obtain ⟨_,_,last⟩ := bindOk.mp assembled
    cases last
    exact .inl (if_pos inline)
  · obtain ⟨layout,_,_,refs,hash⟩ := assembledTarget (shapedNe shape) assembled
    exact .inr ⟨key,layout,refs,hash,shape,place⟩

theorem rowsCommitted {addr now tx tx'} (rows : RowsPlaced e.topology tx)
    (bound : Bound e call (.written m addr)) (told : indexManifest e.indexes tx m addr now = .ok tx') :
    RowsPlaced e.topology tx' := by
  obtain ⟨r,registered,rfl⟩ := indexManifestOk.mp told
  intro key row found
  rcases registeredRow found with ⟨old,held,same⟩ | ⟨absent,mem,same⟩
  · rw [(identityEq same).2.2.1]
    exact rows key old held
  rcases bound with inline | ⟨own,layout,refs,hash,shape,place⟩
  · rw [(registrationRefs registered).mpr inline] at mem
    exact absurd mem List.not_mem_nil
  have keys := (registrationKeys registered (by rw [layout]; decide) refs (shapedNe shape)
    (hash ▸ bindSum e.hasher call.payload)).1
  rw [keys,List.mem_singleton] at mem
  subst mem
  have addressed : row.physicalPath = addr := by simpa [identity,blobRow] using congrArg BlobRow.physicalPath same
  exact ⟨shape,addressed ▸ place⟩

theorem putStepRows {stage} (rows : RowsPlaced e.topology s.index) (bound : Bound e call stage) :
    RowsPlaced e.topology (putStep e cfg call s stage).1.index ∧ Bound e call (putStep e cfg call s stage).2 := by
  cases stage with
  | ready =>
    simp only [putStep]
    split
    · exact ⟨rows,trivial⟩
    rcases stored : materialize e cfg s call with ⟨s',outcome⟩
    cases outcome with
    | error err => exact ⟨(materializeFailed stored).1 ▸ rows,trivial⟩
    | ok blob =>
      have placed := materializePlaced stored
      exact ⟨placedIndex placed ▸ rows,boundPlaced rows placed⟩
  | placed blob =>
    simp only [putStep]
    split
    · exact ⟨rows,trivial⟩
    next m fileBytes assembled =>
    split
    · exact ⟨rows,trivial⟩
    · exact ⟨rows,boundWritten bound assembled⟩
  | written m addr =>
    simp only [putStep]
    split
    · exact ⟨rows,trivial⟩
    · next tx told => exact ⟨rowsCommitted rows bound told,trivial⟩
  | done m => exact ⟨rows,trivial⟩
  | failed err => exact ⟨rows,trivial⟩

end

section

def Laid (x : Course) (path : String) : Prop :=
  validateRefShape x.ref = .ok () ∧ blobPath x.engine.topology .regular x.ref = .ok path

def Knows (x : Course) (fs : Fs) : Sweeping → Prop
  | .listed _ => ∃ key, x.ref = hexOut key ∧ key ≠ []
  | .resolved _ path => Laid x path
  | .marked path => Laid x path
  | .removed path => Laid x path ∧ fs.lookup (marker path) = none
  | .revived path => Laid x path ∧ fs.lookup (marker path) = none
  | _ => True

structure Sound (x : Course) (r : Race) : Prop where
  rows : RowsPlaced x.engine.topology r.store.index
  bound : ∀ i, Bound x.engine (x.puts i).2 (r.puts i)
  knows : Knows x r.store.fs r.sweep

theorem sweepCallSound {grace ref now s topology}
    (rows : RowsPlaced topology s.index) (at' : Sweeping) : RowsPlaced topology (sweepCall grace ref now s at').1.index := by
  cases at' with
  | idle => exact rows
  | listed since =>
    simp only [sweepCall]
    split <;> exact rows
  | resolved since path =>
    simp only [sweepCall]
    split <;> exact rows
  | marked path => exact rows
  | dropped => exact rows
  | revived path => exact rows
  | passed => exact rows
  | removed path =>
    have kept : ∀ {tx removed}, deleteOrphanBlob s.index ref = .ok (tx,removed) → RowsPlaced topology tx := by
      intro tx removed done
      rcases deleteOrphanBlobOk done with ⟨rfl,_⟩ | ⟨key,_,_,_,_,rfl⟩
      · exact rows
      · exact placedErase rows key
    simp only [sweepCall]
    split
    · exact rows
    · next tx done => exact kept done
    · next tx done => exact kept done

theorem knowsSweep (sound : Sound x r) (now : Instant) :
    Knows x (move x r (.sweep now)).store.fs (move x r (.sweep now)).sweep := by
  have knows := sound.knows
  simp only [move]
  cases at' : r.sweep with
  | idle =>
    simp only [sweepCall]
    split
    · next listed =>
      obtain ⟨entry,mem,named⟩ := List.mem_map.mp listed
      exact ⟨entry.1,named.symm,keyNamed sound.rows (orphanEntry.mp mem).1⟩
    · trivial
  | listed since =>
    rw [at'] at knows
    obtain ⟨key,named,some'⟩ := knows
    simp only [sweepCall]
    split
    · trivial
    next path resolved =>
    split
    · trivial
    · obtain ⟨key',row,bound,found,rfl⟩ := resolveKey resolved
      rw [named,hexKeyEncode some'] at bound
      cases Option.some.inj (Except.ok.inj bound)
      obtain ⟨shape,place⟩ := sound.rows key row found
      exact ⟨named ▸ shape,named ▸ place⟩
  | resolved since path =>
    rw [at'] at knows
    simp only [sweepCall]
    split
    · trivial
    · split
      · trivial
      · exact knows
  | marked path =>
    rw [at'] at knows
    exact ⟨knows,(lookupErase _ _ _).trans (if_pos rfl)⟩
  | removed path =>
    rw [at'] at knows
    simp only [sweepCall]
    split
    · trivial
    · trivial
    · exact knows
  | dropped => trivial
  | revived path =>
    rw [at'] at knows
    exact knows
  | passed => trivial

theorem knowsPut (sound : Sound x r) (i : Nat) : Knows x (move x r (.put i)).store.fs r.sweep := by
  have same : ∀ {path}, Laid x path →
      (move x r (.put i)).store.fs.lookup (marker path) = r.store.fs.lookup (marker path) := fun laid =>
    putMarker (blobPathHead laid.2) (flight x i) r.store (r.puts i)
  have knows := sound.knows
  cases at' : r.sweep with
  | removed path =>
    rw [at'] at knows
    exact ⟨knows.1,(same knows.1).trans knows.2⟩
  | revived path =>
    rw [at'] at knows
    exact ⟨knows.1,(same knows.1).trans knows.2⟩
  | idle => trivial
  | listed since =>
    rw [at'] at knows
    exact knows
  | resolved since path =>
    rw [at'] at knows
    exact knows
  | marked path =>
    rw [at'] at knows
    exact knows
  | dropped => trivial
  | passed => trivial

theorem soundMove (r : Race) (m : Move) (sound : Sound x r) : Sound x (move x r m) := by
  cases m with
  | sweep now => exact ⟨sweepCallSound sound.rows r.sweep,sound.bound,knowsSweep sound now⟩
  | put i =>
    obtain ⟨rows,bound⟩ : RowsPlaced x.engine.topology (move x r (.put i)).store.index ∧
        Bound x.engine (x.puts i).2 (putStep x.engine (x.puts i).1 (x.puts i).2 r.store (r.puts i)).2 :=
      putStepRows sound.rows (sound.bound i)
    refine ⟨rows,fun j => ?_,knowsPut sound i⟩
    by_cases same : j = i
    · subst same
      simp only [move,update_self]
      exact bound
    · simp only [move,update_of_ne same]
      exact sound.bound j

def Present (x : Course) (fs : Fs) (path : String) : Prop :=
  Held x.engine fs path x.ref ∨ Held x.engine fs (marker path) x.ref

def Revived (x : Course) (r : Race) (path : String) : Prop :=
  r.sweep = .revived path ∧ ∃ key row, hexKey x.ref = .ok (some key) ∧ r.store.index.blobs.lookup key = some row ∧
    0 < row.refCount

/-- In every interleaving of a sweep with Puts, where DeleteOrphanBlob has kept the row the bytes are there exactly if
the file stood beside the marker at the start or a Put has written it anew. -/
theorem revivedExactly (x : Course) (ops : List StoreOp) (moves : List Move) {path : String}
    (revived : Revived x (after (move x) (started (after (advance x.engine) emptyStore ops)) moves) path) :
    Present x (after (move x) (started (after (advance x.engine) emptyStore ops)) moves).store.fs path ↔
      Held x.engine (after (advance x.engine) emptyStore ops).fs path x.ref ∨
        ∃ visit ∈ visits (move x) (started (after (advance x.engine) emptyStore ops)) moves,
          Anew x visit.1 visit.2 := by
  generalize reached : after (advance x.engine) emptyStore ops = s at revived ⊢
  have rows : RowsPlaced x.engine.topology s.index := reached ▸ placedReached x.engine ops
  have sound : Sound x (after (move x) (started s) moves) :=
    invariantRun soundMove moves ⟨rows,fun _ => trivial,trivial⟩
  have knows := sound.knows
  rw [revived.1] at knows
  obtain ⟨⟨shape,laid⟩,gone⟩ := knows
  have unmarked : ¬ Held x.engine (after (move x) (started s) moves).store.fs (marker path) x.ref := by
    rintro ⟨file,found,_⟩
    rw [gone] at found
    cases found
  rw [Present,or_iff_left unmarked]
  exact gainedIff (p := fun r : Race => Held x.engine r.store.fs path x.ref) (moveFileIff laid shape)

open GracePeriod (sampleEngine hour)
open Readback (sampleConfig sampleCall)

def markedBlob (call : PutCall) (id : String) : List StoreOp :=
  [.put (sampleConfig []) call,.delete (sampleConfig []) id 1,.cycle true hour 2 2]

def cutIn : List Move :=
  [.sweep (2 * hour),.sweep (2 * hour),.sweep (2 * hour),.put 0,.put 0,.put 0,.sweep (2 * hour),.sweep (2 * hour)]

def deduplicating : Course := ⟨sampleEngine,hour,"00000102",fun _ => (sampleConfig [],sampleCall "u2" 2 (2 * hour))⟩

def compressing : Course :=
  ⟨sampleEngine,hour,"0000280102",fun _ => (sampleConfig ["zstd"],sampleCall "u2" 2 (2 * hour))⟩

def deduplicated : Race :=
  after (move deduplicating)
    (started (after (advance sampleEngine) emptyStore (markedBlob (sampleCall "u1" 1 0) "sha256-0000010201"))) cutIn

def compressed : List StoreOp := markedBlob {sampleCall "u1" 1 0 with payload := [0x28,1,2]} "sha256-000028010201"

theorem revivedLost : Revived deduplicating deduplicated "blobs/00/00/00000102" ∧
    ¬ Present deduplicating deduplicated.store.fs "blobs/00/00/00000102" := by
  constructor
  · refine ⟨by decide +kernel,[0,0,1,2],?_⟩
    have counted : (deduplicated.store.index.blobs.lookup [0,0,1,2]).map BlobRow.refCount = some 1 := by decide +kernel
    obtain ⟨row,found,one⟩ := Option.map_eq_some_iff.mp counted
    exact ⟨row,by decide +kernel,found,one ▸ Nat.one_pos⟩
  · have gone : deduplicated.store.fs.lookup "blobs/00/00/00000102" = none ∧
        deduplicated.store.fs.lookup (marker "blobs/00/00/00000102") = none := by decide +kernel
    rintro (⟨_,found,_⟩ | ⟨_,found,_⟩)
    · rw [gone.1] at found
      cases found
    · rw [gone.2] at found
      cases found

def rewritten : Race := after (move compressing) (started (after (advance sampleEngine) emptyStore compressed)) cutIn

theorem revivedAnew : Revived compressing rewritten "blobs/00/00/0000280102" ∧
    Present compressing rewritten.store.fs "blobs/00/00/0000280102" ∧
    ∃ visit ∈ visits (move compressing) (started (after (advance sampleEngine) emptyStore compressed)) cutIn,
      Anew compressing visit.1 visit.2 := by
  have revived : Revived compressing rewritten "blobs/00/00/0000280102" := by
    refine ⟨by decide +kernel,[0,0,0x28,1,2],?_⟩
    have counted : (rewritten.store.index.blobs.lookup [0,0,0x28,1,2]).map BlobRow.refCount = some 1 := by decide +kernel
    obtain ⟨row,found,one⟩ := Option.map_eq_some_iff.mp counted
    exact ⟨row,by decide +kernel,found,one ▸ Nat.one_pos⟩
  have present : Present compressing rewritten.store.fs "blobs/00/00/0000280102" :=
    .inl ⟨⟨[0x28,1,2],2 * hour,2 * hour⟩,by decide +kernel,by decide +kernel⟩
  refine ⟨revived,present,((revivedExactly compressing compressed cutIn revived).mp present).resolve_left ?_⟩
  rintro ⟨_,found,_⟩
  have gone : (after (advance sampleEngine) emptyStore compressed).fs.lookup "blobs/00/00/0000280102" = none := by
    decide +kernel
  cases gone.symm.trans found

end

end Scrinium.SweepRace
