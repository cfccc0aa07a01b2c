import Scrinium.Edits

/-! Files of the VFS: what OpenFile hands out on the root view, and the cursor it keeps over a handle. -/
namespace Scrinium.Vfs
open List hiding after
open Domain Cas Projection Fsops Trace ManifestFiles

structure Flags where
  create : Bool
  excl : Bool
  trunc : Bool
  write : Bool
  deriving DecidableEq

inductive Opened where
  | dir
  | read (content : Bytes)
  | write (f : WriteFile)
  deriving DecidableEq

section
variable (o : Ops) (σ : Mounted) (path : String)
def statIsDir : Except Fault Bool :=
  match lookupInRoot o σ path with
  | .ok n => .ok n.fs.isDir
  | .error (.pathNotFound p) => if isPendingDir σ path then .ok true else .error (.pathNotFound p)
  | .error fault => .error fault

def openExisting (flags : Flags) : Except Fault Opened := do
  if ← statIsDir o σ path then return .dir
  else if flags.write then return .write (← openForEdit o σ path false [])
  else return .read (← openInRoot o σ path)

/- OpenFile computes whether O_TRUNC is set and drops it. -/
def openRoot (flags : Flags) (perm : UInt32) : Except Fault Opened :=
  if path = "" then .ok .dir
  else if flags.create then
    match create o σ path perm with
    | .ok f => .ok (.write f)
    | .error (.pathExists p) => if flags.excl then .error (.pathExists p) else openExisting o σ path flags
    | .error fault => .error fault
  else openExisting o σ path flags

end

def writes (o : Ops) : WriteFile → Nat → List Bytes → Except Fault WriteFile
  | f, _, [] => .ok f
  | f, off, p::rest => do writes o (← writeAt o f p off) (off + p.length) rest

def sequential : Nat → List Bytes → List Touch
  | _, [] => []
  | off, p::rest => .writeAt p off::sequential (off + p.length) rest

section
variable {o σ path content f f'} {flags : Flags} {ws : List Bytes}
theorem writeAtContent {p off} (ok : writeAt o f p off = .ok f') (inside : off ≤ f.content.length) :
    f'.content = f.content.take off ++ p ++ f.content.drop (off + p.length) := by
  obtain ⟨_,_,rest⟩ := bindOk.mp ok
  split at rest
  · next blank =>
    cases rest
    rw [blank,append_nil,length_nil,Nat.add_zero,take_append_drop]
  · cases rest
    simp only [resized,Nat.sub_eq_zero_of_le inside,replicate_zero,append_nil]

theorem writesContent {off} (ok : writes o f off ws = .ok f') (inside : off ≤ f.content.length) :
    f'.content = f.content.take off ++ ws.flatten ++ f.content.drop (off + ws.flatten.length) := by
  induction ws generalizing f off with
  | nil =>
    cases ok
    simp
  | cons p rest ih =>
    obtain ⟨g,first,more⟩ := bindOk.mp ok
    have now := writeAtContent first inside
    have front : (f.content.take off ++ p).length = off + p.length := by
      rw [length_append,length_take,Nat.min_eq_left inside]
    rw [ih more (by rw [now,length_append,front]; exact Nat.le_add_right _ _),now,← front,take_left,
      ← drop_drop,drop_left,drop_drop,front,flatten_cons,length_append]
    simp only [append_assoc,Nat.add_assoc]

theorem writesDirty {off} (ok : writes o f off ws = .ok f') : f'.dirty = (f.dirty || ws.flatten ≠ []) ∧ (ws.flatten = [] → f' = f) := by
  induction ws generalizing f off with
  | nil =>
    cases ok
    simp
  | cons p rest ih =>
    obtain ⟨g,first,more⟩ := bindOk.mp ok
    obtain ⟨dirty,same⟩ := ih more
    obtain ⟨_,_,once⟩ := bindOk.mp first
    split at once
    · next blank =>
      cases once
      rw [blank,flatten_cons,nil_append]
      exact ⟨dirty,same⟩
    · next some' =>
      cases once
      simp [dirty,some']

theorem writesTouch {off} (ok : writes o f off ws = .ok f') : (sequential off ws).foldl (touch o) f = f' := by
  induction ws generalizing f off with
  | nil => exact Except.ok.inj ok
  | cons p rest ih =>
    obtain ⟨g,first,more⟩ := bindOk.mp ok
    have once : touch o f (.writeAt p off) = g := by simp only [touch,first]
    rw [sequential,foldl_cons,once]
    exact ih more

theorem stagedWrites (edited : openForEdit o σ path false [] = .ok f) (wrote : writes o f 0 ws = .ok f') :
    staged o σ path (.write false (sequential 0 ws)) = .ok f' := by
  simp only [staged]
  unfold openForEdit at edited ⊢
  split at edited
  · cases edited
  split at edited
  · cases edited
  split at edited
  · cases edited
  next open' append allowed =>
  obtain ⟨g,prepared,same⟩ := bindOk.mp edited
  cases same
  rw [if_neg open',if_neg append,if_neg allowed,prepared]
  exact congrArg Except.ok (writesTouch wrote)

theorem existingEdits (ok : openExisting o σ path flags = .ok (.write f)) : openForEdit o σ path false [] = .ok f := by
  obtain ⟨isDir,_,rest⟩ := bindOk.mp ok
  split at rest
  · cases rest
  split at rest
  · obtain ⟨g,edited,last⟩ := bindOk.mp rest
    cases last
    exact edited
  · obtain ⟨_,_,last⟩ := bindOk.mp rest
    cases last

variable (there : openInRoot o σ path = .ok content)
include there

theorem openedEdits {perm} (ok : openRoot o σ path flags perm = .ok (.write f)) : openForEdit o σ path false [] = .ok f := by
  obtain ⟨n,looked,_⟩ := bindOk.mp there
  -- the path is taken, so Create makes no file
  have taken : ∀ g, create o σ path perm ≠ .ok g := by
    intro g made
    unfold create at made
    split at made
    · cases made
    split at made
    · cases made
    · obtain ⟨_,vacant,_⟩ := bindOk.mp made
      simp only [free,looked] at vacant
      cases vacant
  unfold openRoot at ok
  split at ok
  · cases ok
  split at ok
  · split at ok
    · next g made => exact absurd made (taken g)
    · split at ok
      · cases ok
      · exact existingEdits ok
    · cases ok
  · exact existingEdits ok

theorem editedScratch (edited : openForEdit o σ path false [] = .ok f) : f = scratchAt o σ path content := by
  unfold openForEdit at edited
  split at edited
  · cases edited
  split at edited
  · cases edited
  split at edited
  · cases edited
  obtain ⟨g,prepared,last⟩ := bindOk.mp edited
  cases last
  exact preparedOk there prepared

end

def sampleFlags : Flags := ⟨false,false,true,true⟩

def rewrite (ws : List Bytes) : Except Fault (Mounted × Except Fault Unit) := do
  match ← openRoot (sampleMount .unique) uniqueMounted "a" sampleFlags 420 with
  | .write f => return close (sampleMount .unique) uniqueMounted (← writes (sampleMount .unique) f 0 ws) sampleDraw
  | _ => throw .closed

def rewritten : WriteFile :=
  {scratchAt (sampleMount .unique) uniqueMounted "a" [1,2] with content := [7,2], dirty := true}

section

/- A reader over decoded bytes: how many a Read gives of those left, and whether it reports io.EOF with them. -/
structure Stream where
  gives : Bytes → Nat → Nat
  ends : Bytes → Nat → Bool
  within : ∀ rest size, gives rest size ≤ size
  moves : ∀ {rest size}, rest ≠ [] → 0 < size → 0 < gives rest size
  whole : ∀ {rest size}, ends rest size = true → rest.length ≤ gives rest size
  done : ∀ size, ends [] size = true

inductive Kind where
  | root
  | service
  deriving DecidableEq

def supportsRandomAccess (m : Manifest) : Bool := m.layout == .inline || m.pipeline.isEmpty

def payload (e : Engine) (s : State) (m : Manifest) : Except Error Bytes :=
  match m.layout with
  | .inline => .ok m.inlineBlob
  | _ => openBlob e s m

/- One Read of rwFile or readHandleFile. ReadAt reports io.EOF on a short read; the file puts it off while it came with
bytes. -/
def read (e : Engine) (t : Stream) (s : State) (m : Manifest) (kind : Kind) (off size : Nat) : Except Error (Bytes × Bool) :=
  if supportsRandomAccess m then do
    let got := ((← openRawBlob s m).drop off).take size
    return (got,got.isEmpty && decide (got.length < size))
  else match kind with
    | .root => .error (.other "read handle has no random access")
    | .service =>
      if off ≠ 0 then .error (.other "vfs: random access required for non-zero offset")
      else do
        let content ← openBlob e s m
        return (content.take (t.gives content size),t.ends content size)

def reads (e : Engine) (t : Stream) (s : State) (m : Manifest) (kind : Kind) : Nat → List Nat → Except Error (Bytes × Bool)
  | _, [] => .ok ([],false)
  | off, size::rest => do
    let (got,eof) ← read e t s m kind off size
    if eof then return (got,true)
    else
      let (more,ended) ← reads e t s m kind (off + got.length) rest
      return (got ++ more,ended)

def Delivers (e : Engine) (t : Stream) (s : State) (m : Manifest) (kind : Kind) (content : Bytes) : Prop :=
  ∀ sizes, (∀ size ∈ sizes, 0 < size) → ∃ got ended, reads e t s m kind 0 sizes = .ok (got,ended) ∧
    got <+: content ∧ (ended = true → got = content) ∧ (content.length < sizes.length → ended = true)

variable {e t s m kind content}

theorem rawPayload (random : supportsRandomAccess m = true) (there : payload e s m = .ok content) :
    openRawBlob s m = .ok content := by
  unfold payload at there
  split at there
  · next inline => rw [openRawBlob,inline,there]
  next inline =>
  have bare : m.pipeline = [] := by
    rcases Bool.or_eq_true_iff.mp random with inlined | bare
    · exact absurd (eq_of_beq inlined) inline
    · exact isEmpty_iff.mp bare
  obtain ⟨raw,opened,same⟩ := bindOk.mp there
  rw [bare] at same
  cases same
  exact opened

theorem readsAt (random : supportsRandomAccess m = true) (raw : openRawBlob s m = .ok content) (sizes : List Nat) :
    ∀ off ≤ content.length, (∀ size ∈ sizes, 0 < size) → ∃ got ended, reads e t s m kind off sizes = .ok (got,ended) ∧
      got <+: content.drop off ∧ (ended = true → got = content.drop off) ∧
        (content.length < off + sizes.length → ended = true) := by
  induction sizes with
  | nil => exact fun off le _ => ⟨[],false,rfl, nil_prefix,nofun,fun more => absurd le (Nat.not_le.mpr more)⟩
  | cons size rest ih =>
    intro off le positive
    obtain ⟨first,others⟩ := forall_mem_cons.mp positive
    have step : read e t s m kind off size = .ok ((content.drop off).take size,
        ((content.drop off).take size).isEmpty && decide (((content.drop off).take size).length < size)) := by
      rw [read.eq_def,if_pos random,raw]
      rfl
    by_cases ended : content.length ≤ off
    · rw [drop_eq_nil_of_le ended,take_nil] at step
      refine ⟨[],true,?_, nil_prefix,fun _ => (drop_eq_nil_of_le ended).symm,fun _ => rfl⟩
      rw [reads,step]
      simp [first,bind,Except.bind,pure,Except.pure]
    · have some' : ((content.drop off).take size).isEmpty = false := by
        rw [isEmpty_eq_false_iff,← length_pos_iff_ne_nil,length_take,length_drop]
        omega
      have length : ((content.drop off).take size).length = min size (content.length - off) := by
        rw [length_take,length_drop]
      obtain ⟨got,last,more,before,whole,enough⟩ := ih (off + ((content.drop off).take size).length) (by omega) others
      have split : (content.drop off).take size ++ content.drop (off + ((content.drop off).take size).length) = content.drop off := by
        rw [← drop_drop]
        exact prefix_iff_eq_append.mp ( take_prefix ..)
      refine ⟨(content.drop off).take size ++ got,last,?_,?_,fun final => ?_,fun many => enough ?_⟩
      · rw [reads,step,some',Bool.false_and]
        simp only [bind,Except.bind,Bool.false_eq_true,if_false,more]
        rfl
      · conv => rhs; rw [← split]
        exact prefix_append_right_inj _ |>.mpr before
      · rw [whole final,split]
      · rw [length_cons] at many
        omega

section
variable (stream : supportsRandomAccess m = false)
include stream
theorem streamPayload (there : payload e s m = .ok content) : openBlob e s m = .ok content := by
  unfold payload at there
  split at there
  · next inline => simp [supportsRandomAccess,inline] at stream
  · exact there

theorem readFirst (opened : openBlob e s m = .ok content) (size : Nat) :
    read e t s m .service 0 size = .ok (content.take (t.gives content size),t.ends content size) := by
  rw [read.eq_def,stream,opened]
  rfl

theorem readLater {off} (moved : off ≠ 0) (size : Nat) :
    read e t s m .service off size = .error (.other "vfs: random access required for non-zero offset") := by
  simp [read,stream,moved]

/- The second Read fails, so the first has to bring the end with it. -/
theorem serviceDelivers (opened : openBlob e s m = .ok content) :
    Delivers e t s m .service content ↔ ∀ size, 0 < size → t.ends content size = true := by
  constructor
  · intro delivers size positive
    by_contra notEnds
    rw [Bool.not_eq_true] at notEnds
    have bytes : content ≠ [] := by
      rintro rfl
      rw [t.done] at notEnds
      cases notEnds
    have moved : 0 + (content.take (t.gives content size)).length ≠ 0 := by
      rw [Nat.zero_add,length_take]
      have given := t.moves bytes positive
      have some' := length_pos_iff_ne_nil.mpr bytes
      omega
    obtain ⟨_,_,ok,_⟩ := delivers [size,1] (by simpa using positive)
    rw [reads,readFirst stream opened,notEnds] at ok
    obtain ⟨_,first,rest⟩ := bindOk.mp ok
    cases first
    obtain ⟨_,later,_⟩ := bindOk.mp rest
    rw [reads,readLater stream moved] at later
    cases later
  · intro ends sizes positive
    cases sizes with
    | nil => exact ⟨[],false,rfl, nil_prefix,nofun,nofun⟩
    | cons size rest =>
      have last := ends size (positive size mem_cons_self)
      refine ⟨content,true,?_,prefix_rfl,fun _ => rfl,fun _ => rfl⟩
      rw [reads,readFirst stream opened,last,take_of_length_le (t.whole last)]
      rfl

end

/-- Reads of whatever sizes deliver an artifact exactly if it can be addressed by offset, or it is read in a service
tree and is empty or one byte that the stream reports together with its end. -/
theorem readsDeliverExactly (there : payload e s m = .ok content) :
    Delivers e t s m kind content ↔ supportsRandomAccess m = true ∨
      kind = .service ∧ (content = [] ∨ content.length = 1 ∧ ∀ size, 0 < size → t.ends content size = true) := by
  cases random : supportsRandomAccess m with
  | true =>
    refine iff_of_true (fun sizes positive => ?_) (Or.inl rfl)
    obtain ⟨got,ended,ok,before,whole,enough⟩ := readsAt random (rawPayload random there) sizes 0 (Nat.zero_le _) positive
    exact ⟨got,ended,ok,before,whole,fun many => enough (by rwa [Nat.zero_add])⟩
  | false =>
    rw [or_iff_right Bool.false_ne_true]
    cases kind with
    | root =>
      refine iff_of_false (fun delivers => ?_) nofun
      obtain ⟨_,_,ok,_⟩ := delivers [1] (by decide)
      rw [reads,read.eq_def,random] at ok
      cases ok
    | service =>
      rw [serviceDelivers random (streamPayload random there),and_iff_right rfl]
      constructor
      · intro ends
        rcases Nat.eq_zero_or_pos content.length with none' | some'
        · exact Or.inl (length_eq_zero_iff.mp none')
        · exact Or.inr ⟨le_antisymm ((t.whole (ends 1 Nat.one_pos)).trans (t.within content 1)) some',ends⟩
      · rintro (rfl | ⟨_,ends⟩)
        · exact fun size _ => t.done size
        · exact ends

end

def plainStream : Stream where
  gives rest size := min size rest.length
  ends rest _ := rest.isEmpty
  within _ _ := Nat.min_le_left ..
  moves some' positive := Nat.lt_min.mpr ⟨positive,length_pos_iff_ne_nil.mpr some'⟩
  whole ends := by simp [isEmpty_iff.mp ends]
  done _ := rfl

def packed : State × Except Error Manifest :=
  Cas.put Readback.sampleEngine (Readback.sampleConfig ["zstd"]) StoreRuns.emptyStore (Readback.sampleCall "u" 1 10)

def readPacked (kind : Kind) (sizes : List Nat) : Except Error (Bytes × Bool) := do
  reads Readback.sampleEngine plainStream packed.1 (← packed.2) kind 0 sizes

theorem packedReadsFail :
    (packed.2.bind fun m => payload Readback.sampleEngine packed.1 m) = .ok [1,2] ∧
      readPacked .root [8] = .error (.other "read handle has no random access") ∧
        readPacked .service [1,1] = .error (.other "vfs: random access required for non-zero offset") := by
  decide +kernel

theorem inlineReads : payload Readback.sampleEngine StoreRuns.emptyStore shortFile = .ok [7,2] ∧
    Delivers Readback.sampleEngine plainStream StoreRuns.emptyStore shortFile .root [7,2] :=
  ⟨rfl,(readsDeliverExactly rfl).mpr (Or.inl rfl)⟩

end Scrinium.Vfs
