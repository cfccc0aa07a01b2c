import Scrinium.Domain
import Scrinium.Trace

/-! The sweeps of the ingester (x/fspath/ingester: sweep.go, cursor.go), with the mark they store and the overlap they go
back. -/
namespace Scrinium.Ingester
open List hiding after
open Domain Trace Option Function

inductive Kind where
  | file
  | dir
  deriving DecidableEq

structure Element where
  path : String
  kind : Kind
  modTime : Int
  deriving DecidableEq

inductive Decision where
  | capture
  | skip
  | defer
  deriving DecidableEq

structure Answers where
  decide : Decision
  readyToRead : Option (Except Error Bool)
  alreadyCaptured : Except Error Bool
  capture : Except Error Unit

inductive Verdict where
  | skipped
  | deferred
  | known
  | captured
  | failed
  deriving DecidableEq

def Verdict.finished : Verdict → Bool
  | .skipped | .known | .captured => true
  | .deferred | .failed => false

def formatRFC3339 (t : Int) : Int := t / 1000000000
def cursorOverlap : Int := 2 * 1000000000

/- time.Parse of a mark, which from the year 10000 on has five digits for the year: it counts as none. -/
def parseRFC3339 (seconds : Int) : Option Int := if seconds < 253402300800 then some seconds else none

def since (mark : Option Int) : Option Int :=
  (mark.bind parseRFC3339).map fun seconds => seconds * 1000000000 - cursorOverlap
def reaches (mark : Option Int) (t : Int) : Bool := (since mark).all fun start => start ≤ t

structure Sweep where
  listing : List Element
  answers : Element → Answers
  settleCutoff : Int
  stores : Bool

def ready (a : Sweep) (el : Element) : Except Error Bool :=
  if el.kind = .dir then .ok true
  else if a.settleCutoff < el.modTime then .ok false
  else ((a.answers el).readyToRead).getD (.ok true)

def handle (a : Sweep) (el : Element) : Except Error Verdict :=
  match (a.answers el).decide with
  | .skip => .ok .skipped
  | .defer => .ok .deferred
  | .capture => do
    if !(← ready a el) then return .deferred
    if ← (a.answers el).alreadyCaptured then return .known
    match (a.answers el).capture with
    | .error _ => return .failed
    | .ok () => return .captured

def walk (a : Sweep) : List Element → List (Element × Verdict) × Bool
  | [] => ([],true)
  | el::rest =>
    match handle a el with
    | .error _ => ([],false)
    | .ok verdict => ((el,verdict)::(walk a rest).1,(walk a rest).2)

def note (highWater : Option Int) (t : Int) : Option Int :=
  if highWater.all fun old => old < t then some t else highWater

/- The stored mark, and the elements, by path and time, that sweeps have left unfinished in the source. -/
structure State where
  mark : Option Int
  waiting : List (String × Int)

def State.start : State := ⟨none,[]⟩
def enumerated (s : State) (a : Sweep) : List Element := a.listing.filter fun el => reaches s.mark el.modTime

def finished (s : State) (a : Sweep) : List Element :=
  ((walk a (enumerated s a)).1.filter fun seen => seen.2.finished).map Prod.fst

def left (s : State) (a : Sweep) : List Element :=
  ((walk a (enumerated s a)).1.filter fun seen => !seen.2.finished).map Prod.fst

def Element.key (el : Element) : String × Int := (el.path,el.modTime)

def stillWaiting (s : State) (a : Sweep) : List (String × Int) :=
  s.waiting.filter (fun key => key ∈ a.listing.map Element.key ∧ key ∉ (finished s a).map Element.key) ++
    (left s a).map Element.key

def highWater (s : State) (a : Sweep) : Option Int := (finished s a).foldl (fun mark el => note mark el.modTime) none

def sweep (s : State) (a : Sweep) : State where
  mark :=
    if (walk a (enumerated s a)).2 && a.stores then
      match highWater s a with
      | some t => some (formatRFC3339 t)
      | none => s.mark
    else s.mark
  waiting := stillWaiting s a

def Awaited (s : State) : Prop := ∀ key ∈ s.waiting, reaches s.mark key.2 = true

def Dated (el : Element) : Prop := formatRFC3339 el.modTime < 253402300800
instance (el : Element) : Decidable (Dated el) := Int.decLt _ _

def Close (s : State) (a : Sweep) : Prop :=
  (walk a (enumerated s a)).2 = true → a.stores = true → (∀ el ∈ finished s a, Dated el) →
    ∀ el ∈ finished s a, ∀ key ∈ stillWaiting s a, formatRFC3339 el.modTime * 1000000000 - cursorOverlap ≤ key.2
instance (s : State) (a : Sweep) : Decidable (Close s a) := by unfold Close; infer_instance

section
variable {s a}
theorem reachesIff {m t} :
    reaches (some m) t = true ↔ (m < 253402300800 → m * 1000000000 - cursorOverlap ≤ t) := by
  by_cases early : m < 253402300800 <;> simp [reaches,since,parseRFC3339,early]

theorem formatMono {x y : Int} (le : x ≤ y) : formatRFC3339 x ≤ formatRFC3339 y := Int.ediv_le_ediv (by decide) le

/- What holds of every earlier time too holds of the newest exactly if it holds of all. -/
theorem notedIff {p : Int → Prop} (down : ∀ {x y}, x ≤ y → p y → p x) (els : List Element) (start : Option Int) :
    (∀ t, els.foldl (fun mark el => note mark el.modTime) start = some t → p t) ↔
      (∀ t, start = some t → p t) ∧ ∀ el ∈ els, p el.modTime := by
  induction els generalizing start with
  | nil => simp
  | cons el rest ih =>
    rw [foldl_cons,ih,forall_mem_cons,← and_assoc]
    refine and_congr_left fun _ => ?_
    cases start with
    | none => simp [note]
    | some old =>
      by_cases newer : old < el.modTime
      · simpa [note,newer] using down newer.le
      · simpa [note,newer] using down (not_lt.mp newer)

theorem newestIff {p : Int → Prop} (down : ∀ {x y}, x ≤ y → p y → p x) {t} (newest : highWater s a = some t) :
    p t ↔ ∀ el ∈ finished s a, p el.modTime := by
  have noted := (notedIff down (finished s a) none).trans (and_iff_right nofun)
  rw [← noted,← highWater,newest]
  simp

theorem handledMem {els seen} (mem : seen ∈ (walk a els).1) : seen.1 ∈ els := by
  induction els with
  | nil => cases mem
  | cons el rest ih =>
    rw [walk] at mem
    split at mem
    · cases mem
    · rcases mem_cons.mp mem with rfl | mem
      · exact mem_cons_self
      · exact mem_cons_of_mem el (ih mem)

theorem waitingReached (awaited : Awaited s) {key} (mem : key ∈ stillWaiting s a) : reaches s.mark key.2 = true := by
  rcases mem_append.mp mem with old | new
  · exact awaited key (mem_of_mem_filter old)
  · obtain ⟨el,there,rfl⟩ := mem_map.mp new
    obtain ⟨seen,inside,rfl⟩ := mem_map.mp there
    exact (mem_filter.mp (handledMem (mem_of_mem_filter inside))).2

theorem sweepAwaited (awaited : Awaited s) (a : Sweep) : Awaited (sweep s a) ↔ Close s a := by
  unfold Awaited Close sweep
  by_cases moves : (walk a (enumerated s a)).2 = true ∧ a.stores = true
  · simp only [moves.1,moves.2,Bool.and_self,if_true,forall_const]
    cases newest : highWater s a with
    | none =>
      have nothing : ∀ el ∈ finished s a, False := by
        have noted := notedIff (p := fun _ => False) (fun _ bad => bad) (finished s a) none
        rw [← highWater,newest] at noted
        exact (noted.mp nofun).2
      exact iff_of_true (fun key mem => waitingReached awaited mem) fun _ el mem => (nothing el mem).elim
    | some t =>
      have dated := newestIff (p := fun t => formatRFC3339 t < 253402300800)
        (fun le early => Int.lt_of_le_of_lt (formatMono le) early) newest
      have close : ∀ key : String × Int, formatRFC3339 t * 1000000000 - cursorOverlap ≤ key.2 ↔ _ := fun key =>
        newestIff (p := fun t => formatRFC3339 t * 1000000000 - cursorOverlap ≤ key.2)
          (fun le near => by have := formatMono le; omega) newest
      simp only [reachesIff,dated,close]
      exact ⟨fun all early el mem key waits => all key waits early el mem,
        fun all key waits early el mem => all early el mem key waits⟩
  · have still : ((walk a (enumerated s a)).2 && a.stores) = false := by
      rw [Bool.and_eq_false_iff]
      by_contra both
      exact moves (by simpa using both)
    simp only [still,Bool.false_eq_true,if_false]
    exact iff_of_true (fun key mem => waitingReached awaited mem) fun walked stores => absurd ⟨walked,stores⟩ moves

end

/-- Whatever the sweeps and the source's evolution, an element left deferred or failed is enumerated again while it is
there with its time, exactly if no sweep finishes with something more than the overlap newer. -/
theorem awaitedExactly (sweeps : List Sweep) :
    (∀ n, Awaited (after sweep .start (sweeps.take n))) ↔ Along sweep Close .start sweeps := by
  have start : Awaited .start := nofun
  rw [everywhereIff (p := Awaited) start]
  exact alongIff (fun s a awaited close => (sweepAwaited awaited a).mpr close) (fun s a awaited => sweepAwaited awaited a) start

def mixed : Sweep where
  listing := [⟨"old",.file,0⟩,⟨"new",.file,10000000000⟩]
  answers el := ⟨if el.path = "old" then .defer else .capture,none,.ok false,.ok ()⟩
  settleCutoff := 20000000000
  stores := true

theorem deferredJumped :
    ("old",0) ∈ (after sweep .start [mixed]).waiting ∧ ("old",0) ∈ mixed.listing.map Element.key ∧
      (enumerated (after sweep .start [mixed]) mixed).map Element.key = [("new",10000000000)] := by
  decide +kernel

inductive Disposal where
  | keep
  | remove
  deriving DecidableEq

/- The files of the source during a sweep, the artifacts written, each with the entry it is for, and what was removed. -/
structure Pass where
  files : String → Option Bytes
  written : List (Element × Bytes)
  removed : List String

variable (norm : String → String) (a : Sweep) (disposal : Disposal) (removes : String → Bool)

/- An entry of the driver's listing is captured, and removed, at its normalised path; a directory has no content. -/
def captureAt (p : Pass) (entry : Element) : Pass :=
  match if entry.kind = .file then p.files (norm entry.path) else some [] with
  | none => p
  | some body =>
    let p := {p with written := (entry,body)::p.written}
    if disposal = .remove ∧ removes (norm entry.path) then
      {p with files := update p.files (norm entry.path) none, removed := norm entry.path::p.removed}
    else p

def sweepFiles : List Element → Pass → Pass
  | [],p => p
  | entry::rest,p =>
    match handle a {entry with path := norm entry.path} with
    | .error _ => p
    | .ok .captured => sweepFiles rest (captureAt norm disposal removes p entry)
    | .ok _ => sweepFiles rest p

/- Each artifact for a file has that file's bytes, and a file is removed only with its bytes in an artifact. -/
structure Faithful (files : String → Option Bytes) (p : Pass) : Prop where
  written : ∀ entry body, (entry,body) ∈ p.written → entry.kind = .file → files entry.path = some body
  removed : ∀ path ∈ p.removed, ∀ body, files path = some body → ∃ entry, (entry,body) ∈ p.written

/- Where the normalised path of an entry is a file, that file has what the entry has. -/
def Harmless (files : String → Option Bytes) (entry : Element) : Prop :=
  ∀ body, files (norm entry.path) = some body → (if entry.kind = .file then files entry.path else some []) = some body

variable {norm a disposal removes} {files p}

theorem captureFaithful {entry} (faithful : Faithful files p) (held : ∀ path body, p.files path = some body → files path = some body)
    (harmless : Harmless norm files entry) :
    Faithful files (captureAt norm disposal removes p entry) ∧
      ∀ path body, (captureAt norm disposal removes p entry).files path = some body → files path = some body := by
  unfold captureAt
  split
  · exact ⟨faithful,held⟩
  next body taken =>
  have own : entry.kind = .file → files entry.path = some body := by
    intro file
    rw [if_pos file] at taken
    simpa [file] using harmless body (held _ _ taken)
  have wrote : Faithful files {p with written := (entry,body)::p.written} := by
    refine ⟨fun other body' mem file => ?_,fun path mem body' found => ?_⟩
    · rcases mem_cons.mp mem with same | old
      · cases same
        exact own file
      · exact faithful.written other body' old file
    · obtain ⟨other,old⟩ := faithful.removed path mem body' found
      exact ⟨other,mem_cons_of_mem _ old⟩
  simp only
  split
  · refine ⟨⟨wrote.written,fun path mem body' found => ?_⟩,fun path body' found => ?_⟩
    · rcases mem_cons.mp mem with rfl | old
      · have same := harmless body' found
        refine ⟨entry,mem_cons.mpr (.inl (congrArg (Prod.mk entry) ?_))⟩
        by_cases file : entry.kind = .file
        · rw [if_pos file] at taken
          exact Option.some.inj (found.symm.trans (held _ _ taken))
        · rw [if_neg file] at taken same
          exact Option.some.inj (same.symm.trans taken)
      · exact wrote.removed path old body' found
    · refine held path body' ?_
      simp only [update_apply] at found
      split at found
      · cases found
      · exact found
  · exact ⟨wrote,held⟩

theorem sweepFaithful {listing} (harmless : ∀ entry ∈ listing, Harmless norm files entry) (faithful : Faithful files p)
    (held : ∀ path body, p.files path = some body → files path = some body) :
    Faithful files (sweepFiles norm a disposal removes listing p) := by
  induction listing generalizing p with
  | nil => exact faithful
  | cons entry rest ih =>
    obtain ⟨here,later⟩ := forall_mem_cons.mp harmless
    rw [sweepFiles]
    split
    · exact faithful
    · obtain ⟨next,kept⟩ := captureFaithful faithful held here
      exact ih later next kept
    · exact ih later faithful held

/- Captures what is of a kind, up to a time. -/
def takes (kind : Kind) (cutoff : Int) : Sweep :=
  ⟨[],fun el => ⟨if el.kind = kind then .capture else .defer,none,.ok false,.ok ()⟩,cutoff,true⟩

theorem handleTakes {kind cutoff} (el : Element) :
    handle (takes kind cutoff) el =
      .ok (if el.kind = kind ∧ (el.kind = .file → el.modTime ≤ cutoff) then .captured else .deferred) := by
  obtain ⟨path,sort,time⟩ := el
  cases sort <;> cases kind <;> by_cases early : time ≤ cutoff <;>
    simp [handle,takes,ready,← Int.not_le,early,bind,Except.bind,pure,Except.pure]

theorem captureKeeps {entry x} (there : x ∈ p.written) : x ∈ (captureAt norm disposal removes p entry).written := by
  unfold captureAt
  split
  · exact there
  · simp only
    split <;> exact mem_cons_of_mem _ there

theorem sweepKeeps {listing x} (there : x ∈ p.written) : x ∈ (sweepFiles norm a disposal removes listing p).written := by
  induction listing generalizing p with
  | nil => exact there
  | cons entry rest ih =>
    rw [sweepFiles]
    split
    · exact there
    · exact ih (captureKeeps there)
    · exact ih there

theorem fileTaken {listing entry body cutoff} (mem : entry ∈ listing) (file : entry.kind = .file)
    (early : entry.modTime ≤ cutoff) (found : p.files (norm entry.path) = some body) :
    (entry,body) ∈ (sweepFiles norm (takes .file cutoff) .keep removes listing p).written := by
  induction listing generalizing p with
  | nil => cases mem
  | cons other rest ih =>
    rw [sweepFiles,handleTakes]
    rcases mem_cons.mp mem with rfl | later
    · have taken : captureAt norm .keep removes p entry = {p with written := (entry,body)::p.written} := by
        simp [captureAt,file,found]
      rw [if_pos ⟨file,fun _ => early⟩,taken]
      exact sweepKeeps mem_cons_self
    · have unmoved : (captureAt norm .keep removes p other).files = p.files := by
        unfold captureAt
        split <;> simp
      split
      next failed => cases failed
      · exact ih later (unmoved ▸ found)
      · exact ih later found

theorem dirsTaken (listing) (empty : ∀ x ∈ p.written, x.2 = []) :
    (∀ x ∈ (sweepFiles norm (takes .dir 0) .remove (fun _ => true) listing p).written, x.2 = []) ∧
      ∀ path, path ∈ p.removed ∨ (∃ entry ∈ listing, entry.kind = .dir ∧ norm entry.path = path) →
        path ∈ (sweepFiles norm (takes .dir 0) .remove (fun _ => true) listing p).removed := by
  induction listing generalizing p with
  | nil => exact ⟨empty,fun path at_ => at_.resolve_right (by simp)⟩
  | cons other rest ih =>
    rw [sweepFiles,handleTakes]
    cases sort : other.kind with
    | file =>
      obtain ⟨wrote,gone⟩ := ih empty
      refine ⟨wrote,fun path reached => gone path ?_⟩
      simpa [sort] using reached
    | dir =>
      have taken : captureAt norm .remove (fun _ => true) p other =
          ⟨update p.files (norm other.path) none,(other,[])::p.written,norm other.path::p.removed⟩ := by
        simp [captureAt,sort]
      rw [if_pos ⟨rfl,fun file => by cases file⟩]
      simp only [taken]
      obtain ⟨wrote,gone⟩ := ih (p := ⟨_,(other,[])::p.written,norm other.path::p.removed⟩)
        (forall_mem_cons.mpr ⟨rfl,empty⟩)
      refine ⟨wrote,fun path reached => gone path ?_⟩
      rcases reached with old | ⟨entry,mem,dir,rfl⟩
      · exact .inl (mem_cons_of_mem _ old)
      · rcases mem_cons.mp mem with rfl | later
        · exact .inl mem_cons_self
        · exact .inr ⟨entry,later,dir,rfl⟩

/-- Every sweep over a listing writes artifacts of its elements' own bytes, and removes nothing else, exactly if no
normalised path of a listed entry is a file with other bytes. -/
theorem capturesOwnExactly (norm : String → String) (files : String → Option Bytes) (listing : List Element) :
    (∀ a disposal removes, Faithful files (sweepFiles norm a disposal removes listing ⟨files,[],[]⟩)) ↔
      ∀ entry ∈ listing, Harmless norm files entry := by
  constructor
  · intro faithful entry mem body found
    by_cases file : entry.kind = .file
    · rw [if_pos file]
      exact (faithful (takes .file entry.modTime) .keep (fun _ => false)).written entry body
        (fileTaken mem file (Int.le_refl _) found) file
    · have dir : entry.kind = .dir := by
        cases sort : entry.kind
        · exact absurd sort file
        · rfl
      have start : ∀ x ∈ (⟨files,[],[]⟩ : Pass).written, x.2 = [] := nofun
      obtain ⟨empty,gone⟩ := dirsTaken listing start
      obtain ⟨other,wrote⟩ := (faithful (takes .dir 0) .remove fun _ => true).removed _
        (gone _ (.inr ⟨entry,mem,dir,rfl⟩)) body found
      rw [if_neg file,← empty _ wrote]
  · intro harmless a disposal removes
    exact sweepFaithful harmless ⟨nofun,nofun⟩ fun _ _ found => found

def composed (name : String) : String := if name = "e\u0301" then "é" else name
def spellings (name : String) : Option Bytes := if name = "e\u0301" then some [1] else if name = "é" then some [2] else none

theorem otherSpellingCaptured :
    (sweepFiles composed (takes .file 0) .keep (fun _ => false) [⟨"e\u0301",.file,0⟩] ⟨spellings,[],[]⟩).written = [(⟨"e\u0301",.file,0⟩,[2])] ∧
      spellings "e\u0301" = some [1] := by
  decide +kernel

end Scrinium.Ingester
