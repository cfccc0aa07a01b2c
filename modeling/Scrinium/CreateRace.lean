import Scrinium.Edits

/-! Concurrent Creates of one path. Each looks for a node, then for a pending directory, then waits for the lock, and
looks at nothing again once it has it. -/
namespace Scrinium.Fsops
open Domain Projection Vfsmeta StoreRuns Trace ManifestFiles

/- `stored` counts the handles that have stored a file since the path last had no node. A Create is overtaken when one of
them closes between its lookup and its lock. -/
structure Race where
  mounted : Mounted
  absent : List Nat
  cleared : List Nat
  holder : Option (Nat × WriteFile)
  stored : Nat
  overtaken : List Nat

def raced (σ : Mounted) : Race := ⟨σ,[],[],none,0,[]⟩

inductive Turn where
  | lookup (i : Nat)
  | pending (i : Nat)
  | lock (i : Nat) (mode : UInt32)
  | touch (t : Touch)
  | close (d : Draw)
  | other (σ : Mounted)

section
variable (o : Ops) (path : String)

def vacant (σ : Mounted) : Bool :=
  match lookupInRoot o σ path with
  | .error (.pathNotFound _) => true
  | _ => false

def Race.settle (s : Race) : Race := if vacant o path s.mounted then {s with stored := 0, overtaken := []} else s

def Race.closed (s : Race) (f : WriteFile) (d : Draw) : Race :=
  let done := close o s.mounted f d
  let left := {s with mounted := done.1, holder := none}
  if (f.dirty || f.forceDirty) && done.2.isOk then {left with stored := s.stored + 1, overtaken := s.absent ++ s.cleared} else left

/- An operation that takes the path's lock runs between two handles, but Mkdir, Rmdir, a Close below the path and a refresh
of the View do not: another operation may come at any time and leave anything. -/
def turn (s : Race) : Turn → Race
  | .lookup i => if vacant o path s.mounted then {s with absent := i::s.absent} else s
  | .pending i =>
    if i ∈ s.absent then
      {s with absent := s.absent.erase i, cleared := if isPendingDir s.mounted path then s.cleared else i::s.cleared}
    else s
  | .lock i mode =>
    if i ∈ s.cleared ∧ s.holder = none then {s with cleared := s.cleared.erase i, holder := some (i,fresh path mode)} else s
  | .touch t => {s with holder := s.holder.map fun held => (held.1,touch o held.2 t)}
  | .close d =>
    match s.holder with
    | some (_,f) => (s.closed o f d).settle o path
    | none => s
  | .other σ => {s with mounted := σ}.settle o path

def Exclusive (s : Race) (t : Turn) : Prop :=
  (turn o path s t).stored ≤ 1 ∧
    match t with
    | .lock i _ => i ∈ s.cleared → s.holder = none → s.stored = 0
    | _ => True

def InTime (s : Race) : Turn → Prop
  | .lock i _ => i ∈ s.cleared → s.holder = none → i ∉ s.overtaken
  | _ => True

structure Counted (s : Race) : Prop where
  vacated : vacant o path s.mounted = true → s.stored = 0 ∧ s.overtaken = []
  flight : ∀ i, i ∈ s.absent ∨ i ∈ s.cleared → (i ∈ s.overtaken ↔ s.stored ≠ 0)
  held : s.holder ≠ none → s.stored = 0
  once : s.stored ≤ 1

end

section
variable {o path} {s : Race}
theorem createAlone (idle : s.holder = none) {mode f} (ok : create o s.mounted path mode = .ok f) (i : Nat) :
    after (turn o path) s [.lookup i,.pending i,.lock i mode] = {s with holder := some (i,f)} := by
  unfold create at ok
  split at ok
  · cases ok
  split at ok
  · cases ok
  obtain ⟨_,free',last⟩ := bindOk.mp ok
  cases last
  unfold free at free'
  split at free'
  · cases free'
  · next missing =>
    split at free'
    · cases free'
    · next clear => simp [after,turn,vacant,missing,clear,idle]
  · cases free'

theorem countedSettled (flight : ∀ i, i ∈ s.absent ∨ i ∈ s.cleared → (i ∈ s.overtaken ↔ s.stored ≠ 0))
    (held : s.holder ≠ none → s.stored = 0) (once : s.stored ≤ 1) : Counted o path (s.settle o path) := by
  unfold Race.settle
  split
  · refine ⟨fun _ => ⟨rfl,rfl⟩,fun i _ => ?_,fun _ => rfl,Nat.zero_le 1⟩
    simp
  · next taken => exact ⟨(absurd · taken),flight,held,once⟩

theorem countedClosed (c : Counted o path s) {i f} (holds : s.holder = some (i,f)) (d : Draw) :
    Counted o path ((s.closed o f d).settle o path) := by
  have none' : s.stored = 0 := c.held (by rw [holds]; exact Option.some_ne_none _)
  simp only [Race.closed]
  split
  · refine countedSettled (fun i flying => ?_) (absurd rfl) ?_
    · simpa using flying
    · rw [none']
  · exact countedSettled c.flight (absurd rfl) c.once

/- While a handle is open no other handle of the path closes, so what was stored when its Create got the lock is what is
stored when it closes. -/
theorem countedTurn (s : Race) (t : Turn) (c : Counted o path s) (ok : InTime s t) : Counted o path (turn o path s t) := by
  cases t with
  | lookup i =>
    simp only [turn]
    split
    · next empty =>
      obtain ⟨zero,none'⟩ := c.vacated empty
      refine ⟨c.vacated,fun j _ => ?_,c.held,c.once⟩
      simp [zero,none']
    · exact c
  | pending i =>
    simp only [turn]
    split
    · next looked =>
      refine ⟨c.vacated,fun j flying => c.flight j ?_,c.held,c.once⟩
      rcases flying with waiting | clear
      · exact .inl (List.mem_of_mem_erase waiting)
      · split at clear
        · exact .inr clear
        · rcases List.mem_cons.mp clear with rfl | clear
          · exact .inl looked
          · exact .inr clear
    · exact c
  | lock i mode =>
    simp only [turn]
    split
    · next granted =>
      have zero : s.stored = 0 := by
        by_contra some'
        exact ok granted.1 granted.2 ((c.flight i (.inr granted.1)).mpr some')
      exact ⟨c.vacated,fun j flying => c.flight j (flying.imp_right List.mem_of_mem_erase),fun _ => zero,c.once⟩
    · exact c
  | touch t =>
    refine ⟨c.vacated,c.flight,fun open' => c.held fun idle => open' ?_,c.once⟩
    simp only [turn,idle,Option.map_none]
  | close d =>
    simp only [turn]
    split
    · next holds => exact countedClosed c holds d
    · exact c
  | other σ => exact countedSettled c.flight c.held c.once

/-- In any interleaving of Creates of one path with whatever else runs, at most one handle is stored from one time the
path has no node to the next and no Create gets the lock after one has been, exactly if no Create is overtaken. -/
theorem createsExclusiveExactly (σ : Mounted) (turns : List Turn) :
    Along (turn o path) (Exclusive o path) (raced σ) turns ↔ Along (turn o path) InTime (raced σ) turns := by
  refine alongIff countedTurn ?_ ⟨fun _ => ⟨rfl,rfl⟩,fun i flying => ?_,fun _ => rfl,Nat.zero_le 1⟩
  · intro s t c
    constructor
    · rintro ⟨_,excludes⟩
      cases t with
      | lock i mode =>
        intro clear idle late
        exact (c.flight i (.inr clear)).mp late (excludes clear idle)
      | _ => trivial
    · intro ok
      refine ⟨(countedTurn s t c ok).once,?_⟩
      cases t with
      | lock i mode =>
        intro clear idle
        by_contra some'
        exact ok clear idle ((c.flight i (.inr clear)).mpr some')
      | _ => trivial
  · rcases flying with none' | none' <;> cases none'

end

def raceJson : Json := {sampleJson with unmarshalWire := fun _ => some (sampleBlock "b").toWire, marshalWire := fun _ => some [2]}

def raceFiles : List Manifest :=
  [smallFile "sha256-0000010202" [2] "m" (20 * second) [7,2],
    smallFile "sha256-0000010203" [3] "m" (30 * second) [7,2]]

def raceMount : Ops :=
  {sampleMount .unique with
    engine := tabled raceFiles, json := raceJson, shown := List.mem_cons_self, rooted := rfl, unfiltered := rfl
    setup := {(sampleMount .unique).setup with provided := [byPath raceJson], distinct := by decide, reserved := by decide}}

def storing (i : Nat) : List Turn :=
  [.lock i 420,.touch (.writeAt [1,2] 0),.close ⟨"v",[i.toUInt8 + 1],10 * (i + 1) * second,0⟩]
def bothClear : Race :=
  after (turn raceMount "b") (raced ⟨emptyStore,initTrees raceMount.setup,[]⟩) [.lookup 1,.lookup 2,.pending 1,.pending 2]

theorem secondStored :
    idAt raceMount (after (turn raceMount "b") bothClear (storing 1)).mounted "b" = "sha256-0000010202" ∧
      idAt raceMount (after (turn raceMount "b") bothClear (storing 1 ++ storing 2)).mounted "b" = "sha256-0000010203" ∧
      (after (turn raceMount "b") bothClear (storing 1 ++ storing 2)).stored = 2 := by
  decide +kernel

end Scrinium.Fsops
