import Scrinium.Domain
import Scrinium.Keyed
import Scrinium.Trace

/-! The namespace registry (x/namespace/registry.go, veto.go) under concurrent calls. -/
namespace Scrinium.Registry
open List hiding after
open Keyed Domain Trace Function

/- NamespaceID to name. -/
abbrev Entries := Table String String
def maxNamespaceLen : Nat := 255
def namespaceWildcard : String := "*"
def registryKeep : Nat := 8

def validateName (name : String) : Except Error Unit :=
  if name = "" then .error (.other "namespace: empty name")
  else if maxNamespaceLen < name.utf8ByteSize then .error (.other "namespace too long")
  else if name = namespaceWildcard then .error (.other "namespace: \"*\" is reserved")
  else .ok ()

structure RangeOrder where
  arrange : List (Sigma fun _ : String => String) → List (Sigma fun _ : String => String)
  perm : ∀ entries, (arrange entries).Perm entries

section
variable (order : RangeOrder) (snap : Entries)
def name (id : String) : Option String := snap.lookup id

/- byName is filled in the order of a range; the last id of a name stays. -/
def resolve (wanted : String) : Option String :=
  ((order.arrange snap.entries).reverse.find? fun entry => entry.2 = wanted).map Sigma.fst

def bind (nameOrID : String) : Option String :=
  match resolve order snap nameOrID with
  | some id => some id
  | none => if nameOrID ∈ snap then some nameOrID else none

end

def Sane (snap : Entries) : Prop :=
  (∀ entry ∈ snap.entries, validateName entry.2 = .ok ()) ∧
    ∀ entry ∈ snap.entries, ∀ other ∈ snap.entries, entry.2 = other.2 → entry.1 = other.1
instance (snap : Entries) : Decidable (Sane snap) := by unfold Sane; infer_instance

def validateSystemWrite (snap : Entries) : Except Error Unit :=
  if Sane snap then .ok () else .error (.other "namespace registry: rejected write")

inductive Change where
  | created (id name : String)
  | removed (name : String)
  deriving DecidableEq

inductive Stage where
  | unused
  | writing (read next : Entries) (change : Change)
  | done (outcome : Except Error Change)

/- The versions, newest first, the calls, and the namespaces created whose names no Delete has removed since. -/
structure State where
  versions : List Entries
  calls : Nat → Stage
  promised : List (String × String)

def State.start : State := ⟨[],fun _ => .unused,[]⟩
def load (s : State) : Entries := s.versions.headD ∅
def State.set (s : State) (k : Nat) (stage : Stage) : State := {s with calls := update s.calls k stage}

def create (mint : Nat → String) (snap : Entries) (k : Nat) (wanted : String) : Stage :=
  match validateName wanted with
  | .error err => .done (.error err)
  | .ok () =>
    if snap.entries.any fun entry => entry.2 = wanted then .done (.error .alreadyExists)
    else .writing snap (snap.insert (mint k) wanted) (.created (mint k) wanted)

def delete (order : RangeOrder) (snap : Entries) (wanted : String) : Stage :=
  match (order.arrange snap.entries).find? fun entry => entry.2 = wanted with
  | none => .done (.error .artifactNotFound)
  | some entry => .writing snap (snap.erase entry.1) (.removed wanted)

def Change.promise (promised : List (String × String)) : Change → List (String × String)
  | .created id name => (id,name)::promised
  | .removed name => promised.filter fun entry => entry.2 ≠ name

def persist (s : State) (k : Nat) (next : Entries) (change : Change) : State :=
  match validateSystemWrite next with
  | .error err => s.set k (.done (.error err))
  | .ok () =>
    ⟨(next::s.versions).take registryKeep,update s.calls k (.done (.ok change)),change.promise s.promised⟩

inductive Action where
  | create (k : Nat) (name : String)
  | delete (k : Nat) (order : RangeOrder) (name : String)
  | persist (k : Nat)

def step (mint : Nat → String) (s : State) : Action → State
  | .create k wanted => match s.calls k with
    | .unused => s.set k (create mint (load s) k wanted)
    | _ => s
  | .delete k order wanted => match s.calls k with
    | .unused => s.set k (delete order (load s) wanted)
    | _ => s
  | .persist k => match s.calls k with
    | .writing _ next change => persist s k next change
    | _ => s

def Visible (s : State) : Prop := ∀ entry ∈ s.promised, name (load s) entry.1 = some entry.2

structure Inverse (snap : Entries) : Prop where
  resolved : ∀ order id wanted, resolve order snap wanted = some id ↔ name snap id = some wanted
  bound : ∀ order id wanted, name snap id = some wanted → bind order snap wanted = some id
  single : ∀ id other wanted, name snap id = some wanted → name snap other = some wanted → id = other

def Spares (s : State) : Action → Prop
  | .persist k => match s.calls k with
    | .writing read _ change => ∀ entry ∈ s.promised, change ≠ .removed entry.2 → name read entry.1 = some entry.2
    | _ => True
  | _ => True
instance (s : State) (a : Action) : Decidable (Spares s a) := by
  unfold Spares
  split
  · split <;> infer_instance
  · infer_instance

section
variable {snap}
theorem saneIff : Sane snap ↔ ∀ id wanted, name snap id = some wanted →
    validateName wanted = .ok () ∧ ∀ other, name snap other = some wanted → id = other := by
  constructor
  · rintro ⟨valid,single⟩ id wanted found
    refine ⟨valid _ (lookupEntry.mp found),fun other found' => ?_⟩
    exact single _ (lookupEntry.mp found) _ (lookupEntry.mp found') rfl
  · intro sane
    refine ⟨fun entry mem => (sane entry.1 entry.2 (lookupEntry.mpr mem)).1,fun entry mem other mem' same => ?_⟩
    exact (sane entry.1 entry.2 (lookupEntry.mpr mem)).2 other.1 (same ▸ lookupEntry.mpr mem')

theorem saneEmpty : Sane ∅ := ⟨nofun,nofun⟩

variable {wanted}

theorem saneInsert (sane : Sane snap) {id} (valid : validateName wanted = .ok ())
    (new : ∀ other, name snap other ≠ some wanted) : Sane (snap.insert id wanted) := by
  rw [saneIff] at sane ⊢
  simp only [name,lookupInsert] at sane new ⊢
  intro other text found
  split at found
  · next here =>
    cases found
    refine ⟨valid,fun third found' => ?_⟩
    split at found'
    · next here' => exact here.trans here'.symm
    · exact absurd found' (new third)
  · refine ⟨(sane other text found).1,fun third found' => ?_⟩
    split at found'
    · cases found'
      exact absurd found (new other)
    · exact (sane other text found).2 third found'

theorem saneErase (sane : Sane snap) (id : String) : Sane (snap.erase id) := by
  rw [saneIff] at sane ⊢
  simp only [name,lookupErase] at sane ⊢
  intro other text found
  split at found
  · cases found
  refine ⟨(sane other text found).1,fun third found' => ?_⟩
  split at found'
  · cases found'
  · exact (sane other text found).2 third found'

theorem foundEntry {entries : List (Sigma fun _ : String => String)} (perm : entries.Perm snap.entries)
    {entry} (found : entries.find? (fun entry => entry.2 = wanted) = some entry) :
    name snap entry.1 = some wanted := by
  have same : entry.2 = wanted := by simpa using List.find?_some found
  exact lookupEntry.mpr (same ▸ perm.mem_iff.mp (mem_of_find?_eq_some found))

theorem saneInverse (sane : Sane snap) : Inverse snap := by
  have single := saneIff.mp sane
  have resolved : ∀ order id wanted, resolve order snap wanted = some id ↔ name snap id = some wanted := by
    intro order id wanted
    have perm : (order.arrange snap.entries).reverse.Perm snap.entries := (reverse_perm _).trans (order.perm _)
    constructor
    · intro found
      obtain ⟨entry,first,rfl⟩ := Option.map_eq_some_iff.mp found
      exact foundEntry perm first
    · intro known
      cases first : (order.arrange snap.entries).reverse.find? fun entry => entry.2 = wanted with
      | none =>
        have mem := perm.mem_iff.mpr (lookupEntry.mp known)
        simpa using List.find?_eq_none.mp first _ mem
      | some entry =>
        rw [resolve,first,(single id wanted known).2 entry.1 (foundEntry perm first)]
        rfl
  refine ⟨resolved,fun order id wanted known => ?_,fun id other wanted known => (single id wanted known).2 other⟩
  rw [bind,(resolved order id wanted).mpr known]

end

section
variable {mint s}
inductive Pending (mint : Nat → String) (k : Nat) (read : Entries) : Entries → Change → Prop where
  | created (wanted : String) : Pending mint k read (read.insert (mint k) wanted) (.created (mint k) wanted)
  | removed {id wanted : String} (known : name read id = some wanted) : Pending mint k read (read.erase id) (.removed wanted)

structure Inv (mint : Nat → String) (s : State) : Prop where
  sane : Sane (load s)
  pending : ∀ {k read next change}, s.calls k = .writing read next change → Sane next ∧ Pending mint k read next change
  finished : ∀ entry ∈ s.promised, ∃ k outcome, entry.1 = mint k ∧ s.calls k = .done outcome

theorem invStart (mint : Nat → String) : Inv mint .start := ⟨saneEmpty,nofun,nofun⟩

variable {k wanted read next change}

theorem createPends (sane : Sane (load s)) (made : create mint (load s) k wanted = .writing read next change) :
    Sane next ∧ Pending mint k read next change := by
  unfold create at made
  split at made
  · cases made
  next valid =>
  split at made
  · cases made
  next new =>
  cases made
  refine ⟨saneInsert sane valid fun other found => new ?_,.created wanted⟩
  exact any_eq_true.mpr ⟨_,lookupEntry.mp found,by simp⟩

theorem deletePends (sane : Sane (load s)) {order} (made : delete order (load s) wanted = .writing read next change) :
    Sane next ∧ Pending mint k read next change := by
  unfold delete at made
  split at made
  · cases made
  next entry found =>
    cases made
    exact ⟨saneErase sane entry.1,.removed (foundEntry (order.perm _) found)⟩

theorem invSet (inv : Inv mint s) {stage} (unused : s.calls k = .unused)
    (pends : ∀ {read next change}, stage = .writing read next change → Sane next ∧ Pending mint k read next change) :
    Inv mint (s.set k stage) where
  sane := inv.sane
  pending := by
    intro other read next change at'
    simp only [State.set,update_apply] at at'
    split at at'
    · next here => exact here ▸ pends at'
    · exact inv.pending at'
  finished := by
    intro entry mem
    obtain ⟨other,outcome,same,done⟩ := inv.finished entry mem
    have away : other ≠ k := by
      rintro rfl
      rw [unused] at done
      cases done
    exact ⟨other,outcome,same,(update_of_ne away _ _).trans done⟩

theorem persisted (sane : Sane next) (change : Change) :
    persist s k next change =
      ⟨(next::s.versions).take registryKeep,update s.calls k (.done (.ok change)),change.promise s.promised⟩ := by
  rw [persist,validateSystemWrite,if_pos sane]

theorem invPersist (inv : Inv mint s) (at' : s.calls k = .writing read next change) :
    Inv mint (persist s k next change) := by
  obtain ⟨sane,pending⟩ := inv.pending at'
  rw [persisted sane]
  refine ⟨sane,fun {other} _ _ _ later => ?_,fun entry mem => ?_⟩
  · simp only [update_apply] at later
    split at later
    · cases later
    · exact inv.pending later
  · have old : entry ∈ s.promised → ∃ k' outcome, entry.1 = mint k' ∧
        update s.calls k (.done (.ok change)) k' = .done outcome := by
      intro mem
      obtain ⟨other,outcome,same,done⟩ := inv.finished entry mem
      refine ⟨other,?_⟩
      by_cases here : other = k
      · exact ⟨_,same,by rw [here,update_self]⟩
      · exact ⟨outcome,same,(update_of_ne here _ _).trans done⟩
    cases pending with
    | created wanted =>
      rcases mem_cons.mp mem with rfl | mem
      · exact ⟨k,_,rfl,update_self _ _ _⟩
      · exact old mem
    | removed known => exact old (mem_of_mem_filter mem)

theorem invStep (inv : Inv mint s) (a : Action) : Inv mint (step mint s a) := by
  cases a with
  | create k wanted =>
    simp only [step]
    split
    · next unused => exact invSet inv unused fun made => createPends inv.sane made
    · exact inv
  | delete k order wanted =>
    simp only [step]
    split
    · next unused => exact invSet inv unused fun made => deletePends inv.sane made
    · exact inv
  | persist k =>
    simp only [step]
    split
    · next read next change at' => exact invPersist inv at'
    · exact inv

theorem pendingName (fresh : Injective mint) (inv : Inv mint s) (at' : s.calls k = .writing read next change)
    {entry} (mem : entry ∈ s.promised) (spared : change ≠ .removed entry.2) :
    name next entry.1 = some entry.2 ↔ name read entry.1 = some entry.2 := by
  obtain ⟨k',outcome,minted,done⟩ := inv.finished entry mem
  cases (inv.pending at').2 with
  | created wanted =>
    have away : entry.1 ≠ mint k := by
      intro same
      cases fresh (minted.symm.trans same)
      rw [at'] at done
      cases done
    rw [name,name,lookupInsert,if_neg away]
  | @removed id wanted known =>
    rw [name,name,lookupErase]
    split
    · next here =>
      have other : read.lookup entry.1 = some wanted := here ▸ known
      rw [other]
      exact iff_of_false nofun fun same => spared (by rw [Option.some.inj same])
    · rfl

theorem visibleStep (fresh : Injective mint) (inv : Inv mint s) (visible : Visible s) (a : Action) :
    Visible (step mint s a) ↔ Spares s a := by
  cases a with
  | create k wanted =>
    refine iff_of_true ?_ trivial
    simp only [step]
    split <;> exact visible
  | delete k order wanted =>
    refine iff_of_true ?_ trivial
    simp only [step]
    split <;> exact visible
  | persist k =>
    simp only [step,Spares]
    cases at' : s.calls k with
    | unused => exact iff_of_true visible trivial
    | done outcome => exact iff_of_true visible trivial
    | writing read next change =>
      simp only
      rw [persisted (inv.pending at').1]
      constructor
      · intro later entry mem spared
        refine (pendingName fresh inv at' mem spared).mp (later entry ?_)
        cases change with
        | created id wanted => exact mem_cons_of_mem _ mem
        | removed wanted => 
          have other : entry.2 ≠ wanted := fun same => spared (by rw [same])
          exact mem_filter.mpr ⟨mem,decide_eq_true other⟩
      · intro spares entry mem
        have old : entry ∈ s.promised → change ≠ .removed entry.2 → name next entry.1 = some entry.2 := fun mem spared =>
          (pendingName fresh inv at' mem spared).mpr (spares entry mem spared)
        cases (inv.pending at').2 with
        | created wanted =>
          rcases mem_cons.mp mem with rfl | mem
          · exact (lookupInsert _ _ _ _).trans (if_pos rfl)
          · exact old mem nofun
        | removed known =>
          obtain ⟨mem,kept⟩ := mem_filter.mp mem
          exact old mem fun same => (of_decide_eq_true kept) (Change.removed.inj same).symm

/-- Whatever the calls, no two live ids share a name and Bind, Resolve and Name invert one another; every created
namespace stays visible until its name is deleted exactly if each call that persists has read all of them. -/
theorem visibleExactly (fresh : Injective mint) (actions : List Action) :
    (∀ n, Inverse (load (after (step mint) .start (actions.take n)))) ∧
      ((∀ n, Visible (after (step mint) .start (actions.take n))) ↔ Along (step mint) Spares .start actions) := by
  have start : Inv mint .start ∧ Visible .start := ⟨invStart mint,nofun⟩
  have reached : ∀ n, Inv mint (after (step mint) .start (actions.take n)) := fun n =>
    invariantRun (fun (s : State) a (inv : Inv mint s) => invStep inv a) (actions.take n) start.1
  refine ⟨fun n => saneInverse (reached n).sane,?_⟩
  rw [everywhereIff (p := Visible) start.2]
  have exact' : ∀ s a, Inv mint s ∧ Visible s → (Visible (step mint s a) ↔ Spares s a) := fun s a both =>
    visibleStep fresh both.1 both.2 a
  exact alongIff (fun s a both spares => ⟨invStep both.1 a,(exact' s a both).mpr spares⟩) exact' start

end

def numbered (k : Nat) : String := String.ofList (List.replicate k 'i')

theorem numberedFresh : Injective numbered := fun _ _ same => by
  simpa [numbered] using congrArg String.length same

def overlapping : List Action := [.create 1 "a",.create 2 "b",.persist 1,.persist 2]

theorem firstCreateLost :
    (after (step numbered) .start overlapping).promised = [("ii","b"),("i","a")] ∧
      name (load (after (step numbered) .start overlapping)) "i" = none := by
  decide +kernel

theorem serialCreatesStay :
    Visible (after (step numbered) .start ([.create 1 "a",.persist 1,.create 2 "b",.persist 2].take 4)) :=
  (visibleExactly numberedFresh _).2.mpr (by decide +kernel) 4

end Scrinium.Registry
