import Mathlib.Data.List.Basic

/-! A table of the fields of a configuration record: validation, defaulting and comparison of whole records are one pass
over the table. -/
namespace FieldKit

section
variable {T ε : Type} [Inhabited T] [DecidableEq T]
def orElse (v fallback : T) : T := if v = default then fallback else v
def listText (render : T → String) (values : List T) : String := "[" ++ " ".intercalate (values.map render) ++ "]"

def enum (fail : String → ε) (render : T → String) (allowed : List T) (v : T) : Except ε Unit :=
  if v = default then .ok ()
  else if v ∈ allowed then .ok ()
  else .error (fail ("got " ++ render v ++ ", want one of " ++ listText render allowed))

variable [LT T] [DecidableLT T]

section
variable (fail : String → ε) (render : T → String) (name : String)
def minVal (min v : T) : Except ε Unit :=
  if v ≠ default ∧ v < min then
    .error (fail (name ++ "=" ++ render v ++ " below minimum " ++ render min))
  else .ok ()

def maxVal (max v : T) : Except ε Unit :=
  if v ≠ default ∧ max < v then
    .error (fail (name ++ "=" ++ render v ++ " above maximum " ++ render max))
  else .ok ()

def rangeVal (min max v : T) : Except ε Unit :=
  if v ≠ default ∧ (v < min ∨ max < v) then
    .error (fail (name ++ "=" ++ render v ++ " out of range [" ++ render min ++ ", " ++ render max ++ "]"))
  else .ok ()

def nonNegative (v : T) : Except ε Unit :=
  if v < default then .error (fail (name ++ "=" ++ render v ++ " is negative")) else .ok ()

end

def withSentinel (check : T → Except ε Unit) (sentinel : ε) (v : T) : Except ε Unit :=
  match check v with
  | .error _ => .error sentinel
  | .ok () => .ok ()

omit [LT T] [DecidableLT T] in
theorem enumOk {fail : String → ε} {render : T → String} {allowed : List T} {v : T} :
    enum fail render allowed v = .ok () ↔ v ∈ default::allowed := by
  unfold enum
  rw [List.mem_cons]
  by_cases empty : v = default
  · simp [empty]
  · by_cases known : v ∈ allowed
    · simp [empty,known]
    · simp [empty,known]

theorem maxValOk {fail : String → ε} {render : T → String} {name : String} {max v : T} :
    maxVal fail render name max v = .ok () ↔ v = default ∨ ¬ max < v := by
  unfold maxVal
  by_cases empty : v = default
  · simp [empty]
  · by_cases above : max < v
    · simp [empty,above]
    · simp [empty,above]

end

/-- One typed row over the records `C`. A conditional default, where there is one, replaces the
plain one; a plain default equal to the type's own is none. -/
structure Field (C T K ε : Type) [Inhabited T] where
  name : String
  kind : K
  get : C → T
  set : C → T → C
  check : Option (T → Except ε Unit) := none
  render : T → String
  defaultTo : T := default
  defaultFn : Option (C → Option T) := none
  setGet : ∀ c, set c (get c) = c := by intros; rfl

structure Desc (C K ε : Type) where
  name : String
  kind : K
  validate : C → Except ε Unit
  diverges : C → C → Option String
  applyDefault : C → C

section
variable {C T K ε : Type} [Inhabited T] [DecidableEq T]

namespace Field

section
variable (f : Field C T K ε)
def validate (c : C) : Except ε Unit :=
  match f.check with
  | none => .ok ()
  | some check => check (f.get c)

def diverges (req active : C) : Option String :=
  if f.get req = default ∨ f.get req = f.get active then none
  else some (f.name ++ ": requested " ++ f.render (f.get req) ++ ", active " ++ f.render (f.get active))

def applyDefault (c : C) : C :=
  match f.defaultFn with
  | some fill =>
    match fill c with
    | some v => f.set c v
    | none => c
  | none => if f.defaultTo ≠ default ∧ f.get c = default then f.set c f.defaultTo else c

def desc : Desc C K ε := ⟨f.name,f.kind,f.validate,f.diverges,f.applyDefault⟩

def filled (c : C) : T :=
  match f.defaultFn with
  | some fill => (fill c).getD (f.get c)
  | none => if f.defaultTo ≠ default ∧ f.get c = default then f.defaultTo else f.get c

theorem applyDefaultSet (c : C) : f.applyDefault c = f.set c (f.filled c) := by
  unfold applyDefault filled
  cases f.defaultFn with
  | none =>
    simp only
    split
    · rfl
    · exact (f.setGet c).symm
  | some fill =>
    cases found : fill c with
    | none => simp only [found,Option.getD_none]; exact (f.setGet c).symm
    | some v => simp only [found,Option.getD_some]

theorem plainDefault (plain : f.defaultFn = none) (fills : f.defaultTo ≠ default) (c : C) :
    f.applyDefault c = f.set c (orElse (f.get c) f.defaultTo) := by
  rw [applyDefaultSet]
  congr 1
  unfold filled orElse
  rw [plain]
  simp [fills]

theorem noDefault (plain : f.defaultFn = none) (empty : f.defaultTo = default) (c : C) : f.applyDefault c = c := by
  unfold applyDefault
  rw [plain]
  simp [empty]

theorem conditionalDefault (v : T) {ask : C → Bool}
    (fill : f.defaultFn = some fun c => if f.get c = default ∧ ask c then some v else none) {c : C} {asked : Bool}
    (same : ask c = asked) : f.applyDefault c = f.set c (if asked then orElse (f.get c) v else f.get c) := by
  rw [applyDefaultSet,← same]
  congr 1
  unfold filled orElse
  rw [fill]
  simp only
  cases ask c with
  | false => simp
  | true => simp only [and_true,if_true]; split <;> rfl

theorem promotedDefault (v : T) (fill : f.defaultFn = some fun c => if f.get c = default then some v else none) (c : C) :
    f.applyDefault c = f.set c (orElse (f.get c) v) := by
  rw [applyDefaultSet]
  congr 1
  unfold filled orElse
  rw [fill]
  simp only
  split <;> rfl

theorem overlaid (v : T) (c : C) : (if v ≠ default then f.set c v else c) = f.set c (orElse v (f.get c)) := by
  unfold orElse
  by_cases empty : v = default
  · rw [if_neg (not_not.mpr empty),if_pos empty,f.setGet]
  · rw [if_pos empty,if_neg empty]

end

theorem divergesNone {f : Field C T K ε} {req active} :
    f.diverges req active = none ↔ f.get req = default ∨ f.get req = f.get active := by
  unfold diverges
  split
  · next same => exact ⟨fun _ => same,fun _ => rfl⟩
  · next differ => exact ⟨fun h => (Option.some_ne_none _ h).elim,fun h => absurd h differ⟩

end Field

end

section
variable {C K ε : Type}
def validateAll (table : List (Desc C K ε)) (c : C) : Except ε Unit := table.forM fun row => row.validate c
def applyDefaults (table : List (Desc C K ε)) (c : C) : C := table.foldl (fun c row => row.applyDefault c) c

variable [DecidableEq K]

def divergentByClass (table : List (Desc C K ε)) (kind : K) (req active : C) : List String :=
  table.filterMap fun row => if row.kind = kind then row.diverges req active else none

def mismatchAgainst (fail : String → ε) (table : List (Desc C K ε)) (kind : K) (req active : C) : Except ε Unit :=
  match divergentByClass table kind req active with
  | [] => .ok ()
  | mismatches => .error (fail ("; ".intercalate mismatches))

theorem mismatchNone {fail} {table : List (Desc C K ε)} {kind req active} :
    mismatchAgainst fail table kind req active = .ok () ↔
      ∀ row ∈ table.filter (fun row => row.kind = kind), row.diverges req active = none := by
  have empty : mismatchAgainst fail table kind req active = .ok () ↔ divergentByClass table kind req active = [] := by
    unfold mismatchAgainst
    split
    · next none => exact ⟨fun _ => none,fun _ => rfl⟩
    · next some' => exact ⟨nofun,fun h => absurd h some'⟩
  rw [empty,divergentByClass,List.filterMap_eq_nil_iff]
  simp only [List.mem_filter,decide_eq_true_eq,and_imp,ite_eq_right_iff]

end

end FieldKit
