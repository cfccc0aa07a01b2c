import Mathlib.Data.List.Basic

/-! Runs of a total step function, with the states each action was taken in, and the reading of a fallible computation
that succeeded. -/
namespace Trace

section
variable {σ α : Type} {step}
def after (step : σ → α → σ) (start : σ) (actions : List α) : σ := actions.foldl step start

def visits (step : σ → α → σ) : σ → List α → List (σ × α)
  | _, [] => []
  | s, a::rest => (s,a)::visits step (step s a) rest

/-- Every action of the run meets `ok` in the state it is taken in. -/
def Along (step : σ → α → σ) (ok : σ → α → Prop) (start : σ) (actions : List α) : Prop :=
  ∀ visit ∈ visits step start actions, ok visit.1 visit.2
instance {ok : σ → α → Prop} [∀ s a, Decidable (ok s a)] (s : σ) (actions : List α) :
    Decidable (Along step ok s actions) :=
  inferInstanceAs (Decidable (∀ visit ∈ visits step s actions, ok visit.1 visit.2))

variable {q} {ok : σ → α → Prop} {start} {s : σ} {p inv : σ → Prop} {actions : List α}

theorem alongCons {a rest} :
    Along step ok s (a::rest) ↔ ok s a ∧ Along step ok (step s a) rest := by
  simp [Along,visits]

theorem alongMono {p} (h : Along step p s actions) (weaker : ∀ s a, p s a → q s a) :
    Along step q s actions :=
  fun visit mem => weaker visit.1 visit.2 (h visit mem)

theorem alongAnd {p} :
    Along step (fun s a => p s a ∧ q s a) s actions ↔ Along step p s actions ∧ Along step q s actions := by
  simp only [Along,← forall_and]

theorem alongAppend {more} :
    Along step ok s (actions ++ more) ↔ Along step ok s actions ∧ Along step ok (after step s actions) more := by
  induction actions generalizing s with
  | nil => simp [Along,visits,after]
  | cons a rest ih => rw [List.cons_append,alongCons,alongCons,ih,and_assoc]; rfl

theorem alongOfMem {p : α → Prop} (all : ∀ a ∈ actions, p a) :
    Along step (fun _ a => p a) s actions := by
  induction actions generalizing s with
  | nil => intro visit mem; contradiction
  | cons a rest ih =>
    exact alongCons.mpr ⟨all a List.mem_cons_self,ih fun b mem => all b (List.mem_cons_of_mem a mem)⟩

section
variable (keep : ∀ s a, inv s → ok s a → inv (step s a)) (initial : inv start) (run : Along step ok start actions)
include keep initial run
theorem invariantAfter : inv (after step start actions) := by
  induction actions generalizing start with
  | nil => exact initial
  | cons a rest ih =>
    obtain ⟨first, tail⟩ := alongCons.mp run
    exact ih (keep start a initial first) tail

theorem alongInvariant : Along step (fun s a => inv s ∧ ok s a) start actions := by
  induction actions generalizing start with
  | nil => intro visit mem; contradiction
  | cons a rest ih =>
    obtain ⟨first, tail⟩ := alongCons.mp run
    exact alongCons.mpr ⟨⟨initial,first⟩,ih (keep start a initial first) tail⟩

end

theorem invariantRun (keep : ∀ s a, inv s → inv (step s a)) (actions : List α) (initial : inv start) :
    inv (after step start actions) :=
  invariantAfter (fun s a h (_ : True) => keep s a h) initial fun _ _ => trivial

theorem gainedIff {gains : σ → α → Prop} (exact : ∀ s a, p (step s a) ↔ p s ∨ gains s a) :
    p (after step start actions) ↔ p start ∨ ∃ visit ∈ visits step start actions, gains visit.1 visit.2 := by
  induction actions generalizing start with
  | nil => simp [after,visits]
  | cons a rest ih =>
    have tail : after step start (a::rest) = after step (step start a) rest := rfl
    rw [tail,ih,exact,visits,List.exists_mem_cons_iff,or_assoc]

/-- Where the condition keeps the invariant and, under it, is what one action's goodness asks for, a
run is good throughout exactly when it meets the condition throughout. -/
theorem alongIff {good} (keep : ∀ s a, inv s → ok s a → inv (step s a))
    (exact : ∀ s a, inv s → (good s a ↔ ok s a)) (initial : inv start) :
    Along step good start actions ↔ Along step ok start actions := by
  induction actions generalizing start with
  | nil => simp [Along,visits]
  | cons a rest ih =>
    rw [alongCons,alongCons,exact start a initial]
    exact and_congr_right fun first => ih (keep start a initial first)

theorem everywhereIff (initial : p start) :
    (∀ n, p (after step start (actions.take n))) ↔ Along step (fun s a => p (step s a)) start actions := by
  induction actions generalizing start with
  | nil => simpa [Along,visits,after] using initial
  | cons a rest ih =>
    rw [alongCons]
    constructor
    · intro all
      have first : p (step start a) := all 1
      exact ⟨first,(ih first).mp fun n => all (n + 1)⟩
    · rintro ⟨first,tail⟩ n
      cases n with
      | zero => exact initial
      | succ n => exact (ih first).mpr tail n

theorem stillIff (keep : ∀ s a, inv s → inv (step s a)) (exact : ∀ s a, inv s → (p (step s a) ↔ p s ∧ ok s a))
    (initial : inv start) :
    p (after step start actions) ↔ p start ∧ Along step ok start actions := by
  induction actions generalizing start with
  | nil => simp [Along,visits,after]
  | cons a rest ih => rw [alongCons,← and_assoc,← exact start a initial]; exact ih (keep start a initial)

theorem constantIff {β : Type} {view : σ → β} :
    (∀ n, view (after step start (actions.take n)) = view start) ↔
      Along step (fun s a => view (step s a) = view s) start actions := by
  induction actions generalizing start with
  | nil => simp [Along,visits,after]
  | cons a rest ih =>
    rw [alongCons,← ih]
    constructor
    · intro same
      have first : view (step start a) = view start := same 1
      exact ⟨first,fun n => (same (n + 1)).trans first.symm⟩
    · rintro ⟨first,later⟩ n
      cases n with
      | zero => rfl
      | succ n => exact (later n).trans first

end

section
variable {ε α β γ : Type}

variable {x : Except ε α} {f read : α → Except ε β} {err} {items : List α}

theorem okSame {a b} (one : x = .ok a) (other : x = .ok b) : a = b := Except.ok.inj (one.symm.trans other)

theorem okSome (some' : x.toOption.isSome) : ∃ a, x = .ok a := by
  cases x with
  | error err => cases some'
  | ok a => exact ⟨a,rfl⟩

theorem someSame {o : Option α} {a b : α} (one : o = some a) (other : o = some b) : a = b :=
  Option.some.inj (one.symm.trans other)

theorem bindOk {b} :
    (x >>= f) = .ok b ↔ ∃ a, x = .ok a ∧ f a = .ok b := by
  cases x with
  | error e => simp [bind,Except.bind]
  | ok a => simp [bind,Except.bind]

theorem bindError :
    (x >>= f) = .error err ↔ x = .error err ∨ ∃ a, x = .ok a ∧ f a = .error err := by
  cases x with
  | error other => simp [bind,Except.bind]
  | ok a => simp [bind,Except.bind]

theorem bindPureError {g : α → β} :
    (x >>= fun a => pure (g a)) = .error err ↔ x = .error err := by
  cases x with
  | error other => simp [bind,Except.bind]
  | ok a => simp [bind,Except.bind,pure,Except.pure]

theorem mapErrorOk {ε ε' α : Type} {f : ε → ε'} {value : Except ε α} {a : α} :
    value.mapError f = .ok a ↔ value = .ok a := by
  cases value <;> simp [Except.mapError]

theorem foldlMOk {change : γ → β → γ} {start last : γ} :
    items.foldlM (fun acc item => do return change acc (← read item)) start = .ok last ↔
      ∃ values, items.mapM read = .ok values ∧ last = values.foldl change start := by
  induction items generalizing start with
  | nil => simp [pure,Except.pure,eq_comm]
  | cons item rest ih =>
    simp only [List.foldlM_cons,List.mapM_cons,bindOk,pure,Except.pure,Except.ok.injEq]
    constructor
    · rintro ⟨_, ⟨value, got, rfl⟩, tail⟩
      obtain ⟨values, reads, final⟩ := ih.mp tail
      exact ⟨value::values, ⟨value, got, values, reads, rfl⟩, final⟩
    · rintro ⟨_, ⟨value, got, values, reads, rfl⟩, final⟩
      exact ⟨_, ⟨value, got, rfl⟩, ih.mpr ⟨values, reads, final⟩⟩

theorem forMOk {f : α → Except ε Unit} : items.forM f = .ok () ↔ ∀ item ∈ items, f item = .ok () := by
  induction items with
  | nil => simp [pure,Except.pure]
  | cons item rest ih =>
    have first : (item::rest).forM f = (f item >>= fun _ => rest.forM f) := rfl
    rw [first,bindOk,List.forall_mem_cons,← ih]
    exact ⟨fun ⟨_,head,tail⟩ => ⟨head,tail⟩,fun h => ⟨(),h.1,h.2⟩⟩

theorem mapMMem {values} (ok : items.mapM read = .ok values) {item} (mem : item ∈ items) :
    ∃ value, read item = .ok value ∧ value ∈ values := by
  induction items generalizing values with
  | nil => contradiction
  | cons first rest ih =>
    rw [List.mapM_cons,bindOk] at ok
    obtain ⟨value,got,tail⟩ := ok
    obtain ⟨more,reads,last⟩ := bindOk.mp tail
    cases Except.ok.inj last
    rcases List.mem_cons.mp mem with rfl | later
    · exact ⟨value,got,List.mem_cons_self⟩
    · obtain ⟨found,same,inside⟩ := ih reads later
      exact ⟨found,same,List.mem_cons_of_mem value inside⟩

def verdict (x : Except ε α) : Except ε Unit := x.map fun _ => ()

theorem verdictError : verdict x = .error err ↔ x = .error err := by
  cases x with
  | error other => simp [verdict,Except.map]
  | ok a => simp [verdict,Except.map]

theorem verdictBind {y : Except ε α} {g : α → Except ε β} (same : verdict x = verdict y)
    (next : ∀ a b, x = .ok a → y = .ok b → verdict (f a) = verdict (g b)) :
    verdict (x >>= f) = verdict (y >>= g) := by
  cases x with
  | error e =>
    cases y with
    | error e' => cases same; rfl
    | ok b => cases same
  | ok a =>
    cases y with
    | error e' => cases same
    | ok b => exact next a b rfl rfl

theorem verdictFoldlM {f : γ → α → Except ε γ} (same : ∀ acc acc' item, verdict (f acc item) = verdict (f acc' item))
    (items : List α) (acc acc' : γ) : verdict (items.foldlM f acc) = verdict (items.foldlM f acc') := by
  induction items generalizing acc acc' with
  | nil => rfl
  | cons item rest ih =>
    rw [List.foldlM_cons,List.foldlM_cons]
    exact verdictBind (same acc acc' item) fun next next' _ _ => ih next next'

end

end Trace
