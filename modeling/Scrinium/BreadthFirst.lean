import Mathlib.Data.List.AList
import Mathlib.Data.Nat.Find

/-! A breadth-first walk that keeps what it has seen, the frontier and the calls it has made, with a bound on the depth. -/
namespace BreadthFirst
open List

variable {α : Type}

structure Walk (α : Type) where
  seen : List α
  frontier : List α
  calls : List (α × Nat)

def meet [DecidableEq α] (level : Nat) (w : Walk α) (n : α) : Walk α :=
  if n ∈ w.seen then w else ⟨w.seen ++ [n],w.frontier ++ [n],w.calls ++ [(n,level)]⟩

def expand [DecidableEq α] (step : α → List α) (level : Nat) (w : Walk α) : Walk α :=
  w.frontier.foldl (fun w cur => (step cur).foldl (meet level) w) {w with frontier := []}

/- None when the fuel runs out. -/
def walk [DecidableEq α] (step : α → List α) (depth : Int) : Nat → Nat → Walk α → Option (List (α × Nat))
  | 0,_,_ => none
  | fuel+1,level,w =>
    if w.frontier ≠ [] ∧ (depth ≤ 0 ∨ level ≤ depth) then walk step depth fuel (level + 1) (expand step level w)
    else some w.calls

section
variable (step : α → List α) (start : α)

def Reach : Nat → α → Prop
  | 0,n => n = start
  | k+1,n => ∃ c, Reach k c ∧ n ∈ step c

def Distance (k : Nat) (n : α) : Prop := Reach step start k n ∧ ∀ j < k, ¬ Reach step start j n

structure Exact (depth : Int) (calls : List (α × Nat)) : Prop where
  once : (calls.map Prod.fst).Nodup
  ordered : (calls.map Prod.snd).Pairwise (· ≤ ·)
  called : ∀ n k, (n,k) ∈ calls ↔ n ≠ start ∧ Distance step start k n ∧ (depth ≤ 0 ∨ k ≤ depth)

/-- What holds when the loop has called every node up to distance k: the frontier is the last of these layers. -/
structure Layer (k : Nat) (w : Walk α) : Prop where
  seen : w.seen = start::w.calls.map Prod.fst
  once : w.seen.Nodup
  frontier : ∀ n, n ∈ w.frontier ↔ Distance step start k n
  called : ∀ n j, (n,j) ∈ w.calls ↔ 0 < j ∧ j ≤ k ∧ Distance step start j n
  ordered : (w.calls.map Prod.snd).Pairwise (· ≤ ·)
  grown : k ≤ w.seen.length
  growing : w.frontier ≠ [] → k < w.seen.length

end

variable {step : α → List α} {start : α} {depth : Int} {k n w}

theorem nearer (reach : Reach step start k n) : ∃ j ≤ k, Distance step start j n := by
  classical
  have some : ∃ j, Reach step start j n := ⟨k,reach⟩
  exact ⟨Nat.find some,Nat.find_min' some reach,Nat.find_spec some,fun j => Nat.find_min some⟩

theorem before (dist : Distance step start (k + 1) n) : ∃ c, Distance step start k c ∧ n ∈ step c := by
  obtain ⟨⟨c,reach,edge⟩,least⟩ := dist
  exact ⟨c,⟨reach,fun j less sooner => least (j + 1) (Nat.succ_lt_succ less) ⟨c,sooner,edge⟩⟩,edge⟩

theorem between {d} (dist : Distance step start (k + d) n) : ∃ c, Distance step start k c := by
  induction d generalizing n with
  | zero => exact ⟨n,dist⟩
  | succ d ih =>
    obtain ⟨c,nearer,_⟩ := before dist
    exact ih nearer

theorem distanceStart : Distance step start k start ↔ k = 0 := by
  constructor
  · intro dist
    by_contra positive
    exact dist.2 0 (Nat.pos_of_ne_zero positive) rfl
  · rintro rfl
    exact ⟨rfl,by simp⟩

theorem layerStart : Layer step start 0 ⟨[start],[start],[]⟩ where
  seen := rfl
  once := nodup_singleton start
  frontier n := by
    rw [mem_singleton]
    exact ⟨fun here => here ▸ distanceStart.mpr rfl,And.left⟩
  called n j := by grind
  ordered := .nil
  grown := Nat.zero_le _
  growing _ := Nat.one_pos

theorem Layer.seenIff (layer : Layer step start k w) : n ∈ w.seen ↔ ∃ j ≤ k, Reach step start j n := by
  rw [layer.seen,mem_cons,mem_map]
  constructor
  · rintro (rfl | ⟨⟨m,j⟩,mem,rfl⟩)
    · exact ⟨0,Nat.zero_le k,rfl⟩
    · obtain ⟨_,most,dist⟩ := (layer.called m j).mp mem
      exact ⟨j,most,dist.1⟩
  · rintro ⟨j,most,reach⟩
    obtain ⟨i,less,dist⟩ := nearer reach
    rcases Nat.eq_zero_or_pos i with rfl | positive
    · exact .inl dist.1
    · exact .inr ⟨(n,i),(layer.called n i).mpr ⟨positive,Nat.le_trans less most,dist⟩,rfl⟩

theorem Layer.done (layer : Layer step start k w) (within : depth ≤ 0 ∨ k ≤ depth)
    (ends : ¬ (w.frontier ≠ [] ∧ (depth ≤ 0 ∨ (k + 1 : Nat) ≤ depth))) : Exact step start depth w.calls := by
  refine ⟨(nodup_cons.mp (layer.seen ▸ layer.once)).2,layer.ordered,fun n j => ?_⟩
  rw [layer.called]
  constructor
  · rintro ⟨positive,most,dist⟩
    refine ⟨?_,dist,by omega⟩
    rintro rfl
    exact Nat.ne_of_gt positive (distanceStart.mp dist)
  · rintro ⟨other,dist,bound⟩
    have positive : j ≠ 0 := by
      rintro rfl
      exact other dist.1
    refine ⟨Nat.pos_of_ne_zero positive,?_,dist⟩
    by_contra beyond
    obtain ⟨d,rfl⟩ := Nat.exists_eq_add_of_lt (Nat.lt_of_not_le beyond)
    obtain ⟨c,last⟩ := between (k := k) (d := d + 1) dist
    exact ends ⟨ne_nil_of_mem ((layer.frontier c).mpr last),by omega⟩

variable [DecidableEq α]

theorem meetAll (level : Nat) (ns : List α) (w : Walk α) :
    ∃ new : List α, new.Nodup ∧ (∀ n, n ∈ new ↔ n ∈ ns ∧ n ∉ w.seen) ∧
      ns.foldl (meet level) w = ⟨w.seen ++ new,w.frontier ++ new,w.calls ++ new.map fun n => (n,level)⟩ := by
  induction ns generalizing w with
  | nil => exact ⟨[],by simp⟩
  | cons n rest ih =>
    obtain ⟨new,nodup,mem,same⟩ := ih (meet level w n)
    rw [foldl_cons,same]
    by_cases known : n ∈ w.seen
    · rw [meet,if_pos known] at mem ⊢
      exact ⟨new,nodup,by grind,rfl⟩
    · rw [meet,if_neg known] at mem ⊢
      exact ⟨n::new,by grind,by grind,by simp⟩

theorem Layer.next (layer : Layer step start k w) (more : w.frontier ≠ []) :
    Layer step start (k + 1) (expand step (k + 1) w) := by
  obtain ⟨new,nodup,mem,same⟩ := meetAll (k + 1) (w.frontier.flatMap step) {w with frontier := []}
  have layered : ∀ n, n ∈ new ↔ Distance step start (k + 1) n := by
    intro n
    rw [mem,mem_flatMap,layer.seenIff]
    constructor
    · rintro ⟨⟨c,mem,edge⟩,fresh⟩
      exact ⟨⟨c,((layer.frontier c).mp mem).1,edge⟩,fun j less reach => fresh ⟨j,Nat.le_of_lt_succ less,reach⟩⟩
    · intro dist
      obtain ⟨c,nearer,edge⟩ := before dist
      exact ⟨⟨c,(layer.frontier c).mpr nearer,edge⟩,fun ⟨j,most,reach⟩ => dist.2 j (Nat.lt_succ_of_le most) reach⟩
  have called : ∀ n j, (n,j) ∈ w.calls ++ new.map (fun n => (n,k + 1)) ↔ 0 < j ∧ j ≤ k + 1 ∧ Distance step start j n := by
    intro n j
    rw [mem_append,layer.called,mem_map]
    constructor
    · rintro (⟨positive,most,dist⟩ | ⟨m,fresh,same⟩)
      · exact ⟨positive,Nat.le_succ_of_le most,dist⟩
      · cases same
        exact ⟨Nat.succ_pos k,Nat.le_refl _,(layered n).mp fresh⟩
    · rintro ⟨positive,most,dist⟩
      rcases Nat.le_succ_iff.mp most with less | rfl
      · exact .inl ⟨positive,less,dist⟩
      · exact .inr ⟨n,(layered n).mpr dist,rfl⟩
  have growing := layer.growing more
  rw [expand,← foldl_flatMap,same]
  refine ⟨by simp [layer.seen,Function.comp_def],?_,layered,called,?_,?_,fun found => ?_⟩
  · exact layer.once.append nodup fun n old fresh => ((mem n).mp fresh).2 old
  · rw [map_append,pairwise_append]
    refine ⟨layer.ordered,by simp [Function.comp_def,pairwise_replicate],?_⟩
    intro i old j fresh
    obtain ⟨⟨n,i⟩,earlier,rfl⟩ := mem_map.mp old
    have most := ((layer.called n i).mp earlier).2.1
    simp only [map_map,mem_map] at fresh
    obtain ⟨_,_,rfl⟩ := fresh
    exact Nat.le_succ_of_le most
  · simp only [length_append]
    omega
  · have positive : 0 < new.length := length_pos_of_ne_nil found
    simp only [length_append]
    omega

/-- Over a finite graph the walk ends, and has then called what it should. -/
theorem walked {nodes : List α} (finite : ∀ c, step c ⊆ nodes) (depth : Int) (start : α) :
    ∃ enough calls, Exact step start depth calls ∧
      ∀ fuel, enough ≤ fuel → walk step depth fuel 1 ⟨[start],[start],[]⟩ = some calls := by
  -- The induction is on what is left of the nodes; a layer takes at least one.
  suffices run : ∀ room k w, Layer step start k w → (depth ≤ 0 ∨ k ≤ depth) → nodes.length + 2 = room + k →
      ∃ calls, Exact step start depth calls ∧ ∀ fuel, room ≤ fuel → walk step depth fuel (k + 1) w = some calls from
    ⟨_,run (nodes.length + 2) 0 _ layerStart (Int.le_total depth 0) rfl⟩
  intro room
  induction room with
  | zero =>
    intro k w layer _ full
    have inside : w.seen ⊆ start::nodes := by
      intro n mem
      obtain ⟨j,_,reach⟩ := layer.seenIff.mp mem
      cases j with
      | zero => exact mem_cons.mpr (.inl reach)
      | succ j =>
        obtain ⟨c,_,edge⟩ := reach
        exact mem_cons_of_mem start (finite c edge)
    have bounded := (subperm_of_subset layer.once inside).length_le
    have grown := layer.grown
    rw [length_cons] at bounded
    omega
  | succ room ih =>
    intro k w layer within left
    by_cases more : w.frontier ≠ [] ∧ (depth ≤ 0 ∨ (k + 1 : Nat) ≤ depth)
    · obtain ⟨calls,exact,run⟩ := ih (k + 1) _ (layer.next more.1) more.2 (by omega)
      refine ⟨calls,exact,fun fuel enough => ?_⟩
      obtain ⟨fuel,rfl⟩ := Nat.exists_eq_add_of_le' enough
      rw [← Nat.add_assoc,walk,if_pos more]
      exact run _ (by omega)
    · refine ⟨w.calls,layer.done within more,fun fuel enough => ?_⟩
      obtain ⟨fuel,rfl⟩ := Nat.exists_eq_add_of_le' enough
      rw [← Nat.add_assoc,walk,if_neg more]

end BreadthFirst
