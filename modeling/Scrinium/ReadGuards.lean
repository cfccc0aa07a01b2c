import Scrinium.Domain

/-! The size cap of a Put (put_limit.go), over every reader that keeps to io.Reader. -/
namespace Scrinium.ReadGuards
open Domain

inductive ReadEnd where
  | more
  | eof
  | failed (err : Error)
  deriving DecidableEq

/- An io.Reader with a payload of its own. It answers within the buffer, and only finitely many reads say nothing. -/
structure Source (σ : Type) where
  read : σ → Nat → σ × Bytes × ReadEnd
  rest : σ → Bytes
  turns : σ → Nat
  fits : ∀ s p, (read s p).2.1.length ≤ p
  gives : ∀ s p, rest s = (read s p).2.1 ++ rest (read s p).1
  ends : ∀ s p, (read s p).2.2 = .eof → rest (read s p).1 = []
  halts : ∀ s p, (read s p).2.2 = .more → turns (read s p).1 + min p 1 ≤ turns s

structure LimitGuard (σ : Type) where
  r : σ
  left : Int

def int64 (n : Int) : Int := n.bmod (2 ^ 64)

variable {σ : Type} (r : Source σ)

/- limitGuard.Read with a buffer of p bytes; `none` is the panic of the slice expression p[:max]. -/
def LimitGuard.read (g : LimitGuard σ) (p : Nat) : Option (LimitGuard σ × Bytes × ReadEnd) :=
  if g.left < 0 then some (g,[],.failed .artifactTooLarge)
  else
    let max := int64 (g.left + 1)
    if max < 0 then none
    else
      let answer := r.read g.r (if max < p then max.toNat else p)
      let left := int64 (g.left - answer.2.1.length)
      some (⟨answer.1,left⟩,answer.2.1,if left < 0 then .failed .artifactTooLarge else answer.2.2)

inductive Drained where
  | reading
  | ended (got : Bytes) (err : ReadEnd)
  | panicked
  deriving DecidableEq

def drain : List Nat → LimitGuard σ → Bytes → Drained
  | [],_,_ => .reading
  | p::rest,g,got =>
    match g.read r p with
    | none => .panicked
    | some (g,data,.more) => drain rest g (got ++ data)
    | some (_,data,err) => .ended (got ++ data) err

def Exact (limit : Int) (payload : Bytes) : Drained → Prop
  | .ended got .eof => got = payload ∧ payload.length ≤ limit
  | .ended _ (.failed err) => err = .artifactTooLarge ∧ limit < payload.length ∨ ∃ s p, (r.read s p).2.2 = .failed err
  | _ => False

variable {r} {limit payload}

theorem int64Small {n} (low : -2 ^ 63 ≤ n) (high : n < 2 ^ 63) : int64 n = n := Int.bmod_eq_of_le (by omega) (by omega)

theorem guardReads {g : LimitGuard σ} (some' : 0 ≤ g.left) (small : g.left < 2 ^ 63 - 1) (p : Nat) :
    ∃ s data err, g.read r p = some (⟨s,g.left - data.length⟩,data,if g.left < data.length then .failed .artifactTooLarge else err) ∧
      r.rest g.r = data ++ r.rest s ∧ (err = .eof → r.rest s = []) ∧ (err = .more → r.turns s + min p 1 ≤ r.turns g.r) ∧
      ∀ failure, err = .failed failure → ∃ s p, (r.read s p).2.2 = .failed failure := by
  generalize asked : (if g.left + 1 < p then (g.left + 1).toNat else p) = q
  have within : q ≤ g.left + 1 ∧ min q 1 = min p 1 := by
    rw [← asked]
    split <;> omega
  have fits := r.fits g.r q
  refine ⟨_,_,(r.read g.r q).2.2,?_,r.gives g.r q,r.ends g.r q,within.2 ▸ r.halts g.r q,fun _ same => ⟨_,_,same⟩⟩
  rw [LimitGuard.read,if_neg (by omega),int64Small (by omega) (by omega),if_neg (by omega)]
  simp only [asked]
  rw [int64Small (by omega) (by omega)]
  simp only [sub_neg]

theorem drainExact (small : limit < 2 ^ 63 - 1) {bufs : List Nat} : ∀ {g : LimitGuard σ} {got : Bytes}, 0 ≤ g.left →
    g.left + got.length = limit → got ++ r.rest g.r = payload → r.turns g.r < (bufs.map (min · 1)).sum →
    Exact r limit payload (drain r bufs g got) := by
  induction bufs with
  | nil => exact fun _ _ _ bound => absurd bound (Nat.not_lt_zero _)
  | cons p rest ih =>
    intro g got some' spent whole bound
    obtain ⟨s,data,err,reads,gives,ends,halts,faults⟩ := guardReads (r := r) some' (by omega) p
    rw [gives,← List.append_assoc] at whole
    have length := congrArg List.length whole
    rw [List.length_append,List.length_append] at length
    rw [List.map_cons,List.sum_cons] at bound
    rw [drain,reads]
    by_cases past : g.left < data.length
    · rw [if_pos past]
      exact .inl ⟨rfl,by omega⟩
    rw [if_neg past]
    cases err with
    | more =>
      have turned := halts rfl
      refine ih ?_ ?_ whole ?_
      · simp only
        omega
      · simp only [List.length_append]
        omega
      · simp only
        omega
    | eof =>
      rw [ends rfl,List.append_nil] at whole
      rw [ends rfl,List.length_nil] at length
      exact ⟨whole,by omega⟩
    | failed failure => exact .inr (faults failure rfl)

def emptySource : Source Unit := ⟨fun _ _ => ((),[],.eof),fun _ => [],fun _ => 0,by simp,by simp,by simp,by simp⟩

/-- The size cap is exact for every limit below the largest one. -/
theorem limitExactly (limit : Int) (positive : 1 ≤ limit) (int : limit < 2 ^ 63) :
    (∀ (σ : Type) (r : Source σ) (s : σ) (bufs : List Nat), r.turns s < (bufs.map (min · 1)).sum →
      Exact r limit (r.rest s) (drain r bufs ⟨s,limit⟩ [])) ↔ limit < 2 ^ 63 - 1 := by
  constructor
  · intro exact'
    by_contra largest
    cases show limit = 2 ^ 63 - 1 by omega
    exact exact' Unit emptySource () [1] (by decide)
  · intro small σ r s bufs bound
    exact drainExact small (by simp only; omega) (by simp) (List.nil_append _) bound

theorem largestPanics : drain emptySource [512] ⟨(),2 ^ 63 - 1⟩ [] = .panicked := by decide +kernel

def bytesSource : Source Bytes where
  read s p := (s.drop p,s.take p,if s = [] then .eof else .more)
  rest := id
  turns := List.length
  fits s p := by simp
  gives s p := (List.take_append_drop p s).symm
  ends s p := by split <;> simp_all
  halts s p := by
    split
    · simp
    next some' =>
      intro _
      have := List.length_pos_of_ne_nil some'
      simp only [List.length_drop]
      omega

/- A payload of the limit goes through, and one a byte longer is refused. -/
theorem oneByteExact : Exact bytesSource 1 [7] (drain bytesSource [4,4] ⟨[7],1⟩ []) ∧
    Exact bytesSource 1 [7,8] (drain bytesSource [4,4,4] ⟨[7,8],1⟩ []) := by
  have capped := (limitExactly 1 (by decide) (by decide)).mpr (by decide) Bytes bytesSource
  exact ⟨capped [7] [4,4] (by decide),capped [7,8] [4,4,4] (by decide)⟩

end Scrinium.ReadGuards
