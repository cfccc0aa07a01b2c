import Mathlib.Data.List.Forall2
import Mathlib.Tactic.Ring

/-! Byte streams read to their end: full reads that tell a clean end from a cut, big-endian numbers, and readers of one
self-delimiting frame after another. -/
namespace FrameStream
open List hiding after

def bigEndian : (width : Nat) → Nat → List UInt8
  | 0, _ => []
  | width+1, n => (n / 256 ^ width % 256).toUInt8::bigEndian width n

def value (bytes : List UInt8) : Nat := bytes.foldl (fun acc b => acc * 256 + b.toNat) 0

theorem bigEndianLength (width n : Nat) : (bigEndian width n).length = width := by
  induction width with
  | zero => rfl
  | succ width ih => rw [bigEndian,length_cons,ih]

theorem valueBigEndian (width n : Nat) : value (bigEndian width n) = n % 256 ^ width := by
  suffices h : ∀ acc, (bigEndian width n).foldl (fun acc b => acc * 256 + b.toNat) acc =
      acc * 256 ^ width + n % 256 ^ width by
    simpa [value] using h 0
  induction width with
  | zero => intro acc; simp [bigEndian,Nat.mod_one]
  | succ width ih =>
    intro acc
    have digit : (n / 256 ^ width % 256).toUInt8.toNat = n / 256 ^ width % 256 := by
      simp
    rw [bigEndian,foldl_cons,ih,digit,Nat.mod_pow_succ]
    ring

inductive Short where
  | eof
  | unexpectedEOF
  deriving DecidableEq

def readFull {α : Type} (n : Nat) (src : List α) : Except Short (List α × List α) :=
  if n ≤ src.length then .ok (src.take n,src.drop n)
  else if src.length = 0 then .error .eof
  else .error .unexpectedEOF

variable {α : Type} {n part} {rest src : List α}

theorem readFullAppend (exact : part.length = n) : readFull n (part ++ rest) = .ok (part,rest) := by
  subst exact
  simp [readFull]

theorem readFullShort (cut : src.length < n) (some' : src ≠ []) : readFull n src = .error .unexpectedEOF := by
  have notEmpty : src.length ≠ 0 := fun empty => some' (length_eq_zero_iff.mp empty)
  rw [readFull,if_neg (Nat.not_le_of_lt cut),if_neg notEmpty]

theorem readFullLacking (cut : src.length < n) : ∃ short, readFull n src = .error short := by
  unfold readFull
  rw [if_neg (Nat.not_le_of_lt cut)]
  split <;> exact ⟨_,rfl⟩

theorem readFullEof (ended : readFull n src = .error .eof) : src = [] := by
  unfold readFull at ended
  split at ended
  · cases ended
  split at ended
  · next empty => exact length_eq_zero_iff.mp empty
  · cases ended

theorem readFullOk (ok : readFull n src = .ok (part,rest)) : part.length = n ∧ src = part ++ rest := by
  unfold readFull at ok
  split at ok
  · next fits =>
    cases ok
    exact ⟨length_take_of_le fits,(take_append_drop n src).symm⟩
  · split at ok <;> cases ok

structure Reader (α ε β : Type) where
  next : List α → Except ε (Option (β × List α))
  shorter : ∀ {src item rest}, next src = .ok (some (item,rest)) → rest.length < src.length

section
variable {α ε β : Type}
def Reader.drain (r : Reader α ε β) (src : List α) : Except ε (List β) :=
  match _ : r.next src with
  | .error err => .error err
  | .ok none => .ok []
  | .ok (some (item,rest)) => (r.drain rest).map fun items => item::items
termination_by src.length
decreasing_by exact r.shorter (by assumption)

variable {r : Reader α ε β}

variable {src rest : List α} {err item items} {frames : List (List α)}

theorem drainEnd (done : r.next src = .ok none) : r.drain src = .ok [] := by
  rw [Reader.drain]
  split <;> simp_all

theorem drainError (failed : r.next src = .error err) : r.drain src = .error err := by
  rw [Reader.drain]
  split <;> simp_all

theorem drainStep (step : r.next src = .ok (some (item,rest))) :
    r.drain src = (r.drain rest).map fun items => item::items := by
  rw [Reader.drain]
  split <;> simp_all

theorem drainInduction {motive : List α → List β → Prop} (done : ∀ src, r.next src = .ok none → motive src [])
    (step : ∀ src item rest items, r.next src = .ok (some (item,rest)) → motive rest items → motive src (item::items))
    (ok : r.drain src = .ok items) : motive src items := by
  induction hn : src.length using Nat.strongRecOn generalizing src items with
  | _ n ih =>
    cases h : r.next src with
    | error err => rw [drainError h] at ok; cases ok
    | ok found =>
      cases found with
      | none =>
        rw [drainEnd h] at ok
        cases ok
        exact done src h
      | some pair =>
        obtain ⟨item,rest⟩ := pair
        rw [drainStep h] at ok
        cases tail : r.drain rest with
        | error err => rw [tail] at ok; cases ok
        | ok more =>
          rw [tail] at ok
          cases ok
          exact step src item rest more h (ih rest.length (hn ▸ r.shorter h) tail rfl)

def Parses (r : Reader α ε β) (frame : List α) (item : β) : Prop :=
  ∀ rest, r.next (frame ++ rest) = .ok (some (item,rest))

def Tears (r : Reader α ε β) (frame : List α) : Prop :=
  ∀ n, 0 < n → n < frame.length → ∃ err, r.next (frame.take n) = .error err

theorem drainFrames (parses : List.Forall₂ (Parses r) frames items) (tail : List α) :
    r.drain (frames.flatten ++ tail) = (r.drain tail).map fun more => items ++ more := by
  induction parses with
  | nil =>
    rw [flatten_nil,nil_append]
    cases r.drain tail <;> rfl
  | cons first _ ih =>
    rw [flatten_cons,append_assoc,drainStep (first _),ih]
    cases r.drain tail <;> rfl

def Reader.reads (r : Reader α ε β) (src : List α) : List β × Option ε :=
  match _ : r.next src with
  | .error err => ([],some err)
  | .ok none => ([],none)
  | .ok (some (item,rest)) =>
    let later := r.reads rest
    (item::later.1,later.2)
termination_by src.length
decreasing_by exact r.shorter (by assumption)

theorem readsError (failed : r.next src = .error err) : r.reads src = ([],some err) := by
  rw [Reader.reads]
  split <;> simp_all

theorem readsStep (step : r.next src = .ok (some (item,rest))) :
    r.reads src = (item::(r.reads rest).1,(r.reads rest).2) := by
  rw [Reader.reads]
  split <;> simp_all

theorem readsFrames (parses : ∀ frame ∈ frames, ∃ item, Parses r frame item) (tail : List α) :
    (r.reads (frames.flatten ++ tail)).2 = (r.reads tail).2 := by
  induction frames with
  | nil => rfl
  | cons frame rest ih =>
    obtain ⟨item,first⟩ := parses frame mem_cons_self
    rw [flatten_cons,append_assoc,readsStep (first _)]
    exact ih fun f mem => parses f (mem_cons_of_mem frame mem)

theorem cutPlace (frames : List (List α)) {n} (inside : n < frames.flatten.length) :
    ∃ whole frame later m, frames = whole ++ frame::later ∧ m < frame.length ∧ n = whole.flatten.length + m := by
  induction frames generalizing n with
  | nil => simp at inside
  | cons frame rest ih =>
    rcases Nat.lt_or_ge n frame.length with here | past
    · exact ⟨[],frame,rest,n,rfl,here,by simp⟩
    rw [flatten_cons,length_append] at inside
    obtain ⟨whole,last,later,m,rfl,short,place⟩ := ih (n := n - frame.length) (by omega)
    refine ⟨frame::whole,last,later,m,rfl,short,?_⟩
    rw [flatten_cons,length_append]
    omega

theorem takePlace {whole later : List (List α)} {frame : List α} {m} (inside : m ≤ frame.length) :
    (whole ++ frame::later).flatten.take (whole.flatten.length + m) = whole.flatten ++ frame.take m := by
  rw [flatten_append,flatten_cons,take_length_add_append,take_append_of_le_length inside]

theorem cutFrames (frames : List (List α)) (n : Nat) :
    ∃ whole, whole <+: frames ∧ (frames.flatten.take n = whole.flatten ∨
      ∃ frame ∈ frames, ∃ m, 0 < m ∧ m < frame.length ∧ frames.flatten.take n = whole.flatten ++ frame.take m) := by
  rcases Nat.lt_or_ge n frames.flatten.length with inside | past
  · obtain ⟨whole,frame,later,m,rfl,short,rfl⟩ := cutPlace frames inside
    refine ⟨whole,prefix_append whole _,?_⟩
    rw [takePlace (Nat.le_of_lt short)]
    rcases Nat.eq_zero_or_pos m with rfl | some'
    · exact .inl (by simp)
    · exact .inr ⟨frame,by simp,m,some',short,rfl⟩
  · exact ⟨frames,prefix_rfl,.inl (take_of_length_le past)⟩

end

end FrameStream
