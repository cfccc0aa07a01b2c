import Mathlib.Data.List.Basic

/-! Readers that hand out a stream in pieces: each call answers with some bytes of the next piece or none, and the end
comes with the last bytes or after them. -/
namespace ChunkedStream
open List hiding after

inductive Ending where
  | eof
  | fault
  deriving DecidableEq

inductive Stop where
  | eof
  | unexpectedEOF
  | fault
  deriving DecidableEq

/- A source with its pieces still to come, and all it has handed out so far. -/
structure Source (α : Type) where
  chunks : List (List α)
  ending : Ending
  eager : Bool
  seen : List α
  deriving DecidableEq

section
variable {α : Type}
def Source.left (s : Source α) : List α := s.chunks.flatten

def Source.read (n : Nat) (s : Source α) : List α × Option Ending × Source α :=
  match s.chunks with
  | [] => ([],some s.ending,s)
  | c::rest =>
    let out := c.take n
    if c.length ≤ n then
      (out,if rest.isEmpty && s.eager then some s.ending else none,{s with chunks := rest, seen := s.seen ++ out})
    else (out,none,{s with chunks := c.drop n::rest, seen := s.seen ++ out})

/- Reads until the size is reached or the source reports its end; a read that does not reach it uses up a piece. -/
def gather : (fuel n : Nat) → Source α → List α × Option Ending × Source α
  | 0, _, s => ([],none,s)
  | fuel+1, n, s =>
    if n = 0 then ([],none,s)
    else match s.read n with
      | (out,some ending,s') => (out,some ending,s')
      | (out,none,s') =>
        let (more,ending,s'') := gather fuel (n - out.length) s'
        (out ++ more,ending,s'')

def readFull (n : Nat) (s : Source α) : List α × Option Stop × Source α :=
  let (got,ending,s') := gather (s.chunks.length + 1) n s
  if n ≤ got.length then (got,none,s')
  else match ending with
    | some .fault => (got,some .fault,s')
    | _ => (got,some (if got.isEmpty then .eof else .unexpectedEOF),s')

structure Handed (s s' : Source α) (out : List α) : Prop where
  left : s.left = out ++ s'.left
  seen : s'.seen = s.seen ++ out
  ending : s'.ending = s.ending
  eager : s'.eager = s.eager

theorem handedRefl (s : Source α) : Handed s s [] := ⟨rfl,(append_nil _).symm,rfl,rfl⟩

theorem handedTrans {s s' s'' : Source α} {out more : List α} (first : Handed s s' out) (second : Handed s' s'' more) :
    Handed s s'' (out ++ more) := by
  refine ⟨?_,?_,second.ending.trans first.ending,second.eager.trans first.eager⟩
  · rw [first.left,second.left,append_assoc]
  · rw [second.seen,first.seen,append_assoc]

theorem readHands (n : Nat) (s : Source α) : Handed s (s.read n).2.2 (s.read n).1 := by
  unfold Source.read
  split
  · exact handedRefl s
  next c rest pieces =>
  simp only
  split
  · next whole =>
    refine ⟨?_,rfl,rfl,rfl⟩
    rw [Source.left,pieces,take_of_length_le whole]
    rfl
  · refine ⟨?_,rfl,rfl,rfl⟩
    rw [Source.left,pieces,Source.left,flatten_cons,flatten_cons,← append_assoc,take_append_drop]

theorem readBounded (n : Nat) (s : Source α) : (s.read n).1.length ≤ n := by
  unfold Source.read
  split
  · exact Nat.zero_le n
  simp only
  split
  · exact length_take_le ..
  · exact length_take_le ..

theorem readEnded {n} {s : Source α} {ending} (ended : (s.read n).2.1 = some ending) :
    ending = s.ending ∧ (s.read n).2.2.left = [] := by
  unfold Source.read at ended ⊢
  split at ended
  · next pieces =>
    cases ended
    exact ⟨rfl,by rw [Source.left,pieces]; rfl⟩
  next c rest pieces =>
  simp only at ended ⊢
  split at ended
  · next whole =>
    rw [if_pos whole]
    split at ended
    · next last =>
      cases ended
      have none' : rest = [] := by simpa using (Bool.and_eq_true_iff.mp last).1
      exact ⟨rfl,by rw [Source.left,none']; rfl⟩
    · cases ended
  · cases ended

theorem readUses {n} {s : Source α} (open' : (s.read n).2.1 = none) (short : (s.read n).1.length < n) :
    (s.read n).2.2.chunks.length < s.chunks.length := by
  cases pieces : s.chunks with
  | nil => simp [Source.read,pieces] at open'
  | cons c rest =>
    simp only [Source.read,pieces] at short ⊢
    by_cases whole : c.length ≤ n
    · rw [if_pos whole,length_cons]
      exact Nat.lt_succ_self _
    · rw [if_neg whole,length_take,Nat.min_eq_left (by omega)] at short
      omega

def Source.weight (s : Source α) : Nat := s.chunks.length + s.left.length

theorem readNearer {n} {s : Source α} (positive : 0 < n) (open' : (s.read n).2.1 = none) :
    (s.read n).2.2.weight < s.weight := by
  have left := congrArg List.length (readHands n s).left
  rw [length_append] at left
  unfold Source.weight
  rcases Nat.lt_or_ge (s.read n).1.length n with short | full
  · have used := readUses open' short
    omega
  have same : (s.read n).2.2.chunks.length ≤ s.chunks.length := by
    unfold Source.read
    split
    · exact Nat.le_refl _
    next c rest pieces =>
    simp only
    split
    · rw [pieces,length_cons]
      exact Nat.le_succ _
    · simp [pieces]
  omega

theorem gatherHands (fuel n : Nat) (s : Source α) : Handed s (gather fuel n s).2.2 (gather fuel n s).1 := by
  induction fuel generalizing n s with
  | zero => exact handedRefl s
  | succ fuel ih =>
    have first := readHands n s
    unfold gather
    split
    · exact handedRefl s
    split
    · next out ending s' answer =>
      rw [answer] at first
      exact first
    · next out s' answer =>
      rw [answer] at first
      exact handedTrans first (ih (n - out.length) s')

theorem gatherSettles {fuel n} {s : Source α} (enough : s.chunks.length < fuel) :
    (gather fuel n s).1.length = n ∨
      (gather fuel n s).1.length < n ∧ (gather fuel n s).2.1 = some s.ending ∧ (gather fuel n s).2.2.left = [] := by
  induction fuel generalizing n s with
  | zero => exact absurd enough (Nat.not_lt_zero _)
  | succ fuel ih =>
    have bounded := readBounded n s
    have hands := readHands n s
    unfold gather
    split
    · next none' => exact .inl none'.symm
    split
    · next out ending s' answer =>
      have ended := @readEnded _ n s ending (by rw [answer])
      rw [answer] at bounded ended
      rcases Nat.lt_or_ge out.length n with short | full
      · exact .inr ⟨short,by rw [ended.1],ended.2⟩
      · exact .inl (Nat.le_antisymm bounded full)
    · next out s' answer =>
      have open' : (s.read n).2.1 = none := by rw [answer]
      rw [answer] at bounded hands
      simp only [length_append] at bounded ⊢
      rcases Nat.lt_or_ge out.length n with short | full
      · have used : s'.chunks.length < s.chunks.length := by
          have uses := readUses open' (by rw [answer]; exact short)
          rwa [answer] at uses
        rcases @ih (n - out.length) s' (by omega) with reached | ⟨lacking,ended,nothing⟩
        · exact .inl (by rw [reached]; omega)
        · exact .inr ⟨by omega,by rw [ended,hands.ending],nothing⟩
      · -- The first call has given all; the loop ends at once.
        have done : n - out.length = 0 := by omega
        have rest : (gather fuel (n - out.length) s').1 = [] := by
          rw [done]
          cases fuel with
          | zero => rfl
          | succ fuel => rfl
        exact .inl (by rw [rest]; simp; omega)

theorem readFullHands (n : Nat) (s : Source α) : Handed s (readFull n s).2.2 (readFull n s).1 := by
  have hands := gatherHands (s.chunks.length + 1) n s
  unfold readFull
  simp only
  split
  · exact hands
  · split
    · exact hands
    · exact hands

theorem readFullOk {n} {s : Source α} (fits : n ≤ s.left.length) :
    (readFull n s).1 = s.left.take n ∧ (readFull n s).2.1 = none ∧ (readFull n s).2.2.left = s.left.drop n := by
  have hands := gatherHands (s.chunks.length + 1) n s
  have reached : (gather (s.chunks.length + 1) n s).1.length = n := by
    rcases @gatherSettles _ (s.chunks.length + 1) n s (Nat.lt_succ_self _) with full | ⟨short,_,nothing⟩
    · exact full
    · rw [hands.left,nothing,append_nil] at fits
      omega
  unfold readFull
  simp only [reached,Nat.le_refl,if_true]
  rw [hands.left]
  exact ⟨(take_left' reached).symm,trivial,(drop_left' reached).symm⟩

theorem readFullShort {n} {s : Source α} (lacking : s.left.length < n) :
    (readFull n s).1 = s.left ∧ (readFull n s).2.2.left = [] ∧
      (readFull n s).2.1 = some (if s.ending = .fault then .fault else if s.left.isEmpty then .eof else .unexpectedEOF) := by
  have hands := gatherHands (s.chunks.length + 1) n s
  rcases @gatherSettles _ (s.chunks.length + 1) n s (Nat.lt_succ_self _) with full | ⟨short,ended,nothing⟩
  · have total := congrArg List.length hands.left
    rw [length_append] at total
    omega
  · have all : s.left = (gather (s.chunks.length + 1) n s).1 := by rw [hands.left,nothing,append_nil]
    have notFull : ¬ n ≤ (gather (s.chunks.length + 1) n s).1.length := Nat.not_le_of_lt short
    unfold readFull
    simp only [notFull,if_false,ended]
    cases s.ending with
    | fault => exact ⟨all.symm,nothing,rfl⟩
    | eof => exact ⟨all.symm,nothing,by rw [all]; rfl⟩

end

section
variable {α σ ε : Type}
def drain (read : Nat → σ → List α × Option ε × σ) : List Nat → σ → List (List α) × Option ε × σ
  | [], s => ([],none,s)
  | n::sizes, s =>
    match read n s with
    | (out,some report,s') => ([out],some report,s')
    | (out,none,s') =>
      let (outs,report,s'') := drain read sizes s'
      (out::outs,report,s'')

/- The reader has just this left to give: each call gives its next part, the end comes after all of it in a state that is
done, and a call for any bytes brings the end nearer. -/
structure Gives (read : Nat → σ → List α × Option ε × σ) (Holds : σ → List α → Prop) (Done : σ → Prop) (last : ε)
    (weight : σ → List α → Nat) : Prop where
  next : ∀ {s left n}, Holds s left → (read n s).2.1 = none → ∃ rest, left = (read n s).1 ++ rest ∧ Holds (read n s).2.2 rest ∧
    (0 < n → weight (read n s).2.2 rest < weight s left)
  ends : ∀ {s left n report}, Holds s left → (read n s).2.1 = some report → report = last ∧ left = (read n s).1 ∧ Done (read n s).2.2

variable {read : Nat → σ → List α × Option ε × σ} {Holds Done last weight s left}

section
variable (gives : Gives read Holds Done last weight) (holds : Holds s left) {sizes}
include gives holds
theorem drainGives {report} (drained : (drain read sizes s).2.1 = some report) :
    report = last ∧ (drain read sizes s).1.flatten = left ∧ Done (drain read sizes s).2.2 := by
  induction sizes generalizing s left with
  | nil => cases drained
  | cons n sizes ih =>
    unfold drain at drained ⊢
    rcases answer : read n s with ⟨out,ended,s'⟩
    rw [answer] at drained
    cases ended with
    | some report' =>
      cases drained
      have finish := @Gives.ends _ _ _ _ _ _ _ _ gives s left n report holds (by rw [answer])
      rw [answer] at finish
      exact ⟨finish.1,by rw [finish.2.1]; simp,finish.2.2⟩
    | none =>
      obtain ⟨rest,split,holds',_⟩ := gives.next holds (by rw [answer])
      rw [answer] at split holds'
      obtain ⟨same,gave,done⟩ := ih holds' drained
      exact ⟨same,by rw [flatten_cons,gave]; exact split.symm,done⟩

theorem drainEnds
    (positive : ∀ n ∈ sizes, 0 < n) (enough : weight s left < sizes.length) : (drain read sizes s).2.1 = some last := by
  induction sizes generalizing s left with
  | nil => exact absurd enough (Nat.not_lt_zero _)
  | cons n sizes ih =>
    unfold drain
    rcases answer : read n s with ⟨out,ended,s'⟩
    cases ended with
    | some report' =>
      have finish := @Gives.ends _ _ _ _ _ _ _ _ gives s left n report' holds (by rw [answer])
      exact congrArg some finish.1
    | none =>
      obtain ⟨rest,_,holds',nearer⟩ := gives.next holds (by rw [answer])
      rw [answer] at holds' nearer
      have less : weight s' rest < weight s left := nearer (positive n mem_cons_self)
      rw [length_cons] at enough
      exact ih holds' (fun m mem => positive m (mem_cons_of_mem n mem)) (by omega)

end

theorem drainMore {sizes more report} (ended : (drain read sizes s).2.1 = some report) :
    drain read (sizes ++ more) s = drain read sizes s := by
  induction sizes generalizing s with
  | nil => cases ended
  | cons n sizes ih =>
    rw [cons_append]
    unfold drain at ended ⊢
    rcases answer : read n s with ⟨out,done,s'⟩
    rw [answer] at ended
    cases done with
    | some report' => rfl
    | none =>
      simp only at ended ⊢
      rw [ih ended]

def calls (sizes : Nat → Nat) (count : Nat) : List Nat := (List.range count).map fun k => sizes k + 1

theorem callsMore (sizes : Nat → Nat) {fewer count} (enough : fewer ≤ count) :
    ∃ more, calls sizes count = calls sizes fewer ++ more := by
  obtain ⟨extra,rfl⟩ := Nat.exists_eq_add_of_le enough
  exact ⟨_,by rw [calls,range_add,map_append]; rfl⟩

theorem drainCalls (gives : Gives read Holds Done last weight) (holds : Holds s left) (sizes : Nat → Nat) :
    ∃ fewest, (drain read (calls sizes fewest) s).2.1 = some last ∧
      ∀ count, fewest ≤ count → drain read (calls sizes count) s = drain read (calls sizes fewest) s := by
  have positive : ∀ n ∈ calls sizes (weight s left + 1), 0 < n := by
    intro n mem
    obtain ⟨k,_,rfl⟩ := mem_map.mp mem
    exact Nat.succ_pos _
  have ended := drainEnds gives holds positive (by rw [calls,length_map,length_range]; exact Nat.lt_succ_self _)
  refine ⟨weight s left + 1,ended,fun count enough => ?_⟩
  obtain ⟨more,longer⟩ := callsMore sizes enough
  rw [longer,drainMore ended]

/-- A reader that settles its buffer and hands out the head of it gives what the buffer and the source still hold. -/
theorem bufferedGives (settle : σ → σ × Option ε) (buffer : σ → List α) (consume : Nat → σ → σ)
    (reads : ∀ n s, read n s = match settle s with
      | (s',some report) => ([],some report,s')
      | (s',none) => ((buffer s').take n,none,consume n s'))
    (settles : ∀ {s left}, Holds s left → (settle s).2 = none ∧ buffer (settle s).1 ≠ [] ∧ Holds (settle s).1 left ∨
      (settle s).2 = some last ∧ left = [] ∧ Done (settle s).1)
    (hands : ∀ {s left} n, Holds s left → buffer s ≠ [] →
      ∃ rest, left = buffer s ++ rest ∧ Holds (consume n s) ((buffer s).drop n ++ rest)) :
    Gives read Holds Done last fun _ left => left.length where
  next := by
    intro s left n holds more
    have settled := settles holds
    rw [reads] at more ⊢
    generalize settle s = pair at settled more ⊢
    obtain ⟨s',_ | report⟩ := pair
    · obtain ⟨_,some',holds'⟩ := settled.resolve_right nofun
      obtain ⟨rest,whole,kept⟩ := hands n holds' some'
      refine ⟨(buffer s').drop n ++ rest,?_,kept,fun positive => ?_⟩
      · rw [whole,← append_assoc,take_append_drop]
      · have length : 0 < (buffer s').length := length_pos_iff.mpr some'
        simp only [whole,length_append,length_drop]
        omega
    · cases more
  ends := by
    intro s left n report holds ended
    have settled := settles holds
    rw [reads] at ended ⊢
    generalize settle s = pair at settled ended ⊢
    obtain ⟨s',_ | report'⟩ := pair
    · cases ended
    · obtain ⟨finish,none',done⟩ := settled.resolve_left nofun
      cases ended
      exact ⟨Option.some.inj finish,none',done⟩

theorem sourceGives (ending : Ending) (before : List α) : Gives (σ := Source α) Source.read
    (fun s left => s.left = left ∧ s.ending = ending ∧ before = s.seen ++ s.left)
    (fun s => s.left = [] ∧ s.seen = before) ending (fun s _ => s.weight) where
  next := by
    rintro s left n ⟨rfl,same,all⟩ open'
    have hands := readHands n s
    refine ⟨_,hands.left,⟨rfl,hands.ending.trans same,?_⟩,fun positive => readNearer positive open'⟩
    rw [all,hands.seen,hands.left,append_assoc]
  ends := by
    rintro s left n report ⟨rfl,same,all⟩ ended
    have hands := readHands n s
    obtain ⟨finish,nothing⟩ := readEnded ended
    have gone : s.left = (s.read n).1 := by rw [hands.left,nothing,append_nil]
    exact ⟨finish.trans same,gone,nothing,by rw [all,hands.seen,gone]⟩

end

end ChunkedStream
