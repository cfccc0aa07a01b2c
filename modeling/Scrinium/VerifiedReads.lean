import Scrinium.Readback
import Scrinium.ReadGuards
import Scrinium.StoreDescriptor

/-! The verified read of a Get (handle.go): every Read is hashed, and the end of the stream is checked once. -/
namespace Scrinium.VerifiedReads
open Domain Cas Trace List ReadGuards
open HexText (decode)

structure Verifying where
  want : Bytes
  limit : Int
  hashed : Bytes
  closed : Bool
  eofSeen : Bool
  /- The calls of onMismatch. -/
  mismatches : Nat
  deriving DecidableEq

/- errors.Is(err, io.EOF); `wraps` says of which other errors it holds. -/
def isEOF (wraps : Error → Bool) : ReadEnd → Bool
  | .more => false
  | .eof => true
  | .failed err => wraps err

variable (e : Engine) (m : Manifest) (wraps : Error → Bool)

def wrapVerifying : Except Error (Option Verifying) :=
  if m.contentHash = "" then .ok none
  else match decode m.contentHash with
    | none => .error (.other "artifact: decode ContentHash")
    | some want =>
      if m.hashAlgo ≠ e.hasher.name then .error .unsupportedAlgorithm
      else .ok (some ⟨want,if 0 < m.originalSize then m.originalSize else -1,[],false,false,0⟩)

def Verifying.finalize (h : Verifying) : Verifying × Option Error :=
  if h.eofSeen then (h,none)
  else if (0 ≤ h.limit ∧ h.hashed.length ≠ h.limit) ∨ e.hasher.sum h.hashed ≠ h.want then
    ({h with eofSeen := true, mismatches := h.mismatches + 1},some .corruptedBlob)
  else ({h with eofSeen := true},none)

def Verifying.read (h : Verifying) (inner : Bytes × ReadEnd) : Verifying × ReadEnd :=
  if h.closed then (h,.failed (.other "file already closed"))
  else
    let h := {h with hashed := h.hashed ++ inner.1}
    if isEOF wraps inner.2 then
      match h.finalize e with
      | (h,some err) => (h,.failed err)
      | (h,none) => (h,inner.2)
    else (h,inner.2)

/- The first n answers of a stream that ends with `last`, which may be empty, and answers io.EOF from then on. -/
def answers : List (Bytes × ReadEnd) → Bytes × ReadEnd → Nat → List (Bytes × ReadEnd)
  | _,_,0 => []
  | [],last,n + 1 => last::replicate n ([],.eof)
  | inner::rest,last,n + 1 => inner::answers rest last n

def Whole (bytes : Bytes) : Prop := decode m.contentHash = some (e.hasher.sum bytes) ∧ bytes.length = m.originalSize

/- A clean end is of whole bytes, a reported corruption is never followed by one, and the callback runs with the report and
only then. -/
def Vouches (h : Verifying) (inner : Bytes × ReadEnd) : Prop :=
  ((h.read e wraps inner).2 = .eof → Whole e m (h.read e wraps inner).1.hashed) ∧
    (h.mismatches ≠ 0 → ∃ err, (h.read e wraps inner).2 = .failed err) ∧ (h.read e wraps inner).1.mismatches ≤ 1 ∧
    (isEOF wraps inner.2 = true → (h.read e wraps inner).2 ≠ inner.2 → (h.read e wraps inner).1.mismatches = 1)

/- Of n Reads the one that finds the end, after k others, finds the stream whole, or is not made, or is the last and
finds an error for the end or the stream visibly wrong. -/
def Answerable (bytes : Bytes) (fin : ReadEnd) (k n : Nat) : Prop :=
  Whole e m bytes ∨ n ≤ k ∨
    n = k + 1 ∧ (fin ≠ .eof ∨ decode m.contentHash ≠ some (e.hasher.sum bytes) ∨ 0 < m.originalSize)

def Verifying.next (h : Verifying) (inner : Bytes × ReadEnd) : Verifying := (h.read e wraps inner).1

variable {e m wraps h bytes last n fin} {pre : List (Bytes × ReadEnd)}

theorem wrapped (opened : wrapVerifying e m = .ok (some h)) : ∃ want, decode m.contentHash = some want ∧
    h = ⟨want,if 0 < m.originalSize then m.originalSize else -1,[],false,false,0⟩ := by
  unfold wrapVerifying at opened
  split at opened
  · cases opened
  split at opened
  · cases opened
  next want parsed =>
  split at opened
  · cases opened
  · cases opened
    exact ⟨want,parsed,rfl⟩

/- The handle once the end was seen: a later end is passed on unchecked. -/
theorem seenReads (open' : h.closed = false) (seen : h.eofSeen = true) (once : h.mismatches ≤ 1) :
    Along (Verifying.next e wraps) (Vouches e m wraps) h (replicate n ([],.eof)) ↔ n = 0 ∨ h.mismatches = 0 ∧ Whole e m h.hashed := by
  have read : h.read e wraps ([],.eof) = (h,.eof) := by
    obtain ⟨_,_,_,_,_,_⟩ := h
    cases open'
    cases seen
    simp [Verifying.read,Verifying.finalize,isEOF]
  have same : h.next e wraps ([],.eof) = h := congrArg Prod.fst read
  induction n with
  | zero => simp [Along,visits]
  | succ n ih =>
    simp only [replicate_succ,alongCons,same,ih,Vouches,read,reduceCtorEq,exists_false,forall_const]
    tauto

theorem endReads (opened : wrapVerifying e m = .ok (some h)) (ends : isEOF wraps fin = true) :
    Along (Verifying.next e wraps) (Vouches e m wraps) {h with hashed := bytes} ((last,fin)::replicate n ([],.eof)) ↔
      Whole e m (bytes ++ last) ∨ n = 0 ∧ (fin ≠ .eof ∨ decode m.contentHash ≠ some (e.hasher.sum (bytes ++ last)) ∨ 0 < m.originalSize) := by
  obtain ⟨want,parsed,rfl⟩ := wrapped opened
  generalize limited : (if 0 < m.originalSize then m.originalSize else -1) = limit
  have sized : 0 ≤ limit ↔ 0 < m.originalSize := by
    rw [← limited]
    split <;> omega
  have known : 0 < m.originalSize → limit = m.originalSize := fun some' => by rw [← limited,if_pos some']
  by_cases bad : (0 ≤ limit ∧ (bytes ++ last).length ≠ limit) ∨ e.hasher.sum (bytes ++ last) ≠ want
  · have read : Verifying.read e wraps ⟨want,limit,bytes,false,false,0⟩ (last,fin) =
        (⟨want,limit,bytes ++ last,false,true,1⟩,.failed .corruptedBlob) := by
      simp only [Verifying.read,Verifying.finalize,ends,if_pos bad]
      rfl
    have wrong : ¬ Whole e m (bytes ++ last) := by
      rintro ⟨hash,size⟩
      rw [parsed,Option.some.injEq] at hash
      rcases bad with ⟨some',other⟩ | other
      · exact other (size.trans (known (sized.mp some')).symm)
      · exact other hash.symm
    have shown : decode m.contentHash ≠ some (e.hasher.sum (bytes ++ last)) ∨ 0 < m.originalSize := by
      rw [parsed]
      rcases bad with ⟨some',_⟩ | other
      · exact .inr (sized.mp some')
      · exact .inl fun same => other (Option.some.inj same).symm
    rw [alongCons,Verifying.next,congrArg Prod.fst read,seenReads rfl rfl (Nat.le_refl 1),Vouches,read]
    simp [wrong,shown]
  · have read : Verifying.read e wraps ⟨want,limit,bytes,false,false,0⟩ (last,fin) =
        (⟨want,limit,bytes ++ last,false,true,0⟩,fin) := by
      simp only [Verifying.read,Verifying.finalize,ends,if_neg bad]
      rfl
    simp only [not_or,not_and,not_not] at bad
    have hash : decode m.contentHash = some (e.hasher.sum (bytes ++ last)) := parsed.trans (congrArg some bad.2.symm)
    have whole : decode m.contentHash ≠ some (e.hasher.sum (bytes ++ last)) ∨ 0 < m.originalSize → Whole e m (bytes ++ last) := by
      rintro (other | some')
      · exact absurd hash other
      · exact ⟨hash,(bad.1 (sized.mpr some')).trans (known some')⟩
    rw [alongCons,Verifying.next,congrArg Prod.fst read,seenReads rfl rfl (Nat.zero_le 1),Vouches,read]
    simp only [ne_eq,not_true_eq_false,false_imp_iff,Nat.zero_le,true_and]
    tauto

theorem vouchesFrom (opened : wrapVerifying e m = .ok (some h)) (quiet : ∀ inner ∈ pre, isEOF wraps inner.2 = false)
    (ends : isEOF wraps fin = true) :
    Along (Verifying.next e wraps) (Vouches e m wraps) {h with hashed := bytes} (answers pre (last,fin) n) ↔
      Answerable e m (bytes ++ pre.flatMap Prod.fst ++ last) fin pre.length n := by
  induction pre generalizing n bytes with
  | nil =>
    cases n with
    | zero => simp [answers,Answerable,Along,visits]
    | succ n => simpa [answers,Answerable] using endReads opened ends
  | cons inner rest ih =>
    cases n with
    | zero => simp [answers,Answerable,Along,visits]
    | succ n =>
      obtain ⟨data,err⟩ := inner
      obtain ⟨want,_,rfl⟩ := wrapped opened
      have plain : isEOF wraps err = false := quiet _ mem_cons_self
      have other : err ≠ .eof := by
        rintro rfl
        cases plain
      have read (bytes : Bytes) (limit : Int) : Verifying.read e wraps ⟨want,limit,bytes,false,false,0⟩ (data,err) =
          (⟨want,limit,bytes ++ data,false,false,0⟩,err) := by
        simp [Verifying.read,plain]
      rw [answers,alongCons,Verifying.next,congrArg Prod.fst (read _ _),Vouches,read,
        ih fun inner mem => quiet inner (mem_cons_of_mem _ mem)]
      simp [plain,other,Answerable]

/-- A verifying handle ends no Read of n cleanly on bad data, and repeats what it found, exactly if the stream is whole,
not read to its end, or left at its end and visibly wrong. -/
theorem vouchesExactly (opened : wrapVerifying e m = .ok (some h)) (quiet : ∀ inner ∈ pre, isEOF wraps inner.2 = false)
    (ends : isEOF wraps fin = true) :
    Along (Verifying.next e wraps) (Vouches e m wraps) h (answers pre (last,fin) n) ↔
      Answerable e m (pre.flatMap Prod.fst ++ last) fin pre.length n := by
  obtain ⟨want,_,rfl⟩ := wrapped opened
  exact vouchesFrom opened quiet ends

def oneByte : Manifest := StoreDescriptor.inlineManifest Readback.sampleEngine.hasher "" [1] "sha256" 0
def oneByteHandle : Verifying := ⟨[0,0,1],1,[],false,false,0⟩

theorem corruptionThenEof : wrapVerifying Readback.sampleEngine oneByte = .ok (some oneByteHandle) ∧
    (visits (Verifying.next Readback.sampleEngine fun _ => false) oneByteHandle (answers [([2],.more)] ([],.eof) 3)).map
      (fun visit => (visit.1.read Readback.sampleEngine (fun _ => false) visit.2).2) = [.more,.failed .corruptedBlob,.eof] := by
  decide +kernel

theorem wholeByteVouched :
    Along (Verifying.next Readback.sampleEngine fun _ => false) (Vouches Readback.sampleEngine oneByte fun _ => false)
      oneByteHandle (answers [([1],.more)] ([],.eof) 3) :=
  (vouchesExactly (by decide +kernel) (by simp [isEOF]) rfl).mpr (.inl ⟨by decide +kernel,by decide +kernel⟩)

end Scrinium.VerifiedReads
