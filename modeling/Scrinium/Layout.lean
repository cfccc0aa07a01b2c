import Scrinium.Trace
import Scrinium.Domain

/-! Driver paths of blobs and manifests, and the way back from a listed path to the ref it names. -/
namespace Scrinium.Layout
open Domain Trace List
open HexText (lowerDigit)

inductive PathTopology where
  | unset
  | flat
  | sharded
  | unknown
  deriving DecidableEq

inductive BlobType where
  | regular
  | chunk
  | pack
  deriving DecidableEq

def rootFor : BlobType → String
  | .regular => "blobs"
  | .chunk => "chunks"
  | .pack => "packs"

def shardOf (ref : String) : Except Error (String × String) :=
  match shards (toLower ref) with
  | none => .error (.other "ref too short to shard")
  | some both => .ok both

def blobPath (topology : PathTopology) (type : BlobType) (ref : String) : Except Error String :=
  if ref = "" then .error (.other "empty ref")
  else match topology with
    | .flat => .ok (rootFor type ++ "/" ++ ref)
    | .unset | .sharded => do
      let (s1,s2) ← shardOf ref
      return rootFor type ++ "/" ++ s1 ++ "/" ++ s2 ++ "/" ++ ref
    | .unknown => .error (.other "unknown topology")

def manifestPath (digest : String) : Except Error String :=
  if digest = "" then .error (.other "empty manifest digest")
  else do
    let (s1,s2) ← shardOf digest
    return "manifests/" ++ s1 ++ "/" ++ s2 ++ "/" ++ digest

def lastSegment (path : String) : Except Error String :=
  if path = "" then .error (.other "empty path")
  else .ok (String.ofList (path.toList.reverse.takeWhile (· ≠ '/')).reverse)

def validateRefShape (s : String) : Except Error Unit :=
  if s.toList.length < 4 then .error (.other "ref shorter than 4 chars")
  else if s.toList.all lowerDigit then .ok ()
  else .error (.other "ref has non-hex char")

def refFromBlobPath (path : String) : Except Error String := do
  let last ← lastSegment path
  validateRefShape last
  return last

def digestFromManifestPath (path : String) : Except Error String := refFromBlobPath path
def dotless (path : String) : Bool := path.toList.all (· ≠ '.')

variable {s front ref path digest topology type}

theorem refShape : validateRefShape s = .ok () ↔ 4 ≤ s.toList.length ∧ s.toList.all lowerDigit = true := by
  unfold validateRefShape
  split
  · next short => simp [Nat.not_le.mpr short]
  · next long =>
    split
    · next digits => simp [digits,Nat.not_lt.mp long]
    · next other => simp [other]

theorem digitNot {c} (digit : lowerDigit c = true) : c ≠ '/' ∧ c ≠ '.' := by
  refine ⟨?_,?_⟩ <;> intro same <;> subst same <;> contradiction

theorem lastSegmentAppend (digits : ref.toList.all lowerDigit = true) :
    lastSegment (front ++ "/" ++ ref) = .ok ref := by
  have some' : front ++ "/" ++ ref ≠ "" := by
    intro empty
    have chars := congrArg String.toList empty
    simp at chars
  have plain : ∀ c ∈ ref.toList.reverse, decide (c ≠ '/') = true := by
    intro c mem
    exact decide_eq_true (digitNot (all_eq_true.mp digits c (mem_reverse.mp mem))).1
  have slash : "/".toList = ['/'] := rfl
  rw [lastSegment,if_neg some']
  simp only [String.toList_append,slash,reverse_append,reverse_singleton]
  rw [takeWhile_append_of_pos plain]
  simp

theorem refFromAppend (shape : validateRefShape ref = .ok ()) : refFromBlobPath (front ++ "/" ++ ref) = .ok ref := by
  simp only [refFromBlobPath,lastSegmentAppend (refShape.mp shape).2,bind,Except.bind,shape]
  rfl

theorem blobPathForm (ok : blobPath topology type ref = .ok path) :
    path = rootFor type ++ "/" ++ ref ∨
      ∃ s1 s2, shardOf ref = .ok (s1,s2) ∧ path = rootFor type ++ "/" ++ s1 ++ "/" ++ s2 ++ "/" ++ ref := by
  unfold blobPath at ok
  split at ok
  · cases ok
  have sharded : (do
      let (s1,s2) ← shardOf ref
      return rootFor type ++ "/" ++ s1 ++ "/" ++ s2 ++ "/" ++ ref) = Except.ok path →
      ∃ s1 s2, shardOf ref = .ok (s1,s2) ∧ path = rootFor type ++ "/" ++ s1 ++ "/" ++ s2 ++ "/" ++ ref := by
    intro built
    obtain ⟨⟨s1,s2⟩,shards,last⟩ := bindOk.mp built
    exact ⟨s1,s2,shards,(Except.ok.inj last).symm⟩
  cases topology with
  | flat => exact .inl (Except.ok.inj ok).symm
  | unset => exact .inr (sharded ok)
  | sharded => exact .inr (sharded ok)
  | unknown => cases ok

theorem manifestPathForm (ok : manifestPath digest = .ok path) :
    ∃ s1 s2, shardOf digest = .ok (s1,s2) ∧ path = "manifests/" ++ s1 ++ "/" ++ s2 ++ "/" ++ digest := by
  unfold manifestPath at ok
  split at ok
  · cases ok
  obtain ⟨⟨s1,s2⟩,shards,last⟩ := bindOk.mp ok
  exact ⟨s1,s2,shards,(Except.ok.inj last).symm⟩

def byteLength (chars : List Char) : Nat := (chars.map Char.utf8Size).sum

theorem splitLength {chars : List Char} {n cut} (split : splitBytes chars n = some cut) : byteLength cut.1 = n := by
  induction chars generalizing n cut with
  | nil =>
    cases n with
    | zero => cases split; rfl
    | succ n => cases split
  | cons c rest ih =>
    cases n with
    | zero => cases split; rfl
    | succ n =>
      rw [splitBytes] at split
      split at split
      · next fits =>
        obtain ⟨cut',inner,rfl⟩ := Option.map_eq_some_iff.mp split
        have length := ih inner
        simp only [byteLength,map_cons,sum_cons] at length ⊢
        omega
      · cases split

theorem shardLengths {s1 s2} (ok : shardOf digest = .ok (s1,s2)) : byteLength s1.toList = 2 ∧ byteLength s2.toList = 2 := by
  unfold shardOf at ok
  split at ok
  · cases ok
  · next both found =>
    cases ok
    obtain ⟨⟨first,rest⟩,one,more⟩ := Option.bind_eq_some_iff.mp found
    obtain ⟨⟨second,last⟩,two,same⟩ := Option.bind_eq_some_iff.mp more
    cases same
    rw [String.toList_ofList,String.toList_ofList]
    exact ⟨splitLength one,splitLength two⟩

theorem appendSame {a a' b b' : List Char} (same : a ++ b = a' ++ b') (length : byteLength a = byteLength a') : b = b' := by
  induction a generalizing a' with
  | nil =>
    cases a' with
    | nil => exact same
    | cons c rest =>
      have := c.utf8Size_pos
      simp only [byteLength,map_nil,sum_nil,map_cons,sum_cons] at length
      omega
  | cons c rest ih =>
    cases a' with
    | nil =>
      have := c.utf8Size_pos
      simp only [byteLength,map_nil,sum_nil,map_cons,sum_cons] at length
      omega
    | cons c' rest' =>
      rw [cons_append,cons_append] at same
      obtain ⟨rfl,behind⟩ := cons.inj same
      simp only [byteLength,map_cons,sum_cons,Nat.add_left_cancel_iff] at length
      exact ih behind length

theorem manifestPathInjective {a b} (okA : manifestPath a = .ok path) (okB : manifestPath b = .ok path) : a = b := by
  obtain ⟨s1,s2,shardsA,rfl⟩ := manifestPathForm okA
  obtain ⟨t1,t2,shardsB,same⟩ := manifestPathForm okB
  have lengthsA := shardLengths shardsA
  have lengthsB := shardLengths shardsB
  have chars := congrArg String.toList same
  simp only [String.toList_append] at chars
  refine String.toList_inj.mp (appendSame chars ?_)
  simp only [byteLength,map_append,sum_append] at lengthsA lengthsB ⊢
  omega

theorem blobPathRef (shape : validateRefShape ref = .ok ()) (ok : blobPath topology type ref = .ok path) :
    refFromBlobPath path = .ok ref := by
  rcases blobPathForm ok with rfl | ⟨s1,s2,_,rfl⟩
  · exact refFromAppend shape
  · exact refFromAppend shape

theorem blobPathInjective {a b} (shapeA : validateRefShape a = .ok ()) (shapeB : validateRefShape b = .ok ())
    (okA : blobPath topology type a = .ok path) (okB : blobPath topology type b = .ok path) : a = b :=
  okSame (blobPathRef shapeA okA) (blobPathRef shapeB okB)

theorem toLowerDigits (digits : s.toList.all lowerDigit = true) : toLower s = s := by
  have fixed : ∀ c ∈ s.toList, Char.toLower c = c := by
    intro c mem
    obtain ⟨n,small,_,rfl⟩ := HexText.digitValue (all_eq_true.mp digits c mem)
    interval_cases n <;> rfl
  rw [toLower,map_congr_left fixed,map_id']
  exact String.ofList_toList

theorem splitDigits {chars : List Char} (digits : chars.all lowerDigit = true) (n : Nat) :
    splitBytes chars n = if n ≤ chars.length then some (chars.take n,chars.drop n) else none := by
  induction chars generalizing n with
  | nil => cases n <;> rfl
  | cons c rest ih =>
    cases n with
    | zero => rfl
    | succ n =>
      rw [all_cons,Bool.and_eq_true] at digits
      obtain ⟨k,small,_,rfl⟩ := HexText.digitValue digits.1
      have one : (Nat.digitChar k).utf8Size = 1 := by interval_cases k <;> rfl
      rw [splitBytes,one,if_pos (Nat.le_add_left 1 n),Nat.add_sub_cancel,ih digits.2]
      by_cases long : n ≤ rest.length
      · simp [long]
      · simp [long]

theorem shardOfDigits (digits : ref.toList.all lowerDigit = true) :
    shardOf ref = if 4 ≤ ref.toList.length then
      .ok (String.ofList (ref.toList.take 2),String.ofList ((ref.toList.drop 2).take 2)) else .error (.other "ref too short to shard") := by
  have rest : (ref.toList.drop 2).all lowerDigit = true :=
    all_eq_true.mpr fun c mem => all_eq_true.mp digits c (mem_of_mem_drop mem)
  rw [shardOf,toLowerDigits digits,shards,splitDigits digits]
  by_cases long : 4 ≤ ref.toList.length
  · have first : 2 ≤ ref.toList.length := by omega
    have second : 2 ≤ ref.toList.length - 2 := by omega
    simp [long,first,splitDigits rest,second]
  · by_cases first : 2 ≤ ref.toList.length
    · have second : ¬ 2 ≤ ref.toList.length - 2 := by omega
      simp [long,first,splitDigits rest,second]
    · simp [long,first]

theorem shardOfRef (shape : validateRefShape ref = .ok ()) :
    shardOf ref = .ok (String.ofList (ref.toList.take 2),String.ofList ((ref.toList.drop 2).take 2)) := by
  obtain ⟨long,digits⟩ := refShape.mp shape
  rw [shardOfDigits digits,if_pos long]

theorem dotlessAppend (a b : String) : dotless (a ++ b) = (dotless a && dotless b) := by
  simp [dotless]

theorem dotlessDigits {chars} (digits : ∀ c ∈ chars, lowerDigit c = true) : dotless (String.ofList chars) = true := by
  simp only [dotless,String.toList_ofList,all_eq_true,decide_eq_true_eq]
  exact fun c mem => (digitNot (digits c mem)).2

theorem dotlessRef (shape : validateRefShape ref = .ok ()) : dotless ref = true := by
  have plain := dotlessDigits (all_eq_true.mp (refShape.mp shape).2)
  rwa [String.ofList_toList] at plain

theorem dotlessShards {s1 s2} (shape : validateRefShape ref = .ok ()) (ok : shardOf ref = .ok (s1,s2)) :
    dotless s1 = true ∧ dotless s2 = true := by
  rw [shardOfRef shape] at ok
  cases ok
  have digits := all_eq_true.mp (refShape.mp shape).2
  exact ⟨dotlessDigits fun c mem => digits c (mem_of_mem_take mem),
    dotlessDigits fun c mem => digits c (mem_of_mem_drop (mem_of_mem_take mem))⟩

theorem dotlessBlobPath (shape : validateRefShape ref = .ok ()) (ok : blobPath topology type ref = .ok path) :
    dotless path = true := by
  have root : dotless (rootFor type) = true := by cases type <;> rfl
  have slash : dotless "/" = true := rfl
  rcases blobPathForm ok with rfl | ⟨s1,s2,shards,rfl⟩
  · simp [dotlessAppend,root,slash,dotlessRef shape]
  · obtain ⟨plain1,plain2⟩ := dotlessShards shape shards
    simp [dotlessAppend,root,slash,plain1,plain2,dotlessRef shape]

theorem manifestPathRef (shape : validateRefShape digest = .ok ()) (ok : manifestPath digest = .ok path) :
    digestFromManifestPath path = .ok digest := by
  obtain ⟨s1,s2,_,rfl⟩ := manifestPathForm ok
  exact refFromAppend shape

theorem manifestPathHead (ok : manifestPath digest = .ok path) : path.toList.head? = some 'm' := by
  obtain ⟨s1,s2,_,rfl⟩ := manifestPathForm ok
  simp [String.toList_append]

theorem blobPathHead (ok : blobPath topology .regular ref = .ok path) : path.toList.head? = some 'b' := by
  rcases blobPathForm ok with rfl | ⟨s1,s2,_,rfl⟩
  · simp [rootFor,String.toList_append]
  · simp [rootFor,String.toList_append]

theorem headsApart {other : String} {a b} (here : path.toList.head? = some a) (there : other.toList.head? = some b)
    (differ : a ≠ b) : path ≠ other := by
  rintro rfl
  exact differ (Option.some.inj (here.symm.trans there))

end Scrinium.Layout
