import Mathlib.Data.List.Infix
import Mathlib.Data.List.Sort
import Scrinium.DecimalText
import Scrinium.LocalFs
import Scrinium.Trace

/-! The versioned layout of system artifacts: a version of a name is the file `named/<name>.<seq>` with a seq of fixed
width, and the highest seq a walk finds is the active one. -/
namespace Scrinium.Named
open List hiding after
open Keyed Domain LocalFs Trace

def root : String := "named"
def rootSlash : String := "named/"
def seqWidth : Nat := 10
def seqLimit : Nat := 10 ^ seqWidth
def maxClaimAttempts : Nat := 64
def invalidName (reason : String) : Error := .other ("scrinium: invalid system name: " ++ reason)

def validateName (name : String) : Except Error Unit :=
  let chars := name.toList
  if chars = [] then .error (invalidName "empty name")
  else if chars.head? = some '/' ∨ chars.getLast? = some '/' then
    .error (invalidName (quoteText name ++ " has leading or trailing slash"))
  else if chars.tails.any fun rest => "//".toList.isPrefixOf rest then
    .error (invalidName (quoteText name ++ " has empty segment"))
  else if (chars.splitOn '/').any fun segment => segment = ['.'] || segment = ['.','.'] then
    .error (invalidName (quoteText name ++ " has traversal segment"))
  else .ok ()

def formatSeq (seq : Nat) : String := String.ofList (DecimalText.padded seqWidth seq)
def parseSeq (leaf : String) : Option Nat := DecimalText.read seqWidth leaf.toList

section
variable (name : String)
def fullPfx : String := rootSlash ++ name ++ "."
def versionFile (seq : Nat) : String := fullPfx name ++ formatSeq seq
def cellFile : String := fullPfx name ++ "cell"

def versionPath (seq : Nat) : Except Error String := do
  validateName name
  return versionFile name seq

def cellPath : Except Error String := do
  validateName name
  return cellFile name

end

def seqOf (name path : String) : Option Nat :=
  if (fullPfx name).toList.isPrefixOf path.toList then
    parseSeq (String.ofList (path.toList.drop (fullPfx name).toList.length))
  else none

def scanSeqs (fs : Fs) (name : String) : List Nat := (listObjects fs root).filterMap (seqOf name)

def higher (best : Option Nat) (n : Nat) : Option Nat :=
  match best with
  | none => some n
  | some seq => if n > seq then some n else some seq

def activeSeq (seqs : List Nat) : Option Nat := seqs.foldl higher none

def resolveActiveSeq (fs : Fs) (name : String) : Except Error (Option Nat) := do
  validateName name
  return activeSeq (scanSeqs fs name)

def listVersions (fs : Fs) (name : String) : Except Error (List Nat) := do
  validateName name
  return (scanSeqs fs name).insertionSort (· ≤ ·)

def claimTarget (fs : Fs) (name : String) : Except Error Nat := do
  match ← resolveActiveSeq fs name with
  | none => return 1
  | some active => return active + 1

def allBut (keep : Nat) (seqs : List Nat) : List Nat :=
  if seqs.length ≤ keep then [] else seqs.take (seqs.length - keep)

def pruneTargets (fs : Fs) (name : String) (keep : Nat) : Except Error (List Nat) := do
  let seqs ← listVersions fs name
  return allBut (if keep < 1 then 1 else keep) seqs

def listedName (name : String) : Bool := ((name ++ ".").toList.splitOn '/').all fun segment => !isHidden segment

variable {name path seq}

theorem versionPathOk (ok : versionPath name seq = .ok path) :
    validateName name = .ok () ∧ path = versionFile name seq := by
  obtain ⟨_,valid,built⟩ := bindOk.mp ok
  exact ⟨valid,(Except.ok.inj built).symm⟩

theorem cellPathOk (ok : cellPath name = .ok path) : path = cellFile name := by
  obtain ⟨_,_,built⟩ := bindOk.mp ok
  exact (Except.ok.inj built).symm

theorem seqOfVersion (name : String) (small : seq < seqLimit) : seqOf name (versionFile name seq) = some seq := by
  have front : (fullPfx name).toList.isPrefixOf (versionFile name seq).toList = true := by
    simp [versionFile]
  rw [seqOf,if_pos front,versionFile,String.toList_append,drop_left,String.ofList_toList,parseSeq,formatSeq,
    String.toList_ofList]
  exact DecimalText.readPadded (by decide) small

theorem seqOfSource (named : seqOf name path = some seq) : path = versionFile name seq ∧ seq < seqLimit := by
  unfold seqOf at named
  split at named
  · next front =>
    obtain ⟨leaf,joined⟩ := isPrefixOf_iff_prefix.mp front
    rw [← joined,drop_left,parseSeq,String.toList_ofList] at named
    obtain ⟨digits,small⟩ := DecimalText.readSource (by decide) named
    refine ⟨String.toList_inj.mp ?_,small⟩
    rw [← joined,versionFile,String.toList_append,formatSeq,String.toList_ofList,digits]
  · cases named

theorem versionFileInjective {a b} (smallA : a < seqLimit) (smallB : b < seqLimit)
    (same : versionFile name a = versionFile name b) : a = b := by
  have read := seqOfVersion name smallA
  rw [same,seqOfVersion name smallB] at read
  exact (Option.some.inj read).symm

section
variable {mark leaf} {chars : List Char}
theorem anyTail : (chars.tails.any fun rest => mark.isPrefixOf rest) = true ↔ mark <:+: chars := by
  simp only [any_eq_true,mem_tails, isPrefixOf_iff_prefix]
  constructor
  · intro found
    obtain ⟨rest,tail,front⟩ := found
    exact front.isInfix.trans tail.isInfix
  · intro found
    obtain ⟨before,after,joined⟩ := found
    exact ⟨mark ++ after,⟨before,by rw [← joined,append_assoc]⟩,⟨after,rfl⟩⟩

theorem dotMarked {digits} (dotless : '.' ∉ digits) :
    mark ++ ['.'] <:+: chars ++ ['.'] ++ digits ↔ mark ++ ['.'] <:+: chars ++ ['.'] := by
  constructor
  · intro found
    obtain ⟨before,after,joined⟩ := found
    rcases append_eq_append_iff.mp joined with ⟨more,longer,_⟩ | ⟨more,shorter,rest⟩
    · exact ⟨before,more,longer.symm⟩
    -- the mark ends in a dot, so it cannot end among the digits
    rcases eq_nil_or_concat more with rfl | ⟨more,last,rfl⟩
    · exact ⟨before,[],by simpa using shorter⟩
    rw [concat_eq_append,← append_assoc,← append_assoc] at shorter
    obtain ⟨_,ends⟩ := append_inj' shorter rfl
    cases ends
    exact absurd (by simp [rest]) dotless
  · intro found
    exact found.trans ⟨[],digits,rfl⟩

structure PlainLeaf (leaf : List Char) : Prop where
  dotless : '.' ∉ leaf
  flat : '/' ∉ leaf
  ends : leaf.getLast? ≠ some 'e'

theorem hiddenLeaf {segment} (plain : PlainLeaf leaf) :
    isHidden (segment ++ ['.'] ++ leaf) = isHidden (segment ++ ['.']) := by
  have notMarker : ∀ chars : List Char, chars.getLast? ≠ some 'e' →
      tombstoneSuffix.toList.isSuffixOf (segment ++ ['.'] ++ chars) = false := by
    intro chars other
    rw [Bool.eq_false_iff]
    intro ends
    obtain ⟨front,joined⟩ := isSuffixOf_iff_suffix.mp ends
    have last : (segment ++ ['.'] ++ chars).getLast? = some 'e' := by
      rw [← joined,List.getLast?_append]
      rfl
    rcases eq_nil_or_concat chars with rfl | ⟨chars,c,rfl⟩
    · simp at last
    · simp only [concat_eq_append,← append_assoc,List.getLast?_append,List.getLast?_singleton,
        Option.some_or] at last other
      exact other last
  have sameMark : ((segment ++ ['.'] ++ leaf).tails.any fun rest => ".tmp.".toList.isPrefixOf rest) =
      (segment ++ ['.']).tails.any fun rest => ".tmp.".toList.isPrefixOf rest := by
    have text : ".tmp.".toList = ['.','t','m','p'] ++ ['.'] := rfl
    rw [Bool.eq_iff_iff,anyTail,anyTail,text]
    exact dotMarked plain.dotless
  have bare := notMarker [] (by simp)
  rw [append_nil] at bare
  have sameHead : ['.'].isPrefixOf (segment ++ ['.'] ++ leaf) = ['.'].isPrefixOf (segment ++ ['.']) := by
    cases segment <;> simp [List.isPrefixOf]
  rw [isHidden,isHidden,notMarker leaf plain.ends,bare,sameMark,sameHead]

theorem splitTail (chars : List Char) :
    ∃ front last, ∀ tail, '/' ∉ tail → (chars ++ tail).splitOn '/' = front ++ [last ++ tail] := by
  by_cases slashed : '/' ∈ chars.reverse
  · obtain ⟨after,before,split,flat⟩ := eq_append_cons_of_mem slashed
    have whole : chars = before.reverse ++ '/'::after.reverse := by
      rw [← reverse_reverse chars,split]
      simp
    refine ⟨before.reverse.splitOn '/',after.reverse,fun tail plain => ?_⟩
    have rest : '/' ∉ after.reverse ++ tail := by simp [flat,plain]
    rw [whole,append_assoc,cons_append,splitOn_append_cons_self,splitOn_eq_singleton rest]
  · exact ⟨[],chars,fun tail plain => splitOn_eq_singleton (by simp_all)⟩

theorem segmentsLeaf (plain : PlainLeaf leaf) :
    (((chars ++ ['.'] ++ leaf).splitOn '/').all fun segment => !isHidden segment) =
      ((chars ++ ['.']).splitOn '/').all fun segment => !isHidden segment := by
  obtain ⟨front,last,split⟩ := splitTail chars
  have flat : '/' ∉ ['.'] ++ leaf := by simp [plain.flat]
  rw [append_assoc,split _ flat,split _ (by decide),all_append,all_append,← append_assoc]
  simp only [all_cons,all_nil,hiddenLeaf plain]

theorem leafListed (name : String) {leaf} (plain : PlainLeaf leaf.toList) :
    underDir root (fullPfx name ++ leaf) = listedName name := by
  have chars : (fullPfx name ++ leaf).toList = (root ++ "/").toList ++ (name.toList ++ ['.'] ++ leaf.toList) := by
    simp [fullPfx,rootSlash,root]
  have size : root.toList.length + 1 = (root ++ "/").toList.length := by simp [root]
  have front : (root ++ "/").toList.isPrefixOf (fullPfx name ++ leaf).toList = true := by
    rw [chars]
    exact isPrefixOf_iff_prefix.mpr ⟨_,rfl⟩
  have dotted : (name ++ ".").toList = name.toList ++ ['.'] := by simp
  rw [underDir,front,Bool.true_and,listedName,chars,size,drop_left,dotted,segmentsLeaf plain]

theorem seqLeaf (seq : Nat) : PlainLeaf (formatSeq seq).toList := by
  have digits : ∀ c ∈ (formatSeq seq).toList, c.isDigit = true := by
    intro c mem
    rw [formatSeq,String.toList_ofList] at mem
    exact DecimalText.paddedDigit mem
  refine ⟨fun dot => absurd (digits '.' dot) (by decide),fun slash => absurd (digits '/' slash) (by decide),fun last => ?_⟩
  exact absurd (digits 'e' (mem_of_getLast? last)) (by decide)

theorem versionListed (name : String) (seq : Nat) : underDir root (versionFile name seq) = listedName name :=
  leafListed name (seqLeaf seq)

theorem cellLeaf : PlainLeaf "cell".toList := ⟨by decide,by decide,by decide⟩

theorem cellListed (name : String) : underDir root (cellFile name) = listedName name := leafListed name cellLeaf

end

section
variable {fs} {name : String}

variable {top keep old} {seq : Nat} {path : String} {body now}

theorem scanMem : seq ∈ scanSeqs fs name ↔ listedName name = true ∧ seq < seqLimit ∧ versionFile name seq ∈ fs := by
  unfold scanSeqs listObjects
  rw [mem_filterMap]
  constructor
  · intro found
    obtain ⟨path,walked,named⟩ := found
    obtain ⟨rfl,small⟩ := seqOfSource named
    obtain ⟨present,listed⟩ := mem_filter.mp walked
    exact ⟨(versionListed name seq).symm.trans listed,small,present⟩
  · intro found
    obtain ⟨listed,small,present⟩ := found
    exact ⟨_,mem_filter.mpr ⟨present,(versionListed name seq).trans listed⟩,seqOfVersion name small⟩

theorem scanUnlisted (hidden : listedName name ≠ true) : scanSeqs fs name = [] :=
  eq_nil_iff_forall_not_mem.mpr fun _ mem => hidden (scanMem.mp mem).1

theorem scanNodup : (scanSeqs fs name).Nodup := by
  apply List.Nodup.filterMap
  · intro a b seq namedA namedB
    rw [(seqOfSource namedA).1,(seqOfSource namedB).1]
  · exact fs.keys_nodup.filter _

theorem higherMax (best n : Nat) : higher (some best) n = some (max best n) := by
  rw [higher]
  split
  · next above => rw [Nat.max_eq_right (Nat.le_of_lt above)]
  · next below => rw [Nat.max_eq_left (Nat.not_lt.mp below)]

theorem activeSeqMax (seqs : List Nat) : activeSeq seqs = seqs.max? := by
  cases seqs with
  | nil => rfl
  | cons first rest =>
    suffices h : ∀ best, rest.foldl higher (some best) = some (rest.foldl max best) from h first
    induction rest with
    | nil => exact fun _ => rfl
    | cons n rest ih =>
      intro best
      rw [foldl_cons,foldl_cons,higherMax]
      exact ih (max best n)

structure IsTop (fs : Fs) (name : String) (top : Nat) : Prop where
  bound : ∀ seq ∈ scanSeqs fs name, seq ≤ top
  attained : top ∈ scanSeqs fs name ∨ top = 0 ∧ scanSeqs fs name = []

theorem topExists (fs : Fs) (name : String) : ∃ top, IsTop fs name top := by
  cases found : (scanSeqs fs name).max? with
  | none =>
    have empty := List.max?_eq_none_iff.mp found
    exact ⟨0,by simp [empty],.inr ⟨rfl,empty⟩⟩
  | some top =>
    obtain ⟨mem,bound⟩ := List.max?_eq_some_iff.mp found
    exact ⟨top,bound,.inl mem⟩

theorem activeSeqTop (isTop : IsTop fs name top) (mem : top ∈ scanSeqs fs name) :
    activeSeq (scanSeqs fs name) = some top := by
  rw [activeSeqMax]
  exact List.max?_eq_some_iff.mpr ⟨mem,isTop.bound⟩

theorem claimTargetOk {next} (ok : claimTarget fs name = .ok next) (isTop : IsTop fs name top) :
    validateName name = .ok () ∧ next = top + 1 := by
  obtain ⟨active,resolved,chosen⟩ := bindOk.mp ok
  obtain ⟨_,valid,read⟩ := bindOk.mp resolved
  cases read
  refine ⟨valid,?_⟩
  rcases isTop.attained with mem | ⟨zero,empty⟩
  · rw [activeSeqTop isTop mem] at chosen
    exact (Except.ok.inj chosen).symm
  · rw [empty] at chosen
    rw [zero]
    exact (Except.ok.inj chosen).symm

theorem olderThanKept {seqs} (ascending : seqs.Pairwise (· < ·)) (some' : 0 < keep)
    (mem : old ∈ allBut keep seqs) : ∃ newest ∈ seqs, old < newest := by
  unfold allBut at mem
  split at mem
  · cases mem
  next longer =>
  rw [← take_append_drop (seqs.length - keep) seqs,pairwise_append] at ascending
  cases kept : seqs.drop (seqs.length - keep) with
  | nil =>
    have size := congrArg List.length kept
    simp only [length_drop,length_nil] at size
    omega
  | cons newest rest =>
    have there : newest ∈ seqs.drop (seqs.length - keep) := by simp [kept]
    exact ⟨newest,mem_of_mem_drop there,ascending.2.2 old mem newest there⟩

theorem pruneTargetsOk {targets} (ok : pruneTargets fs name keep = .ok targets) :
    ∀ old ∈ targets, ∃ newest ∈ scanSeqs fs name, old < newest := by
  obtain ⟨seqs,listed,cut⟩ := bindOk.mp ok
  obtain ⟨_,_,sorted⟩ := bindOk.mp listed
  cases sorted
  cases cut
  have perm := perm_insertionSort (· ≤ ·) (scanSeqs fs name)
  have ascending : ((scanSeqs fs name).insertionSort (· ≤ ·)).Pairwise (· < ·) :=
    ((pairwise_insertionSort (· ≤ ·) (scanSeqs fs name)).and (perm.nodup_iff.mpr scanNodup)).imp
      fun both => Nat.lt_of_le_of_ne both.1 both.2
  have kept : 0 < if keep < 1 then 1 else keep := by split <;> omega
  intro old mem
  obtain ⟨newest,there,older⟩ := olderThanKept ascending kept mem
  exact ⟨newest,perm.mem_iff.mp there,older⟩

theorem scanPut :
    seq ∈ scanSeqs (put fs path body now) name ↔
      listedName name = true ∧ seq < seqLimit ∧ (versionFile name seq = path ∨ versionFile name seq ∈ fs) := by
  rw [scanMem,put,AList.mem_insert]

theorem scanRemove : seq ∈ scanSeqs (remove fs path) name ↔ seq ∈ scanSeqs fs name ∧ versionFile name seq ≠ path := by
  rw [scanMem,scanMem,remove,AList.mem_erase]
  tauto

theorem topClaimed (isTop : IsTop fs name top) (listed : listedName name = true) (small : top + 1 < seqLimit)
    (body : HexText.Bytes) (now : Instant) :
    IsTop (put fs (versionFile name (top + 1)) body now) name (top + 1) := by
  constructor
  · intro seq mem
    obtain ⟨_,smaller,new | old⟩ := scanPut.mp mem
    · exact Nat.le_of_eq (versionFileInjective smaller small new)
    · exact Nat.le_succ_of_le (isTop.bound seq (scanMem.mpr ⟨listed,smaller,old⟩))
  · exact .inl (scanPut.mpr ⟨listed,small,.inl rfl⟩)

theorem topPruned (isTop : IsTop fs name top) (older : old < top) :
    IsTop (remove fs (versionFile name old)) name top := by
  constructor
  · exact fun seq mem => isTop.bound seq (scanRemove.mp mem).1
  rcases isTop.attained with mem | ⟨zero,_⟩
  · have small := (scanMem.mp mem).2.1
    refine .inl (scanRemove.mpr ⟨mem,fun same => ?_⟩)
    exact Nat.ne_of_gt older (versionFileInjective small (Nat.lt_trans older small) same)
  · omega

theorem cellNoVersion (small : seq < seqLimit) : versionFile name seq ≠ cellFile name := by
  intro same
  have read := seqOfVersion name small
  have front : (fullPfx name).toList.isPrefixOf (cellFile name).toList = true := by simp [cellFile]
  rw [same,seqOf,if_pos front,cellFile,String.toList_append,drop_left,String.ofList_toList] at read
  cases read

theorem scanCell : seq ∈ scanSeqs (put fs (cellFile name) body now) name ↔ seq ∈ scanSeqs fs name := by
  rw [scanPut,scanMem]
  constructor
  · intro found
    obtain ⟨listed,small,same | present⟩ := found
    · exact absurd same (cellNoVersion small)
    · exact ⟨listed,small,present⟩
  · exact fun found => ⟨found.1,found.2.1,.inr found.2.2⟩

end

end Scrinium.Named
