import Mathlib.Data.String.Basic
import Scrinium.Named

/-! The plane of system artifacts as a whole: every file is `named/<name>.<leaf>` with a leaf that has no dot, so that a
path determines its name. -/
namespace Scrinium.Named
open Keyed Domain LocalFs List

def splitLeaf (rel : String) : Option (String × String) :=
  match rel.toList.reverse.dropWhile (· ≠ '.') with
  | [] => none
  | _::front => some (String.ofList front.reverse,String.ofList (rel.toList.reverse.takeWhile (· ≠ '.')).reverse)

structure Active where
  name : String
  seq : Nat
  path : String
  deriving DecidableEq

def relOf (path : String) : String := String.ofList (path.toList.drop rootSlash.toList.length)
def continues (pfx path : String) : Bool := (rootSlash ++ pfx).toList.isPrefixOf path.toList

def versionAt (path : String) : Option Active := do
  let (name,leaf) ← splitLeaf (relOf path)
  let seq ← parseSeq leaf
  return ⟨name,seq,path⟩

def cellAt (path : String) : Option Active := do
  let (name,leaf) ← splitLeaf (relOf path)
  if leaf = "cell" then return ⟨name,0,path⟩ else none

def better (best : Table String Active) (a : Active) : Table String Active :=
  match best.lookup a.name with
  | none => best.insert a.name a
  | some cur => if a.seq > cur.seq then best.insert a.name a else best

def byName (a b : Active) : Prop := a.name ≤ b.name
instance : DecidableRel byName := fun a b => inferInstanceAs (Decidable (a.name ≤ b.name))
instance : IsTrans Active byName := ⟨fun _ _ _ first second => le_trans (α := String) first second⟩
instance : Std.Total byName := ⟨fun a b => le_total a.name b.name⟩

def walked (fs : Fs) (pfx : String) : List String := (listObjects fs root).filter (continues pfx)

def listActive (fs : Fs) (pfx : String) : List Active :=
  (((((walked fs pfx).filterMap versionAt).foldl better ∅).entries).map fun entry => entry.2).insertionSort byName

def listCells (fs : Fs) (pfx : String) : List Active := ((walked fs pfx).filterMap cellAt).insertionSort byName

section
variable {name leaf name'}
theorem splitLeafOk {rel} : splitLeaf rel = some (name,leaf) ↔ rel = name ++ "." ++ leaf ∧ '.' ∉ leaf.toList := by
  unfold splitLeaf
  constructor
  · intro split'
    split at split'
    · cases split'
    next dot front found =>
    obtain ⟨rfl,rfl⟩ := Prod.mk.inj (Option.some.inj split')
    have whole := takeWhile_append_dropWhile (p := fun c : Char => decide (c ≠ '.')) (l := rel.toList.reverse)
    have isDot : dot = '.' := by
      have head := List.head?_dropWhile_not (fun c : Char => decide (c ≠ '.')) rel.toList.reverse
      rw [found] at head
      simpa using head
    subst isDot
    rw [found] at whole
    have stops : ∀ c ∈ rel.toList.reverse.takeWhile (fun c : Char => decide (c ≠ '.')), c ≠ '.' := by
      intro c mem
      exact of_decide_eq_true (all_eq_true.mp all_takeWhile c mem)
    generalize rel.toList.reverse.takeWhile (fun c : Char => decide (c ≠ '.')) = leaf at whole stops
    constructor
    · apply String.toList_inj.mp
      rw [← reverse_reverse rel.toList,← whole]
      simp
    · rw [String.toList_ofList,mem_reverse]
      exact fun mem => stops '.' mem rfl
  · rintro ⟨rfl,dotless⟩
    have back : (name ++ "." ++ leaf).toList.reverse = leaf.toList.reverse ++ '.'::name.toList.reverse := by simp
    have stops : ∀ c ∈ leaf.toList.reverse, decide (c ≠ '.') = true := by
      intro c mem
      refine decide_eq_true ?_
      rintro rfl
      exact dotless (mem_reverse.mp mem)
    rw [back,dropWhile_append_of_pos stops,takeWhile_append_of_pos stops]
    simp

theorem relOfFile (name leaf : String) : relOf (fullPfx name ++ leaf) = name ++ "." ++ leaf := by
  apply String.toList_inj.mp
  simp [relOf,fullPfx,rootSlash]

theorem fileOfRel {path} (root' : rootSlash.toList.isPrefixOf path.toList = true)
    (rel : relOf path = name ++ "." ++ leaf) : path = fullPfx name ++ leaf := by
  obtain ⟨rest,joined⟩ := isPrefixOf_iff_prefix.mp root'
  apply String.toList_inj.mp
  have chars := congrArg String.toList rel
  rw [relOf,← joined,drop_left,String.toList_ofList] at chars
  rw [← joined,chars]
  simp [fullPfx]

theorem fileInjective {leaf'} (plain : '.' ∉ leaf.toList) (plain' : '.' ∉ leaf'.toList)
    (same : fullPfx name ++ leaf = fullPfx name' ++ leaf') : name = name' ∧ leaf = leaf' := by
  have rel := congrArg relOf same
  rw [relOfFile,relOfFile] at rel
  have first : splitLeaf (name ++ "." ++ leaf) = some (name,leaf) := splitLeafOk.mpr ⟨rfl,plain⟩
  have second : splitLeaf (name' ++ "." ++ leaf') = some (name',leaf') := splitLeafOk.mpr ⟨rfl,plain'⟩
  rw [rel,second] at first
  obtain ⟨rfl,rfl⟩ := Prod.mk.inj (Option.some.inj first)
  exact ⟨rfl,rfl⟩

theorem cellNotVersion (name name' : String) (seq : Nat) : cellFile name ≠ versionFile name' seq := by
  intro same
  obtain ⟨_,leaf⟩ := fileInjective cellLeaf.dotless (seqLeaf seq).dotless same
  have digit : 'c' ∈ (formatSeq seq).toList := leaf ▸ by decide
  rw [formatSeq,String.toList_ofList] at digit
  exact absurd (DecimalText.paddedDigit digit) (by decide)

theorem versionFileName {seq seq'} (same : versionFile name seq = versionFile name' seq') : name = name' :=
  (fileInjective (seqLeaf seq).dotless (seqLeaf seq').dotless same).1

theorem cellFileName (same : cellFile name = cellFile name') : name = name' :=
  (fileInjective cellLeaf.dotless cellLeaf.dotless same).1

end

def Proper (segment : List Char) : Prop := segment ≠ [] ∧ segment ≠ ['.'] ∧ segment ≠ ['.','.']

def SlashClean (path : String) : Prop := ∀ segment ∈ path.toList.splitOn '/', Proper segment

section
variable {chars : List Char} {name leaf : String}
theorem emptyLater {c} {segments : List (List Char)} (mem : [] ∈ segments.modifyHead (cons c)) :
    [] ∈ (segments.modifyHead (cons c)).tail := by
  cases segments with
  | nil => cases mem
  | cons first rest => simpa using mem

theorem emptyInside (inside : [] ∈ (chars.splitOn '/').tail) : chars.getLast? = some '/' ∨ ['/','/'] <:+: chars := by
  induction chars with
  | nil => cases inside
  | cons c rest ih =>
    have longer : [] ∈ (rest.splitOn '/').tail → (c::rest).getLast? = some '/' ∨ ['/','/'] <:+: c::rest := by
      intro deeper
      rcases ih deeper with last | found
      · exact .inl (by rw [getLast?_cons,last]; rfl)
      · exact .inr (infix_cons found)
    rw [splitOn_cons_eq_if_modifyHead] at inside
    split at inside
    · next slash =>
      cases rest with
      | nil => exact .inl (by simpa using slash)
      | cons d more =>
        by_cases again : d = '/'
        · exact .inr ⟨[],more,by simp_all⟩
        · refine longer ?_
          rw [splitOn_cons_eq_if_modifyHead,if_neg (by simpa using again)] at inside ⊢
          exact emptyLater inside
    · exact longer (tail_modifyHead ▸ inside)

theorem validProper (valid : validateName name = .ok ()) : SlashClean name := by
  simp only [validateName] at valid
  split at valid
  · cases valid
  next filled =>
  split at valid
  · cases valid
  next edges =>
  split at valid
  · cases valid
  next single =>
  split at valid
  · cases valid
  next steps =>
  rw [not_or] at edges
  rw [anyTail] at single
  intro segment mem
  refine ⟨?_,fun dot => steps (any_eq_true.mpr ⟨segment,mem,by simp [dot]⟩),fun dots => steps (any_eq_true.mpr ⟨segment,mem,by simp [dots]⟩)⟩
  rintro rfl
  cases chars : name.toList with
  | nil => exact filled chars
  | cons c rest =>
    have inside : [] ∈ (name.toList.splitOn '/').tail := by
      rw [chars,splitOn_cons_eq_if_modifyHead,if_neg (by simpa [chars] using edges.1)] at mem ⊢
      exact emptyLater mem
    exact (emptyInside inside).elim edges.2 single

theorem fileClean (valid : validateName name = .ok ()) (plain : PlainLeaf leaf.toList) (filled : leaf.toList ≠ []) :
    SlashClean (fullPfx name ++ leaf) := by
  obtain ⟨front,last,split⟩ := splitTail name.toList
  have proper := validProper valid
  have segments : (fullPfx name ++ leaf).toList.splitOn '/' = root.toList::(front ++ [last ++ '.'::leaf.toList]) := by
    have path : (fullPfx name ++ leaf).toList = root.toList ++ '/'::(name.toList ++ '.'::leaf.toList) := by
      simp [fullPfx,rootSlash,root]
    rw [path,splitOn_append_cons_self,split _ (by simp [plain.flat])]
    rfl
  have own := split [] not_mem_nil
  rw [append_nil,append_nil] at own
  rw [SlashClean,own] at proper
  rw [SlashClean,segments]
  intro segment mem
  rcases mem_cons.mp mem with rfl | mem
  · exact ⟨by decide,by decide,by decide⟩
  rcases mem_append.mp mem with before | final
  · exact proper segment (mem_append_left _ before)
  have some' := length_pos_of_ne_nil (proper last (by simp)).1
  have long := length_pos_of_ne_nil filled
  have size : 2 < segment.length := by
    rw [mem_singleton.mp final,length_append,length_cons]
    omega
  refine ⟨?_,?_,?_⟩ <;> rintro rfl <;> exact absurd size (by decide)

end

section
variable {fs pfx path a}
theorem walkedMem : path ∈ walked fs pfx ↔ path ∈ fs ∧ underDir root path = true ∧ continues pfx path = true := by
  rw [walked,mem_filter,listObjects,mem_filter,AList.mem_keys,and_assoc]

theorem underRoot (listed : underDir root path = true) : rootSlash.toList.isPrefixOf path.toList = true := by
  unfold underDir at listed
  exact (Bool.and_eq_true_iff.mp listed).1

theorem versionAtOk (inRoot : rootSlash.toList.isPrefixOf path.toList = true) :
    versionAt path = some a ↔ path = versionFile a.name a.seq ∧ a.seq < seqLimit ∧ a.path = path := by
  unfold versionAt
  simp only [bind,Option.bind_eq_some_iff,Prod.exists]
  constructor
  · rintro ⟨name,leaf,split',seq,parsed,last⟩
    cases last
    obtain ⟨rel,_⟩ := splitLeafOk.mp split'
    have file := fileOfRel inRoot rel
    have named : seqOf name path = some seq := by
      rw [seqOf,file,if_pos (by simp),String.toList_append,drop_left,String.ofList_toList]
      exact parsed
    obtain ⟨version,small⟩ := seqOfSource named
    exact ⟨version,small,rfl⟩
  · rintro ⟨version,small,same⟩
    have parsed : parseSeq (formatSeq a.seq) = some a.seq := by
      rw [parseSeq,formatSeq,String.toList_ofList]
      exact DecimalText.readPadded (by decide) small
    refine ⟨a.name,formatSeq a.seq,splitLeafOk.mpr ⟨?_,(seqLeaf a.seq).dotless⟩,a.seq,parsed,?_⟩
    · rw [version]
      exact relOfFile a.name (formatSeq a.seq)
    · rw [← same]
      rfl

theorem cellAtOk (inRoot : rootSlash.toList.isPrefixOf path.toList = true) :
    cellAt path = some a ↔ path = cellFile a.name ∧ a.seq = 0 ∧ a.path = path := by
  unfold cellAt
  simp only [bind,Option.bind_eq_some_iff,Prod.exists]
  constructor
  · rintro ⟨name,leaf,split',last⟩
    split at last
    · next cell =>
      cases last
      obtain ⟨rel,_⟩ := splitLeafOk.mp split'
      subst cell
      exact ⟨fileOfRel inRoot rel,rfl,rfl⟩
    · cases last
  · rintro ⟨cell,zero,same⟩
    refine ⟨a.name,"cell",splitLeafOk.mpr ⟨?_,cellLeaf.dotless⟩,?_⟩
    · rw [cell]
      exact relOfFile a.name "cell"
    · rw [if_pos rfl,← same,← zero]
      rfl

/-- The files of a valid name are slash-clean paths below the root. Each path belongs to one name, and to one version of
it or to its cell, and reads back as these. -/
theorem namingExactly {seq} (valid : validateName name = .ok ()) (small : seq < seqLimit) :
    ∃ version cell, versionPath name seq = .ok version ∧ cellPath name = .ok cell ∧
      (SlashClean version ∧ rootSlash.toList <+: version.toList) ∧ (SlashClean cell ∧ rootSlash.toList <+: cell.toList) ∧
      versionAt version = some ⟨name,seq,version⟩ ∧ cellAt version = none ∧
      cellAt cell = some ⟨name,0,cell⟩ ∧ versionAt cell = none ∧
      ∀ name' seq', seq' < seqLimit → (versionPath name' seq' = .ok version → name' = name ∧ seq' = seq) ∧
        versionPath name' seq' ≠ .ok cell ∧ (cellPath name' = .ok cell → name' = name) := by
  have inRoot (leaf : String) : rootSlash.toList <+: (fullPfx name ++ leaf).toList := by simp [fullPfx]
  have at' (leaf : String) := isPrefixOf_iff_prefix.mpr (inRoot leaf)
  have digits : (formatSeq seq).toList ≠ [] := by
    rw [formatSeq,String.toList_ofList,← length_pos_iff,DecimalText.paddedLength (by decide) small]
    decide
  have apart {name' seq'} : cellFile name ≠ versionFile name' seq' := cellNotVersion name name' seq'
  refine ⟨versionFile name seq,cellFile name,by rw [versionPath,valid]; rfl,by rw [cellPath,valid]; rfl,
    ⟨fileClean valid (seqLeaf seq) digits,inRoot _⟩,⟨fileClean valid cellLeaf (by decide),inRoot _⟩,
    (versionAtOk (at' _)).mpr ⟨rfl,small,rfl⟩,?_,(cellAtOk (at' _)).mpr ⟨rfl,rfl,rfl⟩,?_,fun name' seq' small' => ⟨?_,?_,?_⟩⟩
  · refine Option.eq_none_iff_forall_ne_some.mpr fun a found => ?_
    exact cellNotVersion a.name name seq ((cellAtOk (at' _)).mp found).1.symm
  · exact Option.eq_none_iff_forall_ne_some.mpr fun a found => apart ((versionAtOk (at' _)).mp found).1
  · intro ok
    have same := (versionPathOk ok).2
    cases versionFileName same
    exact ⟨rfl,(versionFileInjective small small' same).symm⟩
  · exact fun ok => apart (versionPathOk ok).2
  · exact fun ok => (cellFileName (cellPathOk ok)).symm

theorem dottedNameClean : ∃ version, versionPath "cell.7/cell" 7 = .ok version ∧ SlashClean version := by
  have valid : validateName "cell.7/cell" = .ok () := by decide +kernel
  have small : 7 < seqLimit := by decide
  obtain ⟨version,_,named,_,⟨clean,_⟩,_⟩ := namingExactly valid small
  exact ⟨version,named,clean⟩

structure Listed (fs : Fs) (pfx : String) (a : Active) : Prop where
  version : a.path = versionFile a.name a.seq
  small : a.seq < seqLimit
  present : a.path ∈ fs
  listed : listedName a.name = true
  continued : continues pfx a.path = true

theorem versionsWalked : a ∈ (walked fs pfx).filterMap versionAt ↔ Listed fs pfx a := by
  rw [mem_filterMap]
  constructor
  · rintro ⟨path,mem,found⟩
    obtain ⟨present,listed,continued⟩ := walkedMem.mp mem
    obtain ⟨version,small,rfl⟩ := (versionAtOk (underRoot listed)).mp found
    exact ⟨version,small,present,by rw [← versionListed a.name a.seq,← version]; exact listed,continued⟩
  · intro here
    have listed : underDir root a.path = true := by
      rw [here.version,versionListed]
      exact here.listed
    exact ⟨a.path,walkedMem.mpr ⟨here.present,listed,here.continued⟩,(versionAtOk (underRoot listed)).mpr ⟨here.version,here.small,rfl⟩⟩

theorem cellsWalked : a ∈ listCells fs pfx ↔
    a.path = cellFile a.name ∧ a.seq = 0 ∧ a.path ∈ fs ∧ listedName a.name = true ∧ continues pfx a.path = true := by
  rw [listCells,mem_insertionSort,mem_filterMap]
  constructor
  · rintro ⟨path,mem,found⟩
    obtain ⟨present,listed,continued⟩ := walkedMem.mp mem
    obtain ⟨cell,zero,rfl⟩ := (cellAtOk (underRoot listed)).mp found
    exact ⟨cell,zero,present,by rw [← cellListed a.name,← cell]; exact listed,continued⟩
  · rintro ⟨cell,zero,present,listed,continued⟩
    have under : underDir root a.path = true := by
      rw [cell,cellListed]
      exact listed
    exact ⟨a.path,walkedMem.mpr ⟨present,under,continued⟩,(cellAtOk (underRoot under)).mpr ⟨cell,zero,rfl⟩⟩

theorem cellAtPath (found : cellAt path = some a) : a.path = path := by
  unfold cellAt at found
  simp only [bind,Option.bind_eq_some_iff,Prod.exists] at found
  obtain ⟨_,_,_,last⟩ := found
  split at last
  · cases last
    rfl
  · cases last

theorem cellsNodup : ((listCells fs pfx).map Active.name).Nodup := by
  have distinct : ((walked fs pfx).filterMap cellAt).Nodup := by
    refine List.Nodup.filterMap (fun p q c foundP foundQ => ?_) ((fs.keys_nodup.filter _).filter _)
    rw [← cellAtPath foundP,← cellAtPath foundQ]
  have sorted : (listCells fs pfx).Nodup := (perm_insertionSort _ _).nodup_iff.mpr distinct
  refine sorted.map_on fun a memA b memB same => ?_
  obtain ⟨pathA,zeroA,_⟩ := cellsWalked.mp memA
  obtain ⟨pathB,zeroB,_⟩ := cellsWalked.mp memB
  cases a
  cases b
  simp_all

end

section
variable {fs pfx a}
structure BestOf (seen : List Active) (t : Table String Active) : Prop where
  keyed : ∀ {n a}, t.lookup n = some a → a.name = n ∧ a ∈ seen
  top : ∀ b ∈ seen, ∃ a, t.lookup b.name = some a ∧ b.seq ≤ a.seq

variable {seen t}

theorem bestInsert (best : BestOf seen t) (above : ∀ cur, t.lookup a.name = some cur → cur.seq ≤ a.seq) :
    BestOf (seen ++ [a]) (t.insert a.name a) := by
  constructor
  · intro n b found
    rw [lookupInsert] at found
    split at found
    · next same =>
      cases found
      exact ⟨same.symm,by simp⟩
    · obtain ⟨keyed,mem⟩ := best.keyed found
      exact ⟨keyed,mem_append_left _ mem⟩
  · intro b mem
    rw [lookupInsert]
    split
    · next same =>
      refine ⟨a,rfl,?_⟩
      rcases mem_append.mp mem with old | new
      · obtain ⟨cur,found,lower⟩ := best.top b old
        exact lower.trans (above cur (same ▸ found))
      · cases mem_singleton.mp new
        exact le_rfl
    · next other =>
      rcases mem_append.mp mem with old | new
      · exact best.top b old
      · cases mem_singleton.mp new
        exact absurd rfl other

theorem bestStep (best : BestOf seen t) : BestOf (seen ++ [a]) (better t a) := by
  unfold better
  split
  · next absent => exact bestInsert best fun cur found => by cases absent.symm.trans found
  next cur found =>
    split
    · next higher =>
      refine bestInsert best fun cur' found' => ?_
      cases Trace.someSame found found'
      exact Nat.le_of_lt higher
    · next lower =>
      refine ⟨fun here => ?_,fun b mem => ?_⟩
      · obtain ⟨keyed,mem⟩ := best.keyed here
        exact ⟨keyed,mem_append_left _ mem⟩
      · rcases mem_append.mp mem with old | new
        · exact best.top b old
        · cases mem_singleton.mp new
          exact ⟨cur,found,Nat.not_lt.mp lower⟩

theorem bestFold (rest : List Active) (best : BestOf seen t) : BestOf (seen ++ rest) (rest.foldl better t) := by
  induction rest generalizing seen t with
  | nil => simpa using best
  | cons a rest ih =>
    rw [foldl_cons,append_cons]
    exact ih (bestStep best)

theorem bestWalked (fs : Fs) (pfx : String) :
    BestOf ((walked fs pfx).filterMap versionAt) (((walked fs pfx).filterMap versionAt).foldl better ∅) := by
  have start : BestOf [] ∅ := ⟨fun found => (by cases found),fun b mem => (by cases mem)⟩
  exact bestFold _ start

theorem activeMem : a ∈ listActive fs pfx ↔ Listed fs pfx a ∧ ∀ b, Listed fs pfx b → b.name = a.name → b.seq ≤ a.seq := by
  have best := bestWalked fs pfx
  rw [listActive,mem_insertionSort,mem_map]
  constructor
  · rintro ⟨⟨n,b⟩,mem,rfl⟩
    have found := lookupEntry.mpr mem
    obtain ⟨keyed,seen⟩ := best.keyed found
    refine ⟨versionsWalked.mp seen,fun c listed same => ?_⟩
    obtain ⟨top,here,above⟩ := best.top c (versionsWalked.mpr listed)
    rw [same,keyed,found] at here
    cases here
    exact above
  · rintro ⟨listed,top⟩
    obtain ⟨b,found,above⟩ := best.top a (versionsWalked.mpr listed)
    obtain ⟨keyed,seen⟩ := best.keyed found
    have other := versionsWalked.mp seen
    have below := top b other keyed
    have same : b = a := by
      obtain ⟨_,_,_⟩ := a
      obtain ⟨_,_,_⟩ := b
      have seqs := Nat.le_antisymm below above
      have pathA := listed.version
      have pathB := other.version
      simp_all
    exact ⟨_,lookupEntry.mp found,same⟩

theorem activeNodup : ((listActive fs pfx).map Active.name).Nodup := by
  have best := bestWalked fs pfx
  have perm := (perm_insertionSort byName
    ((((walked fs pfx).filterMap versionAt).foldl better ∅).entries.map fun entry => entry.2)).map Active.name
  refine perm.nodup_iff.mpr ?_
  rw [map_map]
  have keys : (((walked fs pfx).filterMap versionAt).foldl better ∅).entries.map (Active.name ∘ fun entry => entry.2) =
      (((walked fs pfx).filterMap versionAt).foldl better ∅).entries.map Sigma.fst :=
    map_congr_left fun entry mem => (best.keyed (lookupEntry.mpr mem)).1
  rw [keys]
  exact (((walked fs pfx).filterMap versionAt).foldl better ∅).nodupKeys

end

end Scrinium.Named
