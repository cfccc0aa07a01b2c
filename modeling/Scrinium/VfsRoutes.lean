import Scrinium.Edits

/-! The namespace of a mounted VFS: the router of reads, and the prefix test each mutator has of its own. -/
namespace Scrinium.Vfs
open List hiding after
open Projection Fsops
open Pathx (isUnder)

structure Config where
  servicePrefix : String
  showStats : Bool
  showByArtifact : Bool
  showOrphaned : Bool
  showByDate : Bool
  showBySession : Bool
  showProvidedViews : Bool
  showRaw : Bool
  unprefixedServiceTrees : Bool
  deriving DecidableEq

inductive Target where
  | root (tree subPath : String)
  | serviceTree (tree subPath : String)
  | serviceRoot
  | statsFile
  | rawMirror (rawSubPath : String)
  deriving DecidableEq

def splitFirst (p : String) : String × String :=
  (String.ofList (p.toList.takeWhile (· ≠ '/')),String.ofList ((p.toList.dropWhile (· ≠ '/')).drop 1))

def shown (show' : Bool) (target : Target) : Option Target := if show' then some target else none

section
variable (cfg : Config) (rootView : String) (providedRoots : String → Bool)

def dispatchServiceTree (path : String) : Option Target :=
  let (tree,rest) := splitFirst path
  match tree with
  | "stats" => if rest ≠ "" then none else shown cfg.showStats .statsFile
  | "by-artifact" => shown cfg.showByArtifact (.serviceTree rootByArtifact rest)
  | "orphaned" => shown cfg.showOrphaned (.serviceTree rootByOrphaned rest)
  | "by-date" => shown cfg.showByDate (.serviceTree rootByDate rest)
  | "by-session" => shown cfg.showBySession (.serviceTree rootBySession rest)
  | "raw" => shown cfg.showRaw (.rawMirror rest)
  | _ =>
    if cfg.showProvidedViews && providedRoots tree then some (.serviceTree tree rest)
    else if cfg.servicePrefix = "" && cfg.unprefixedServiceTrees then some (.root rootView path)
    else none

def route (path : String) : Option Target :=
  if path = "" then some (.root rootView "")
  else if cfg.servicePrefix = "" then
    if cfg.unprefixedServiceTrees then dispatchServiceTree cfg rootView providedRoots path else some (.root rootView path)
  else if (splitFirst path).1 ≠ cfg.servicePrefix then some (.root rootView path)
  else if (splitFirst path).2 = "" then some .serviceRoot
  else dispatchServiceTree cfg rootView providedRoots (splitFirst path).2

end

def cleanPath (name : String) : String :=
  let bare := if name.toList.head? = some '/' then name.toList.drop 1 else name.toList
  String.ofList (if bare.getLast? = some '/' then bare.dropLast else bare)

def isAtServiceRoot (clean : String) (cfg : Config) : Bool :=
  if cfg.servicePrefix = "" then false else isUnder clean cfg.servicePrefix

section

structure FsOps (S : Type) where
  mkdir : S → String → UInt32 → S × Except Fault Unit
  unlink : S → String → S × Except Fault Unit
  rmdir : S → String → S × Except Fault Unit
  removeTree : S → String → S × Except Fault Unit
  rename : S → String → String → S × Except Fault Unit
  truncate : S → String → Int → S × Except Fault Unit
  setattr : S → String → Attrs → S × Except Fault Unit

inductive Verb where
  | mkdir (perm : UInt32)
  | removeAll
  | removeTree
  | truncate (size : Int)
  | setattr (attrs : Attrs)
  | rename (newName : String)
  deriving DecidableEq

variable {S : Type} (ops : FsOps S) (s : S)

def unlinkOrRmdir (path : String) : S × Except Fault Unit :=
  match ops.unlink s path with
  | (s,.error (.isADirectory _)) => ops.rmdir s path
  | done => done

def FsOps.act (path : String) : Verb → S × Except Fault Unit
  | .mkdir perm => ops.mkdir s path perm
  | .removeAll => unlinkOrRmdir ops s path
  | .removeTree => ops.removeTree s path
  | .truncate size => ops.truncate s path size
  | .setattr attrs => ops.setattr s path attrs
  | .rename newPath => ops.rename s path newPath

variable (cfg : Config) (name : String)

def guarded (refused : Bool) (act : S × Except Fault Unit) : S × Except Fault Unit :=
  if refused then (s,.error .editingDisabled) else act

/- With rename the two that let the mount root through. -/
def mkdir (perm : UInt32) : S × Except Fault Unit :=
  guarded s (isAtServiceRoot (cleanPath name) cfg) (ops.act s (cleanPath name) (.mkdir perm))

def readOnlyPath (clean : String) : Bool := clean = "" || isAtServiceRoot clean cfg
def removeAll : S × Except Fault Unit := guarded s (readOnlyPath cfg (cleanPath name)) (ops.act s (cleanPath name) .removeAll)
def removeTree : S × Except Fault Unit := guarded s (readOnlyPath cfg (cleanPath name)) (ops.act s (cleanPath name) .removeTree)

def truncate (size : Int) : S × Except Fault Unit :=
  guarded s (readOnlyPath cfg (cleanPath name)) (ops.act s (cleanPath name) (.truncate size))

def setattr (attrs : Attrs) : S × Except Fault Unit :=
  guarded s (readOnlyPath cfg (cleanPath name)) (ops.act s (cleanPath name) (.setattr attrs))

def rename (newName : String) : S × Except Fault Unit :=
  guarded s (isAtServiceRoot (cleanPath newName) cfg) (ops.act s (cleanPath name) (.rename (cleanPath newName)))

def mutate : Verb → S × Except Fault Unit
  | .mkdir perm => mkdir ops s cfg name perm
  | .removeAll => removeAll ops s cfg name
  | .removeTree => removeTree ops s cfg name
  | .truncate size => truncate ops s cfg name size
  | .setattr attrs => setattr ops s cfg name attrs
  | .rename newName => rename ops s cfg name newName

end

def serviceTrees : List String := ["stats","by-artifact","orphaned","by-date","by-session","raw"]

section
variable {cfg rootView provided p above clean}
theorem firstPlain (p : String) : '/' ∉ (splitFirst p).1.toList := by
  rw [splitFirst,String.toList_ofList]
  intro mem
  have plain := mem_takeWhile_imp mem
  simp at plain

theorem takenUntil {c} {l pre : List Char} (plain : c ∉ pre) :
    l.takeWhile (· ≠ c) = pre ↔ l = pre ∨ pre ++ [c] <+: l := by
  induction l generalizing pre with
  | nil => cases pre <;> simp
  | cons x tail ih =>
    by_cases stop : x = c
    · cases pre with
      | nil => simp [stop]
      | cons y ys =>
        have differ : c ≠ y := fun same => plain (same ▸ mem_cons_self)
        simp [stop,differ,Ne.symm differ]
    · cases pre with
      | nil => simp [stop,Ne.symm stop]
      | cons y ys =>
        rw [takeWhile_cons_of_pos (by simpa using stop),cons_append,cons_prefix_cons,List.cons.injEq,
          List.cons.injEq,ih fun mem => plain (mem_cons_of_mem y mem),eq_comm (a := y),and_or_left]

theorem firstUnder (plain : '/' ∉ above.toList) (named : above ≠ "") : (splitFirst p).1 = above ↔ isUnder p above = true := by
  have letters : (splitFirst p).1 = above ↔ p.toList.takeWhile (· ≠ '/') = above.toList := by
    rw [splitFirst,← String.toList_inj,String.toList_ofList]
  rw [letters,takenUntil plain,isUnder,if_neg named,Bool.or_eq_true,decide_eq_true_eq, isPrefixOf_iff_prefix,
    String.toList_append,String.toList_inj]
  rfl

def Served (cfg : Config) (provided : String → Bool) (clean : String) : Prop :=
  clean ≠ "" ∧ if cfg.servicePrefix = "" then
    cfg.unprefixedServiceTrees = true ∧ ((splitFirst clean).1 ∈ serviceTrees ∨
      cfg.showProvidedViews = true ∧ provided (splitFirst clean).1 = true)
  else (splitFirst clean).1 = cfg.servicePrefix

def Target.isRoot : Target → Bool
  | .root _ _ => true
  | _ => false

def rootPath (cfg : Config) (rootView : String) (provided : String → Bool) (name : String) : Option String :=
  match route cfg rootView provided (cleanPath name) with
  | some (.root _ subPath) => some subPath
  | _ => none

theorem shownAway (show' : Bool) {target} (away : target.isRoot = false) (tree sub : String) :
    shown show' target ≠ some (.root tree sub) := by
  unfold shown
  split
  · intro same
    cases same
    cases away
  · nofun

theorem dispatchRoot {tree sub} : dispatchServiceTree cfg rootView provided p = some (.root tree sub) ↔
    (splitFirst p).1 ∉ serviceTrees ∧ (cfg.showProvidedViews && provided (splitFirst p).1) = false ∧
      cfg.servicePrefix = "" ∧ cfg.unprefixedServiceTrees = true ∧ tree = rootView ∧ sub = p := by
  have away : ∀ {target : Option Target}, target ≠ some (.root tree sub) → (splitFirst p).1 ∈ serviceTrees →
      (target = some (.root tree sub) ↔ (splitFirst p).1 ∉ serviceTrees ∧
        (cfg.showProvidedViews && provided (splitFirst p).1) = false ∧ cfg.servicePrefix = "" ∧
        cfg.unprefixedServiceTrees = true ∧ tree = rootView ∧ sub = p) :=
    fun apart named => iff_of_false apart fun h => h.1 named
  unfold dispatchServiceTree
  dsimp only
  split
  · next named =>
    refine away ?_ (by rw [named]; decide)
    split
    · nofun
    · exact shownAway _ rfl _ _
  · next named => exact away (shownAway _ rfl _ _) (by rw [named]; decide)
  · next named => exact away (shownAway _ rfl _ _) (by rw [named]; decide)
  · next named => exact away (shownAway _ rfl _ _) (by rw [named]; decide)
  · next named => exact away (shownAway _ rfl _ _) (by rw [named]; decide)
  · next named => exact away (shownAway _ rfl _ _) (by rw [named]; decide)
  · next stats artifact orphaned date session raw =>
    have other : (splitFirst p).1 ∉ serviceTrees := by
      simp only [serviceTrees,mem_cons,not_mem_nil,or_false,not_or]
      exact ⟨stats,artifact,orphaned,date,session,raw⟩
    split
    · next provides => exact iff_of_false nofun fun h => by rw [provides] at h; cases h.2.1
    next hidden =>
    rw [Bool.not_eq_true] at hidden
    split
    · next plain =>
      rw [Bool.and_eq_true,decide_eq_true_eq] at plain
      simp [other,hidden,plain,eq_comm]
    · next plain =>
      refine iff_of_false nofun fun h => plain ?_
      rw [Bool.and_eq_true,decide_eq_true_eq]
      exact ⟨h.2.2.1,h.2.2.2.1⟩

theorem routeRoot (cfg : Config) (rootView : String) (provided : String → Bool) (clean : String) :
    route cfg rootView provided clean =
    some (.root rootView clean) ∧ ¬ Served cfg provided clean ∨
    (∀ tree sub, route cfg rootView provided clean ≠ some (.root tree sub)) ∧ Served cfg provided clean := by
  unfold route Served
  by_cases blank : clean = ""
  · simp [blank]
  rw [if_neg blank]
  by_cases bare : cfg.servicePrefix = ""
  · rw [if_pos bare,if_pos bare]
    by_cases unprefixed : cfg.unprefixedServiceTrees = true
    · rw [if_pos unprefixed]
      by_cases plain : (splitFirst clean).1 ∉ serviceTrees ∧ (cfg.showProvidedViews && provided (splitFirst clean).1) = false
      · refine .inl ⟨dispatchRoot.mpr ⟨plain.1,plain.2,bare,unprefixed,rfl,rfl⟩,fun served => ?_⟩
        rcases served.2.2 with named | ⟨views,there⟩
        · exact plain.1 named
        · exact absurd plain.2 (by simp [views,there])
      · refine .inr ⟨fun tree sub same => plain ?_,blank,unprefixed,?_⟩
        · exact ⟨(dispatchRoot.mp same).1,(dispatchRoot.mp same).2.1⟩
        · rw [not_and_or,not_not,Bool.not_eq_false,Bool.and_eq_true] at plain
          exact plain
    · rw [if_neg unprefixed]
      exact .inl ⟨rfl,fun served => unprefixed served.2.1⟩
  · rw [if_neg bare,if_neg bare]
    by_cases other : (splitFirst clean).1 = cfg.servicePrefix
    · rw [if_neg (not_not.mpr other)]
      refine .inr ⟨fun tree sub => ?_,blank,other⟩
      split
      · nofun
      · exact fun same => bare (dispatchRoot.mp same).2.2.1
    · rw [if_pos other]
      exact .inl ⟨rfl,fun served => other served.2⟩

def Aligned (cfg : Config) (provided : String → Bool) (clean : String) : Prop :=
  if cfg.servicePrefix = "" then
    clean = "" ∨ cfg.unprefixedServiceTrees = false ∨
      (splitFirst clean).1 ∉ serviceTrees ∧ (cfg.showProvidedViews = false ∨ provided (splitFirst clean).1 = false)
  else '/' ∈ cfg.servicePrefix.toList → isUnder clean cfg.servicePrefix = false

theorem alignedIff : Aligned cfg provided clean ↔ (isAtServiceRoot clean cfg = true ↔ Served cfg provided clean) := by
  unfold Aligned Served isAtServiceRoot
  by_cases bare : cfg.servicePrefix = ""
  · simp only [if_pos bare,Bool.false_eq_true,false_iff,not_and_or,not_or,not_not,Bool.not_eq_true]
  simp only [if_neg bare]
  have named : (splitFirst clean).1 = cfg.servicePrefix → clean ≠ "" := by
    rintro first rfl
    exact bare first.symm
  by_cases slash : '/' ∈ cfg.servicePrefix.toList
  · have never : (splitFirst clean).1 ≠ cfg.servicePrefix := fun first => firstPlain clean (first ▸ slash)
    simp [slash,never]
  · rw [← firstUnder slash bare]
    exact iff_of_true (fun mem => absurd mem slash) ⟨fun first => ⟨named first,first⟩,fun served => served.2⟩

theorem rootPathOf (cfg : Config) (rootView : String) (provided : String → Bool) (name : String) :
    rootPath cfg rootView provided name = some (cleanPath name) ∧
      ¬ Served cfg provided (cleanPath name) ∨
    rootPath cfg rootView provided name = none ∧ Served cfg provided (cleanPath name) := by
  unfold rootPath
  rcases routeRoot cfg rootView provided (cleanPath name) with ⟨there,unserved⟩ | ⟨away,served⟩
  · rw [there]
    exact .inl ⟨rfl,unserved⟩
  · refine .inr ⟨?_,served⟩
    split
    · next tree _ same => exact absurd same (away tree _)
    · rfl

end

section
variable {cfg rootView provided name verb}

/- The path a name stands for, and the call with its own other name replaced by the path that one stands for. -/
def routed (paths : String → Option String) (name : String) : Verb → Option (String × Verb)
  | .rename newName => do return (← paths name,.rename (← paths newName))
  | verb => do return (← paths name,verb)

/- A call on names of the root view is the FSOps call on the paths they route to; any other call is refused and
leaves FSOps as it was. -/
def Agrees {S : Type} (ops : FsOps S) (s : S) (cfg : Config) (rootView : String) (provided : String → Bool) (name : String)
    (verb : Verb) : Prop :=
  match routed (rootPath cfg rootView provided) name verb with
  | some (path,call) => mutate ops s cfg name verb = ops.act s path call
  | none => ∃ fault, mutate ops s cfg name verb = (s,.error fault)

def RoutedAlike (cfg : Config) (provided : String → Bool) (name : String) : Verb → Prop
  | .mkdir _ => Aligned cfg provided (cleanPath name)
  | .rename newName => Aligned cfg provided (cleanPath newName) ∧
    if cfg.servicePrefix = "" then Aligned cfg provided (cleanPath name)
    else (splitFirst (cleanPath name)).1 = cfg.servicePrefix → isUnder (cleanPath newName) cfg.servicePrefix = true
  | _ => cleanPath name ≠ "" ∧ Aligned cfg provided (cleanPath name)

def Verb.cleaned : Verb → Verb
  | .rename newName => .rename (cleanPath newName)
  | verb => verb

def refuses (cfg : Config) (name : String) : Verb → Bool
  | .mkdir _ => isAtServiceRoot (cleanPath name) cfg
  | .rename newName => isAtServiceRoot (cleanPath newName) cfg
  | _ => readOnlyPath cfg (cleanPath name)

def Away (cfg : Config) (provided : String → Bool) (name : String) : Verb → Prop
  | .rename newName => Served cfg provided (cleanPath name) ∨ Served cfg provided (cleanPath newName)
  | _ => Served cfg provided (cleanPath name)

theorem mutateGuarded {S : Type} (ops : FsOps S) (s : S) :
    mutate ops s cfg name verb = guarded s (refuses cfg name verb) (ops.act s (cleanPath name) verb.cleaned) := by
  cases verb <;> rfl

theorem routedOf (cfg : Config) (rootView : String) (provided : String → Bool) (name : String) (verb : Verb) :
    routed (rootPath cfg rootView provided) name verb = some (cleanPath name,verb.cleaned) ∧ ¬ Away cfg provided name verb ∨
      routed (rootPath cfg rootView provided) name verb = none ∧ Away cfg provided name verb := by
  rcases rootPathOf cfg rootView provided name with ⟨there,unserved⟩ | ⟨away,served⟩
  · cases verb with
    | rename newName =>
      rcases rootPathOf cfg rootView provided newName with ⟨next,free⟩ | ⟨next,served⟩
      · exact .inl ⟨by simp [routed,there,next,Verb.cleaned],not_or.mpr ⟨unserved,free⟩⟩
      · exact .inr ⟨by simp [routed,there,next],.inr served⟩
    | _ => exact .inl ⟨by simp [routed,there,Verb.cleaned],unserved⟩
  · cases verb with
    | rename newName => exact .inr ⟨by simp [routed,away],.inl served⟩
    | _ => exact .inr ⟨by simp [routed,away],served⟩

def counting : FsOps Nat :=
  ⟨fun n _ _ => (n+1,.ok ()),fun n _ => (n+1,.ok ()),fun n _ => (n+1,.ok ()),fun n _ => (n+1,.ok ()),
    fun n _ _ => (n+1,.ok ()),fun n _ _ => (n+1,.ok ()),fun n _ _ => (n+1,.ok ())⟩

theorem likeAgrees {S : Type} (ops : FsOps S) (s : S) (like : refuses cfg name verb = true ↔ Away cfg provided name verb) :
    Agrees ops s cfg rootView provided name verb := by
  unfold Agrees
  rcases routedOf cfg rootView provided name verb with ⟨there,here⟩ | ⟨there,away⟩
  · simp only [there,mutateGuarded,guarded]
    exact if_neg (mt like.mp here)
  · simp only [there,mutateGuarded,guarded]
    exact ⟨_,if_pos (like.mpr away)⟩

/- In a state where FSOps would do the call, its answer tells the two tests apart. -/
theorem agreesLike {S : Type} {ops : FsOps S} {s : S} (does : (ops.act s (cleanPath name) verb.cleaned).2 = .ok ())
    (agrees : Agrees ops s cfg rootView provided name verb) : refuses cfg name verb = true ↔ Away cfg provided name verb := by
  unfold Agrees at agrees
  rcases routedOf cfg rootView provided name verb with ⟨there,here⟩ | ⟨there,away⟩
  · simp only [there,mutateGuarded,guarded] at agrees
    refine iff_of_false (fun refused => ?_) here
    rw [if_pos refused] at agrees
    rw [← agrees] at does
    cases does
  · simp only [there,mutateGuarded,guarded] at agrees
    refine iff_of_true (by_contra fun passed => ?_) away
    obtain ⟨fault,same⟩ := agrees
    rw [if_neg passed] at same
    rw [same] at does
    cases does

theorem alikeIff : RoutedAlike cfg provided name verb ↔ (refuses cfg name verb = true ↔ Away cfg provided name verb) := by
  have below : (cleanPath name ≠ "" ∧ Aligned cfg provided (cleanPath name)) ↔
      (readOnlyPath cfg (cleanPath name) = true ↔ Served cfg provided (cleanPath name)) := by
    rw [alignedIff,readOnlyPath,Bool.or_eq_true,decide_eq_true_eq]
    by_cases blank : cleanPath name = ""
    · simp [blank,Served]
    · simp [blank]
  cases verb with
  | mkdir _ => exact alignedIff
  | rename newName =>
    unfold refuses Away RoutedAlike
    by_cases bare : cfg.servicePrefix = ""
    · have open' : ∀ clean, isAtServiceRoot clean cfg = false := fun clean => if_pos bare
      simp only [if_pos bare,alignedIff,open',Bool.false_eq_true,false_iff,not_or,and_comm]
    have guard : isAtServiceRoot (cleanPath newName) cfg = isUnder (cleanPath newName) cfg.servicePrefix := if_neg bare
    -- a name under the prefix has a prefix of one segment, and then the two tests on the destination are one
    have old : Served cfg provided (cleanPath name) → Aligned cfg provided (cleanPath newName) := by
      intro served
      rw [Served,if_neg bare] at served
      rw [Aligned,if_neg bare]
      exact fun slash => absurd (served.2 ▸ slash) (firstPlain (cleanPath name))
    have first : (splitFirst (cleanPath name)).1 = cfg.servicePrefix ↔ Served cfg provided (cleanPath name) := by
      rw [Served,if_neg bare]
      refine ⟨fun same => ⟨fun blank => bare ?_,same⟩,fun served => served.2⟩
      rw [← same,blank]
      rfl
    simp only [if_neg bare,first,← guard]
    by_cases served : Served cfg provided (cleanPath name)
    · simp only [served,true_or,iff_true,old served,true_and,true_imp_iff]
    · simp only [served,false_or,alignedIff,false_imp_iff,and_true]
  | _ => exact below

/-- A mutation is routed like a read exactly when its prefix test and the router see its path alike: no service tree
at the root, no path under a prefix of several segments, no removal of the root, no Rename out of the prefix. Where FSOps
does the call, one state of it tells. -/
theorem mutationsRoutedExactly (cfg : Config) (rootView : String) (provided : String → Bool) (name : String) (verb : Verb) :
    ((∀ (S : Type) (ops : FsOps S) (s : S), Agrees ops s cfg rootView provided name verb) ↔ RoutedAlike cfg provided name verb) ∧
      ∀ (S : Type) (ops : FsOps S) (s : S), (ops.act s (cleanPath name) verb.cleaned).2 = .ok () →
        (Agrees ops s cfg rootView provided name verb ↔ RoutedAlike cfg provided name verb) := by
  have does : (counting.act 0 (cleanPath name) verb.cleaned).2 = .ok () := by
    cases verb <;> rfl
  refine ⟨⟨fun agrees => alikeIff.mpr (agreesLike does (agrees Nat counting 0)),
    fun alike S ops s => likeAgrees ops s (alikeIff.mp alike)⟩,fun S ops s does => ?_⟩
  exact ⟨fun agrees => alikeIff.mpr (agreesLike does agrees),fun alike => likeAgrees ops s (alikeIff.mp alike)⟩

end

def sampleConfig : Config := ⟨"",true,true,true,true,true,true,true,true⟩

/- The FSOps of Scrinium.Fsops; its removals are open. -/
def fsops (o : Ops) (renameDirTree : Mounted → String → String → Mounted × Except Fault Unit) (d : Draw)
    (unlink rmdir removeTree : Mounted → String → Mounted × Except Fault Unit) : FsOps Mounted where
  mkdir σ path _ := Fsops.mkdir o σ path
  unlink := unlink
  rmdir := rmdir
  removeTree := removeTree
  rename σ path newPath := Fsops.rename o renameDirTree σ path newPath d
  truncate σ path size := performEdit o renameDirTree σ path (.truncate size) d
  setattr σ path attrs := performEdit o renameDirTree σ path (.setattr attrs) d

def sampleOps : FsOps Mounted :=
  let absent (σ : Mounted) (path : String) : Mounted × Except Fault Unit := (σ,.error (.pathNotFound path))
  fsops (sampleMount .unique) noTree sampleDraw absent absent absent

theorem serviceTreeMade :
    route sampleConfig rootByPath (fun _ => false) (cleanPath "/by-date/x") = some (.serviceTree rootByDate "x") ∧
      (mutate sampleOps uniqueMounted sampleConfig "/by-date/x" (.mkdir 493)).2 = .ok () ∧
      (mutate sampleOps uniqueMounted sampleConfig "/by-date/x" (.mkdir 493)).1.pendingDirs = ["by-date/x"] ∧
      ¬ Agrees sampleOps uniqueMounted sampleConfig rootByPath (fun _ => false) "/by-date/x" (.mkdir 493) := by
  have made : (mutate sampleOps uniqueMounted sampleConfig "/by-date/x" (.mkdir 493)).2 = .ok () := by decide +kernel
  refine ⟨by decide +kernel,made,by decide +kernel,?_⟩
  have elsewhere : routed (rootPath sampleConfig rootByPath fun _ => false) "/by-date/x" (.mkdir 493) = none := by decide +kernel
  unfold Agrees
  rw [elsewhere]
  rintro ⟨fault,refused⟩
  rw [refused] at made
  cases made

end Scrinium.Vfs
