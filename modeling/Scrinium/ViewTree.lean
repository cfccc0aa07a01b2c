import Mathlib.Data.String.Basic
import Scrinium.Domain
import Scrinium.Pathx

/-! One tree of the projection's View: a map from paths to nodes in which directories are nodes of their own. -/
namespace Scrinium.Projection
open Domain Hierarchy Function List
open Pathx (Path)

structure FilesystemFacet where
  name : String
  path : Path
  isDir : Bool
  size : Int
  modTime : Option Instant
  deriving DecidableEq

structure ArtifactFacet where
  artifactID : String
  contentHash : String
  blobRef : String
  sessionID : String
  createdAt : Option Instant
  ext : Bytes
  deriving DecidableEq

structure Node where
  fs : FilesystemFacet
  artifact : Option ArtifactFacet
  children : List String
  deriving DecidableEq

abbrev Tree := Path → Option Node
def newDirNode (name : String) (path : Path) (modTime : Option Instant) : Node := ⟨⟨name,path,true,0,modTime⟩,none,[]⟩

def artifactFacetFrom (m : Manifest) : ArtifactFacet :=
  ⟨m.artifactID,m.contentHash,m.primaryBlobRef,m.sessionID,m.createdAt,m.ext⟩

def hang (t : Tree) (name : String) (dir : Path) (node : Node) : Tree :=
  let t := update t (name::dir) (some node)
  match t dir with
  | some pn => update t dir (some {pn with children := insertSorted name pn.children})
  | none => t

variable {t : Tree} {name : String} {dir : Path} {node : Node}

section
variable {pn}
theorem hangUnder (parent : t dir = some pn) :
    hang t name dir node = update (update t (name::dir) (some node)) dir
      (some {pn with children := insertSorted name pn.children}) := by
  simp only [hang,update_of_ne (childApart : dir ≠ name::dir),parent]

theorem hangLoose (parent : t dir = none) : hang t name dir node = update t (name::dir) (some node) := by
  simp only [hang,update_of_ne (childApart : dir ≠ name::dir),parent]

end

/- Of a path that starts with a slash the source takes the empty first segment for the root; here it is a directory. -/
def ensureDirs (born : Option Instant) (t : Tree) : Path → Tree
  | [] => t
  | name::dir =>
    let t := ensureDirs born t dir
    match t (name::dir) with
    | some _ => t
    | none => hang t name dir (newDirNode name (name::dir) born)

variable {born : Option Instant} {m : Manifest} {declared : Bool}

theorem ensureThere {node} (there : ensureDirs born t dir (name::dir) = some node) :
    ensureDirs born t (name::dir) = ensureDirs born t dir := by
  simp only [ensureDirs,there]

theorem ensureMissing (missing : ensureDirs born t dir (name::dir) = none) : ensureDirs born t (name::dir) =
      hang (ensureDirs born t dir) name dir (newDirNode name (name::dir) born) := by
  simp only [ensureDirs,missing]

def attach (existing : Node) (m : Manifest) (declaredDir : Bool) : Node :=
  let isDir := existing.fs.isDir || existing.children ≠ [] || declaredDir
  { existing with
    artifact := some (artifactFacetFrom m)
    fs := { existing.fs with
      isDir := isDir, size := if isDir then existing.fs.size else m.originalSize, modTime := m.createdAt } }

def insertArtifact (born : Option Instant) (t : Tree) (path : Path) (m : Manifest) (declaredDir : Bool) : Tree :=
  let t := ensureDirs born t path.tail
  match t path with
  | some existing => update t path (some (attach existing m declaredDir))
  | none =>
    hang t (path.headD "") path.tail
      ⟨⟨path.headD "",path,declaredDir,m.originalSize,m.createdAt⟩,some (artifactFacetFrom m),[]⟩

theorem insertThere {existing} (there : ensureDirs born t dir (name::dir) = some existing) :
    insertArtifact born t (name::dir) m declared =
      update (ensureDirs born t dir) (name::dir) (some (attach existing m declared)) := by
  simp only [insertArtifact,tail_cons,there]

theorem insertMissing (missing : ensureDirs born t dir (name::dir) = none) :
    insertArtifact born t (name::dir) m declared =
      hang (ensureDirs born t dir) name dir
        ⟨⟨name,name::dir,declared,m.originalSize,m.createdAt⟩,some (artifactFacetFrom m),[]⟩ := by
  simp only [insertArtifact,tail_cons,headD_cons,missing]

def insertFile (born : Option Instant) (t : Tree) (path : Path) (m : Manifest) : Tree := insertArtifact born t path m false

def detachArtifact (t : Tree) (path : Path) : Option Tree :=
  match t path with
  | none => none
  | some n =>
    if n.children = [] then none
    else some (update t path (some {n with artifact := none, fs := {n.fs with isDir := true, size := 0}}))

def removeFile (t : Tree) : Path → Tree
  | [] => update t [] none
  | name::dir =>
    match t (name::dir) with
    | none => t
    | some _ =>
      let t := update t (name::dir) none
      match t dir with
      | none => t
      | some pn =>
        let children := pn.children.erase name
        let t := update t dir (some {pn with children := children})
        if dir ≠ [] ∧ children = [] ∧ pn.artifact = none then removeFile t dir else t

def dropArtifact (t : Tree) (path : Path) : Tree := (detachArtifact t path).getD (removeFile t path)

variable {path : Path} {n : Node}

section

structure Fits (P D : Path → Prop) (A : Path → Option ArtifactFacet) (path : Path) (node : Node) : Prop where
  placed : node.fs.path = path
  name : node.fs.name = path.headD ""
  kind : node.fs.isDir = true ↔ D path
  artifact : node.artifact = A path
  sorted : node.children.Pairwise (· < ·)
  lists : ∀ name, name ∈ node.children ↔ P (name::path)

structure Shaped (P D : Path → Prop) (A : Path → Option ArtifactFacet) (t : Tree) : Prop where
  node : ∀ path, P path → ∃ node, t path = some node ∧ Fits P D A path node
  absent : ∀ path, ¬ P path → t path = none

variable {P D D' A A'}

theorem Shaped.found (shaped : Shaped P D A t) (there : t path = some n) : P path ∧ Fits P D A path n := by
  by_cases held : P path
  · obtain ⟨node,same,fits⟩ := shaped.node path held
    rw [there] at same
    cases same
    exact ⟨held,fits⟩
  · rw [shaped.absent path held] at there
    cases there

theorem Shaped.missing (shaped : Shaped P D A t) (absent : t path = none) : ¬ P path := by
  intro held
  obtain ⟨node,there,_⟩ := shaped.node path held
  cases absent.symm.trans there

theorem Fits.parental (fits : Fits P D A path n) : n.children ≠ [] ↔ ∃ name, P (name::path) := by
  rw [ne_eq,eq_nil_iff_forall_not_mem,not_forall]
  simp only [not_not,fits.lists]

theorem Shaped.congr (shaped : Shaped P D A t) {P'} (same : ∀ q, P' q ↔ P q) (kinds : ∀ q, P q → (D' q ↔ D q))
    (arts : ∀ q, P q → A' q = A q) : Shaped P' D' A' t := by
  refine ⟨fun q held => ?_,fun q vacant => shaped.absent q fun held => vacant ((same q).mpr held)⟩
  obtain ⟨node,there,fits⟩ := shaped.node q ((same q).mp held)
  have occupied := (same q).mp held
  exact ⟨node,there,fits.placed,fits.name,fits.kind.trans (kinds q occupied).symm,fits.artifact.trans (arts q occupied).symm,
    fits.sorted,fun name => (fits.lists name).trans (same _).symm⟩

theorem Fits.elsewhere {p} (fits : Fits P D A path n) (away : path ≠ p) (isDir : Bool) (art : Option ArtifactFacet) :
    Fits P (fun q => if q = p then isDir = true else D q) (update A p art) path n :=
  ⟨fits.placed,fits.name,by rw [if_neg away]; exact fits.kind,by rw [update_of_ne away]; exact fits.artifact,fits.sorted,fits.lists⟩

theorem hangShaped (shaped : Shaped P D A t) (closed : ∀ name dir, P (name::dir) → P dir) (held : P dir)
    (new : ¬ P (name::dir)) (isDir : Bool) (size : Int) (time : Option Instant) (art : Option ArtifactFacet) :
    Shaped (fun q => P q ∨ q = name::dir) (fun q => if q = name::dir then isDir = true else D q)
      (update A (name::dir) art) (hang t name dir ⟨⟨name,name::dir,isDir,size,time⟩,art,[]⟩) := by
  obtain ⟨pn,there,fits⟩ := shaped.node dir held
  have apart : dir ≠ name::dir := childApart
  rw [hangUnder there]
  refine ⟨fun q occupied => ?_,fun q vacant => ?_⟩
  · by_cases here : q = dir
    · subst here
      have kept := fits.elsewhere apart isDir art
      refine ⟨_,update_self ..,kept.placed,kept.name,kept.kind,kept.artifact,sortedInsert kept.sorted,fun other => ?_⟩
      rw [memInsertSorted,kept.lists,or_comm,List.cons.injEq,and_iff_left rfl]
    · rw [update_of_ne here]
      by_cases top : q = name::dir
      · subst top
        refine ⟨_,update_self ..,rfl,rfl,?_,?_,List.Pairwise.nil,fun other => ?_⟩
        · rw [if_pos rfl]
        · rw [update_self]
        · refine iff_of_false not_mem_nil ?_
          rintro (below | same)
          · exact new (closed _ _ below)
          · exact childApart (List.cons.inj same).2.symm
      · obtain ⟨node,found,fits⟩ := shaped.node q (occupied.resolve_right top)
        have kept := fits.elsewhere top isDir art
        rw [update_of_ne top]
        refine ⟨node,found,kept.placed,kept.name,kept.kind,kept.artifact,kept.sorted,fun other => ?_⟩
        rw [kept.lists]
        refine (or_iff_left ?_).symm
        intro same
        exact here (List.cons.inj same).2
  · have away : q ≠ dir := fun same => vacant (.inl (same ▸ held))
    have top : q ≠ name::dir := fun same => vacant (.inr same)
    rw [update_of_ne away,update_of_ne top]
    exact shaped.absent q fun occupied => vacant (.inl occupied)

theorem ensureShaped (shaped : Shaped P D A t) (root : P []) (closed : ∀ name dir, P (name::dir) → P dir)
    (bare : ∀ q, ¬ P q → A q = none) (born : Option Instant) (path : Path) :
    Shaped (fun q => P q ∨ q <:+ path) (fun q => P q ∧ D q ∨ ¬ P q) A (ensureDirs born t path) := by
  induction path with
  | nil =>
    refine shaped.congr (fun q => ?_) (fun q held => ?_) fun _ _ => rfl
    · refine or_iff_left_of_imp ?_
      intro nil
      rw [suffix_nil.mp nil]
      exact root
    · rw [and_iff_right held,or_iff_left (not_not.mpr held)]
  | cons name dir ih =>
    have split : ∀ q, P q ∨ q <:+ name::dir ↔ (P q ∨ q <:+ dir) ∨ q = name::dir := by
      intro q
      rw [suffix_cons_iff]
      tauto
    cases present : ensureDirs born t dir (name::dir) with
    | some node =>
      have held := (ih.found present).1
      rw [ensureThere present]
      refine ih.congr (fun q => ?_) (fun _ _ => Iff.rfl) fun _ _ => rfl
      rw [split]
      exact or_iff_left_of_imp fun same => same ▸ held
    | none =>
      have new : ¬ (P (name::dir) ∨ name::dir <:+ dir) := ih.missing present
      rw [ensureMissing present]
      have above : ∀ other q, P (other::q) ∨ other::q <:+ dir → P q ∨ q <:+ dir := by
        rintro other q (held | below)
        · exact .inl (closed other q held)
        · exact .inr ((suffix_cons other q).trans below)
      have grown := hangShaped ih above (.inr (suffix_refl dir)) new true 0 born none
      refine grown.congr split (fun q _ => ?_) fun q _ => ?_
      · split
        · next same =>
          subst same
          refine iff_of_true (.inr fun held => new (.inl held)) rfl
        · exact Iff.rfl
      · by_cases same : q = name::dir
        · subst same
          rw [update_self]
          exact bare _ fun held => new (.inl held)
        · rw [update_of_ne same]

theorem rewriteShaped (shaped : Shaped P D A t) (there : t path = some n) (isDir : Bool) (size : Int) (time : Option Instant)
    (art : Option ArtifactFacet) :
    Shaped P (fun q => if q = path then isDir = true else D q) (update A path art)
      (update t path (some {n with artifact := art, fs := {n.fs with isDir := isDir, size := size, modTime := time}})) := by
  obtain ⟨held,fits⟩ := shaped.found there
  refine ⟨fun q occupied => ?_,fun q vacant => ?_⟩
  · by_cases here : q = path
    · subst here
      refine ⟨_,update_self ..,fits.placed,fits.name,?_,?_,fits.sorted,fits.lists⟩
      · rw [if_pos rfl]
      · rw [update_self]
    · obtain ⟨node,found,kept⟩ := shaped.node q occupied
      rw [update_of_ne here]
      exact ⟨node,found,kept.elsewhere here isDir art⟩
  · have away : q ≠ path := fun same => vacant (same ▸ held)
    rw [update_of_ne away]
    exact shaped.absent q vacant

theorem cutShaped {pn} (shaped : Shaped P D A t) (there : t dir = some pn) (childless : ∀ other, ¬ P (other::name::dir)) :
    Shaped (fun q => P q ∧ q ≠ name::dir) D A
      (update (update t (name::dir) none) dir (some {pn with children := pn.children.erase name})) := by
  obtain ⟨held,fits⟩ := shaped.found there
  refine ⟨fun q occupied => ?_,fun q vacant => ?_⟩
  · by_cases here : q = dir
    · subst here
      refine ⟨_,update_self ..,fits.placed,fits.name,fits.kind,fits.artifact,fits.sorted.erase name,fun other => ?_⟩
      rw [memEraseSorted fits.sorted,fits.lists,and_comm,ne_eq,ne_eq,List.cons.injEq,and_iff_left rfl]
    · obtain ⟨node,found,kept⟩ := shaped.node q occupied.1
      rw [update_of_ne here,update_of_ne occupied.2]
      refine ⟨node,found,kept.placed,kept.name,kept.kind,kept.artifact,kept.sorted,fun other => ?_⟩
      rw [kept.lists]
      refine (and_iff_left ?_).symm
      intro same
      exact here (List.cons.inj same).2
  · have apart : dir ≠ name::dir := childApart
    have away : q ≠ dir := fun same => vacant ⟨same ▸ held,same ▸ apart⟩
    rw [update_of_ne away]
    by_cases top : q = name::dir
    · rw [top,update_self]
    · rw [update_of_ne top]
      exact shaped.absent q fun occupied => vacant ⟨occupied,top⟩

end

structure Entry where
  manifest : Manifest
  declared : Bool
  deriving DecidableEq

variable {own : Path → Option Entry} {q}

section
variable {e}

section
variable (own : Path → Option Entry)
def Directory (path : Path) : Prop := path = [] ∨ Inner own path ∨ ∃ e, own path = some e ∧ e.declared = true
def facets (path : Path) : Option ArtifactFacet := (own path).map fun e => artifactFacetFrom e.manifest
def Follows (t : Tree) : Prop := Shaped (Occupied own) (Directory own) (facets own) t
def AboveDeclared (path : Path) : Prop := ∀ q e, own q = some e → q <:+ path → q ≠ path → e.declared = true

end

theorem vacantFacet (vacant : ¬ Occupied own q) : facets own q = none := by
  unfold facets
  cases held : own q with
  | none => rfl
  | some e =>
    refine absurd ?_ vacant
    rw [occupiedIff,held]
    exact .inr (.inl (Option.some_ne_none e))

theorem ensureFollows (follows : Follows own t) (born : Option Instant) (dir : Path) :
    Shaped (fun q => Occupied own q ∨ q <:+ dir) (fun q => Occupied own q ∧ Directory own q ∨ ¬ Occupied own q) (facets own)
      (ensureDirs born t dir) :=
  ensureShaped follows (.inl rfl) (fun _ _ => occupiedParent) (fun _ => vacantFacet) born dir

theorem aboveDirectory (above : AboveDeclared own path) (held : Occupied own q) (under : q <:+ path)
    (differ : q ≠ path) : Directory own q := by
  rcases occupiedIff.mp held with root | entry | inner
  · exact .inl root
  · obtain ⟨e,found⟩ := Option.ne_none_iff_exists'.mp entry
    exact .inr (.inr ⟨e,found,above q e found under differ⟩)
  · exact .inr (.inl inner)

theorem directoryInsert (above : AboveDeclared own path) (differ : q ≠ path) :
    Directory (update own path (some e)) q ↔ Occupied own q ∧ Directory own q ∨ ¬ Occupied own q ∧ q <:+ path := by
  unfold Directory
  rw [innerInsert,update_of_ne differ]
  constructor
  · intro grown
    by_cases held : Occupied own q
    · refine .inl ⟨held,?_⟩
      rcases grown with root | (inner | ⟨under,_⟩) | declared
      · exact .inl root
      · exact .inr (.inl inner)
      · exact aboveDirectory above held under differ
      · exact .inr (.inr declared)
    · refine .inr ⟨held,?_⟩
      rcases grown with root | (inner | ⟨under,_⟩) | ⟨e,found,_⟩
      · exact absurd (.inl root) held
      · exact absurd (occupiedIff.mpr (.inr (.inr inner))) held
      · exact under
      · exact absurd (occupiedIff.mpr (.inr (.inl (found ▸ Option.some_ne_none e)))) held
  · rintro (⟨_,root | inner | declared⟩ | ⟨_,under⟩)
    · exact .inl root
    · exact .inr (.inl (.inl inner))
    · exact .inr (.inr declared)
    · exact .inr (.inl (.inr ⟨under,differ⟩))

theorem directorySelf (below : path ≠ []) :
    Directory (update own path (some e)) path ↔ Inner own path ∨ e.declared = true := by
  unfold Directory
  rw [innerInsert,update_self,or_iff_right below]
  simp

theorem facetsInsert {m declared} (q : Path) : facets (update own path (some ⟨m,declared⟩)) q =
    update (facets own) path (some (artifactFacetFrom m)) q := by
  unfold facets
  by_cases here : q = path
  · subst here
    rw [update_self,update_self]
    rfl
  · rw [update_of_ne here,update_of_ne here]

theorem directoryBeside (above : AboveDeclared own (name::dir)) (differ : q ≠ name::dir) (reach : Occupied own q ∨ q <:+ dir) :
    Directory (update own (name::dir) (some e)) q ↔ Occupied own q ∧ Directory own q ∨ ¬ Occupied own q := by
  rw [directoryInsert above differ]
  refine or_congr_right (and_iff_left_of_imp fun vacant => ?_)
  exact (reach.resolve_left vacant).trans (suffix_cons name dir)

theorem childrenInner {D A} {n : Node} (fits : Fits (fun q => Occupied own q ∨ q <:+ dir) D A path n)
    (top : ∀ other, ¬ other::path <:+ dir) : n.children ≠ [] ↔ Inner own path := by
  rw [innerIff,fits.parental]
  exact exists_congr fun other => or_iff_left (top other)

theorem plainKind {A} {n : Node} (below : path ≠ []) (held : Occupied own path)
    (plain : ∀ e, own path = some e → e.declared = false)
    (fits : Fits (fun q => Occupied own q ∨ q <:+ dir) (fun q => Occupied own q ∧ Directory own q ∨ ¬ Occupied own q) A path n) :
    n.fs.isDir = true ↔ Inner own path := by
  have undeclared : ¬ ∃ e, own path = some e ∧ e.declared = true := by
    rintro ⟨e,found,declared⟩
    rw [plain e found] at declared
    cases declared
  rw [fits.kind,and_iff_right held,or_iff_left (not_not.mpr held)]
  unfold Directory
  rw [or_iff_right below,or_iff_left undeclared]

theorem insertFollows {m declared} (follows : Follows own t) (below : path ≠ [])
    (plain : ∀ e, own path = some e → e.declared = false) (above : AboveDeclared own path) :
    Follows (update own path (some ⟨m,declared⟩)) (insertArtifact born t path m declared) := by
  obtain ⟨name,dir,rfl⟩ := exists_cons_of_ne_nil below
  have ensured := ensureFollows follows born dir
  have notBelow : ¬ name::dir <:+ dir := childNotAbove
  cases present : ensureDirs born t dir (name::dir) with
  | some existing =>
    rw [insertThere present]
    obtain ⟨reach,fits⟩ := ensured.found present
    have held : Occupied own (name::dir) := reach.resolve_right notBelow
    refine (rewriteShaped ensured present _ _ _ _).congr (fun q => ?_) (fun q reach => ?_) fun q _ => facetsInsert q
    · rw [occupiedInsert,suffix_cons_iff,or_left_comm]
      exact or_iff_right_of_imp fun same => .inl (same ▸ held)
    split
    · next same =>
      subst same
      have inner := childrenInner fits fun other under => notBelow ((suffix_cons other _).trans under)
      rw [directorySelf below,Bool.or_eq_true,Bool.or_eq_true,decide_eq_true_eq,inner,plainKind below held plain fits,or_self]
    · next differ => exact directoryBeside above differ reach
  | none =>
    rw [insertMissing present]
    have new : ¬ (Occupied own (name::dir) ∨ name::dir <:+ dir) := ensured.missing present
    have above' : ∀ other q, Occupied own (other::q) ∨ other::q <:+ dir → Occupied own q ∨ q <:+ dir := by
      rintro other q (held | under)
      · exact .inl (occupiedParent held)
      · exact .inr ((suffix_cons other q).trans under)
    refine (hangShaped ensured above' (.inr (suffix_refl dir)) new _ _ _ _).congr (fun q => ?_) (fun q reach => ?_)
      fun q _ => facetsInsert q
    · rw [occupiedInsert,suffix_cons_iff]
      tauto
    · split
      · next same =>
        subst same
        have leaf : ¬ Inner own (name::dir) := fun inner => new (.inl (occupiedIff.mpr (.inr (.inr inner))))
        rw [directorySelf below,or_iff_right leaf]
      · next differ => exact directoryBeside above differ (reach.resolve_right differ)

theorem heldAbove (held : Occupied own dir) (under : q <:+ dir) : Occupied own q := by
  rcases held with root | ⟨leaf,entry,deeper⟩
  · rw [root] at under
    exact .inl (suffix_nil.mp under)
  · exact .inr ⟨leaf,entry,under.trans deeper⟩

theorem cutFollows {D A pn} (shaped : Shaped (fun q => Occupied own q ∨ q <:+ name::dir) D A t)
    (vacant : ¬ Occupied own (name::dir)) (parent : t dir = some pn) :
    Shaped (fun q => Occupied own q ∨ q <:+ dir) D A
      (update (update t (name::dir) none) dir (some {pn with children := pn.children.erase name})) := by
  have childless : ∀ other, ¬ (Occupied own (other::name::dir) ∨ other::name::dir <:+ name::dir) := by
    rintro other (held | under)
    · exact vacant (occupiedParent held)
    · exact childNotAbove under
  refine (cutShaped shaped parent childless).congr (fun q => ?_) (fun _ _ => Iff.rfl) fun _ _ => rfl
  rw [suffix_cons_iff]
  constructor
  · rintro (held | under)
    · exact ⟨.inl held,fun same => vacant (same ▸ held)⟩
    · refine ⟨.inr (.inr under),?_⟩
      rintro rfl
      exact childNotAbove under
  · rintro ⟨held | same | under,differ⟩
    · exact .inl held
    · exact absurd same differ
    · exact .inr under

theorem removeFollows {D A} (shaped : Shaped (fun q => Occupied own q ∨ q <:+ path) D A t)
    (vacant : ¬ Occupied own path) (kinds : ∀ q, Occupied own q → (Directory own q ↔ D q))
    (arts : ∀ q, Occupied own q → facets own q = A q)
    (bare : ∀ q, q <:+ path → q ≠ path → ¬ Occupied own q → A q = none) : Follows own (removeFile t path) := by
  induction path generalizing t with
  | nil => exact absurd (.inl rfl) vacant
  | cons name dir ih =>
    obtain ⟨node,there,_⟩ := shaped.node _ (.inr (suffix_refl (name::dir)))
    obtain ⟨pn,parent,fits⟩ := shaped.node dir (.inr (suffix_cons name dir))
    have apart : dir ≠ name::dir := childApart
    have cut := cutFollows shaped vacant parent
    have inner := childrenInner (cut.found (update_self ..)).2 fun other => childNotAbove
    unfold removeFile
    simp only [there,update_of_ne apart,parent]
    split
    · next pruned =>
      obtain ⟨below,empty,artless⟩ := pruned
      have gone : ¬ Occupied own dir := by
        intro held
        rcases occupiedIff.mp held with root | entry | deeper
        · exact below root
        · obtain ⟨e,found⟩ := Option.ne_none_iff_exists'.mp entry
          rw [fits.artifact,← arts dir held,facets,found] at artless
          cases artless
        · exact inner.mpr deeper empty
      refine ih cut gone fun q under differ => bare q (under.trans (suffix_cons name dir)) ?_
      rintro rfl
      exact childNotAbove under
    · next kept =>
      have held : Occupied own dir := by
        by_contra gone
        refine kept ⟨fun root => gone (.inl root),?_,?_⟩
        · by_contra some
          exact gone (occupiedIff.mpr (.inr (.inr (inner.mp some))))
        · rw [fits.artifact]
          exact bare dir (suffix_cons name dir) apart gone
      have whole : ∀ q, Occupied own q ∨ q <:+ dir ↔ Occupied own q := fun q => or_iff_left_of_imp (heldAbove held)
      exact cut.congr (fun q => (whole q).symm) (fun q reach => kinds q ((whole q).mp reach)) fun q reach =>
        arts q ((whole q).mp reach)

theorem leafVacant (empty : own path = none) (below : path ≠ []) (leaf : ¬ Inner own path) : ¬ Occupied own path := by
  rw [occupiedIff,empty]
  rintro (root | entry | deeper)
  · exact below root
  · exact entry rfl
  · exact leaf deeper

section
variable (follows : Follows (update own path (some e)) t)
include follows
theorem leafFollows (empty : own path = none) (below : path ≠ [])
    (above : AboveDeclared own path) (leaf : ¬ Inner own path) : Follows own (removeFile t path) := by
  have vacant := leafVacant empty below leaf
  refine removeFollows (follows.congr (fun q => occupiedInsert.symm) (fun _ _ => Iff.rfl) fun _ _ => rfl) vacant ?_ ?_ ?_
  · intro q held
    have differ : q ≠ path := fun same => vacant (same ▸ held)
    rw [directoryInsert above differ,and_iff_right held]
    exact (or_iff_left fun gone => gone.1 held).symm
  · intro q held
    have differ : q ≠ path := fun same => vacant (same ▸ held)
    rw [facets,facets,update_of_ne differ]
  · intro q _ differ gone
    rw [facets,update_of_ne differ]
    exact vacantFacet gone

theorem entryInner : ∃ n, t path = some n ∧ (n.children ≠ [] ↔ Inner own path) := by
  obtain ⟨n,there,fits⟩ := follows.node path (occupiedInsert.mpr (.inr (suffix_refl path)))
  refine ⟨n,there,?_⟩
  rw [fits.parental,← innerIff,innerInsert]
  simp

theorem dropLeaf (leaf : ¬ Inner own path) : dropArtifact t path = removeFile t path := by
  obtain ⟨n,there,inner⟩ := entryInner follows
  have childless : n.children = [] := by
    by_contra parental
    exact leaf (inner.mp parental)
  simp only [dropArtifact,detachArtifact,there,if_pos childless,Option.getD_none]

theorem dropFollows (empty : own path = none) (below : path ≠ [])
    (above : AboveDeclared own path) : Follows own (dropArtifact t path) := by
  by_cases deeper : Inner own path
  · obtain ⟨n,there,inner⟩ := entryInner follows
    have whole : ∀ q, Occupied (update own path (some e)) q ↔ Occupied own q := by
      intro q
      rw [occupiedInsert]
      refine or_iff_left_of_imp fun under => ?_
      obtain ⟨leaf,entry,deep,_⟩ := deeper
      exact .inr ⟨leaf,entry,under.trans deep⟩
    simp only [dropArtifact,detachArtifact,there,if_neg (inner.mpr deeper),Option.getD_some]
    refine (rewriteShaped follows there _ _ _ _).congr (fun q => (whole q).symm) (fun q reached => ?_) fun q _ => ?_
    · split
      · next same =>
        subst same
        exact iff_of_true (.inr (.inl deeper)) rfl
      · next differ =>
        have occupied := (whole q).mp reached
        rw [directoryInsert above differ,and_iff_right occupied]
        exact (or_iff_left fun gone => gone.1 occupied).symm
    · by_cases same : q = path
      · subst same
        rw [update_self,facets,empty]
        rfl
      · rw [update_of_ne same,facets,facets,update_of_ne same]
  · rw [dropLeaf follows deeper]
    exact leafFollows follows empty below above deeper

end

def bareTree (born : Option Instant) : Tree := update (fun _ => none) [] (some (newDirNode "" [] born))

theorem bareFollows (born : Option Instant) : Follows (fun _ => none) (bareTree born) := by
  have root : ∀ q, Occupied (fun _ : Path => (none : Option Entry)) q ↔ q = [] := by
    intro q
    simp [Occupied]
  refine ⟨fun q held => ?_,fun q vacant => ?_⟩
  · cases (root q).mp held
    refine ⟨_,update_self ..,rfl,rfl,iff_of_true rfl (.inl rfl),rfl,List.Pairwise.nil,fun name => ?_⟩
    rw [root]
    simp [newDirNode]
  · exact update_of_ne (fun same => vacant ((root q).mpr same)) ..

def Node.shape (n : Node) : Node := ⟨⟨n.fs.name,n.fs.path,n.fs.isDir,0,none⟩,n.artifact,n.children⟩

theorem shapeUnique {t t'} (follows : Follows own t) (follows' : Follows own t') (path : Path) :
    (t path).map Node.shape = (t' path).map Node.shape := by
  by_cases held : Occupied own path
  · obtain ⟨n,there,fits⟩ := follows.node path held
    obtain ⟨n',there',fits'⟩ := follows'.node path held
    have children : n.children = n'.children :=
      sortedUnique fits.sorted fits'.sorted fun name => (fits.lists name).trans (fits'.lists name).symm
    have kind : n.fs.isDir = n'.fs.isDir := Bool.eq_iff_iff.mpr (fits.kind.trans fits'.kind.symm)
    rw [there,there',Option.map_some,Option.map_some,Node.shape,Node.shape,children,kind,
      fits.placed.trans fits'.placed.symm,fits.name.trans fits'.name.symm,fits.artifact.trans fits'.artifact.symm]
  · rw [follows.absent path held,follows'.absent path held]

end

def stamp (born : Option Instant) : Option Entry → Int × Option Instant
  | some e => (e.manifest.originalSize,e.manifest.createdAt)
  | none => (0,born)

def Stamped (born : Option Instant) (own : Path → Option Entry) (t : Tree) : Prop :=
  ∀ path node, t path = some node → (node.fs.size,node.fs.modTime) = stamp born (own path)

theorem bareStamped (born : Option Instant) : Stamped born (fun _ => none) (bareTree born) := by
  intro q n there
  rcases updateSome.mp there with ⟨rfl,same⟩ | ⟨_,absent⟩
  · cases same
    rfl
  · cases absent

theorem hangFs (there : hang t name dir node q = some n) :
    q = name::dir ∧ n.fs = node.fs ∨ q ≠ name::dir ∧ ∃ old, t q = some old ∧ n.fs = old.fs := by
  have loose : ∀ {n : Node}, update t (name::dir) (some node) q = some n →
      q = name::dir ∧ n.fs = node.fs ∨ q ≠ name::dir ∧ ∃ old, t q = some old ∧ n.fs = old.fs := by
    intro n found
    rcases updateSome.mp found with ⟨top,same⟩ | ⟨top,old⟩
    · cases same
      exact .inl ⟨top,rfl⟩
    · exact .inr ⟨top,n,old,rfl⟩
  cases parent : t dir with
  | none =>
    rw [hangLoose parent] at there
    exact loose there
  | some pn =>
    rw [hangUnder parent] at there
    rcases updateSome.mp there with ⟨rfl,same⟩ | ⟨_,old⟩
    · cases same
      exact .inr ⟨childApart,pn,parent,rfl⟩
    · exact loose old

theorem hangKeeps (there : t q ≠ none) : hang t name dir node q ≠ none := by
  have loose : update t (name::dir) (some node) q ≠ none := by
    by_cases top : q = name::dir
    · rw [top,update_self]
      exact Option.some_ne_none _
    · rwa [update_of_ne top]
  cases parent : t dir with
  | none => rwa [hangLoose parent]
  | some pn =>
    rw [hangUnder parent]
    by_cases here : q = dir
    · rw [here,update_self]
      exact Option.some_ne_none _
    · rwa [update_of_ne here]

theorem ensureKeeps (there : t q ≠ none) : ensureDirs born t path q ≠ none := by
  induction path with
  | nil => exact there
  | cons name dir ih =>
    cases present : ensureDirs born t dir (name::dir) with
    | some node => rwa [ensureThere present]
    | none =>
      rw [ensureMissing present]
      exact hangKeeps ih

theorem ensureFs (there : ensureDirs born t path q = some n) :
    (∃ old, t q = some old ∧ n.fs = old.fs) ∨ t q = none ∧ (n.fs.size,n.fs.modTime) = (0,born) := by
  induction path generalizing n with
  | nil => exact .inl ⟨n,there,rfl⟩
  | cons name dir ih =>
    cases present : ensureDirs born t dir (name::dir) with
    | some node =>
      rw [ensureThere present] at there
      exact ih there
    | none =>
      rw [ensureMissing present] at there
      rcases hangFs there with ⟨rfl,same⟩ | ⟨_,old,before,same⟩
      · rw [same]
        cases found : t (name::dir) with
        | none => exact .inr ⟨rfl,rfl⟩
        | some old => exact absurd present (ensureKeeps (found ▸ Option.some_ne_none old))
      · rw [same]
        exact ih before

theorem removeFs (there : removeFile t path q = some n) : ∃ old, t q = some old ∧ n.fs = old.fs := by
  induction path generalizing t with
  | nil =>
    rw [removeFile] at there
    exact ⟨n,((updateSome.mp there).resolve_left nofun).2,rfl⟩
  | cons name dir ih =>
    cases present : t (name::dir) with
    | none =>
      simp only [removeFile,present] at there
      exact ⟨n,there,rfl⟩
    | some node =>
      -- Off the node that is cut out, only the list of children of the one above changes.
      have cut : ∀ {n : Node}, update t (name::dir) none q = some n → t q = some n := fun found =>
        ((updateSome.mp found).resolve_left nofun).2
      cases parent : t dir with
      | none =>
        simp only [removeFile,present,update_of_ne (childApart : dir ≠ name::dir),parent] at there
        exact ⟨n,cut there,rfl⟩
      | some pn =>
        simp only [removeFile,present,update_of_ne (childApart : dir ≠ name::dir),parent] at there
        have unlisted : ∀ {n : Node}, update (update t (name::dir) none) dir
            (some {pn with children := pn.children.erase name}) q = some n → ∃ old, t q = some old ∧ n.fs = old.fs := by
          intro n found
          rcases updateSome.mp found with ⟨rfl,same⟩ | ⟨_,old⟩
          · cases same
            exact ⟨pn,parent,rfl⟩
          · exact ⟨n,cut old,rfl⟩
        split at there
        · obtain ⟨old,found,same⟩ := ih there
          obtain ⟨older,before,again⟩ := unlisted found
          exact ⟨older,before,same.trans again⟩
        · exact unlisted there

theorem insertStamped {m declared} (follows : Follows own t) (stamped : Stamped born own t) (below : path ≠ [])
    (leaf : ¬ Inner own path) (plain : ∀ e, own path = some e → e.declared = false ∧ declared = false) :
    Stamped born (update own path (some ⟨m,declared⟩)) (insertArtifact born t path m declared) := by
  obtain ⟨name,dir,rfl⟩ := exists_cons_of_ne_nil below
  -- What the directories above bring is stamped as before.
  have ensured : ∀ q n, ensureDirs born t dir q = some n → (n.fs.size,n.fs.modTime) = stamp born (own q) := by
    intro q n there
    rcases ensureFs there with ⟨old,before,same⟩ | ⟨missing,fresh⟩
    · rw [same]
      exact stamped q old before
    · have unheld : own q = none := by
        by_contra entry
        exact Shaped.missing follows missing (occupiedIff.mpr (.inr (.inl entry)))
      rw [fresh,unheld]
      rfl
  intro q n there
  cases present : ensureDirs born t dir (name::dir) with
  | some existing =>
    rw [insertThere present] at there
    by_cases here : q = name::dir
    · subst here
      rw [update_self] at there ⊢
      cases there
      obtain ⟨reach,fits⟩ := (ensureFollows follows born dir).found present
      have held : Occupied own (name::dir) := reach.resolve_right childNotAbove
      obtain ⟨e,entry⟩ : ∃ e, own (name::dir) = some e :=
        Option.ne_none_iff_exists'.mp (((occupiedIff.mp held).resolve_left below).resolve_right leaf)
      obtain ⟨old,new⟩ := plain e entry
      have file : existing.fs.isDir = false := by
        rw [Bool.eq_false_iff,ne_eq,fits.kind,and_iff_right held,or_iff_left (not_not.mpr held)]
        rintro (root | inner | ⟨e',found,isDir⟩)
        · exact below root
        · exact leaf inner
        · cases entry.symm.trans found
          rw [old] at isDir
          cases isDir
      have childless : existing.children = [] := by
        by_contra parental
        obtain ⟨other,child⟩ := fits.parental.mp parental
        rcases child with deeper | under
        · exact leaf (innerIff.mpr ⟨other,deeper⟩)
        · exact childNotAbove ((suffix_cons other _).trans under)
      simp [attach,file,childless,new,stamp]
    · rw [update_of_ne here] at there ⊢
      exact ensured q n there
  | none =>
    rw [insertMissing present] at there
    rcases hangFs there with ⟨rfl,same⟩ | ⟨differ,old,before,same⟩
    · rw [same,update_self]
      rfl
    · rw [update_of_ne differ,same]
      exact ensured q old before

theorem removeStamped {e} (stamped : Stamped born (update own path (some e)) t)
    (follows : Follows own (removeFile t path)) (vacant : ¬ Occupied own path) : Stamped born own (removeFile t path) := by
  intro q n there
  have differ : q ≠ path := fun same => vacant (same ▸ (follows.found there).1)
  obtain ⟨old,before,same⟩ := removeFs there
  rw [same,stamped q old before,update_of_ne differ]

theorem treeUnique {t t'} (follows : Follows own t) (follows' : Follows own t') (stamped : Stamped born own t)
    (stamped' : Stamped born own t') : t = t' := by
  funext path
  have shapes := shapeUnique follows follows' path
  cases there : t path with
  | none =>
    rw [there,Option.map_none] at shapes
    exact (Option.map_eq_none_iff.mp shapes.symm).symm
  | some n =>
    rw [there,Option.map_some] at shapes
    obtain ⟨n',there',same⟩ := Option.map_eq_some_iff.mp shapes.symm
    have stamps := (stamped path n there).trans (stamped' path n' there').symm
    rw [there']
    obtain ⟨⟨name,place,isDir,size,time⟩,artifact,children⟩ := n
    obtain ⟨⟨name',place',isDir',size',time'⟩,artifact',children'⟩ := n'
    simp only [Node.shape,Node.mk.injEq,FilesystemFacet.mk.injEq] at same
    simp only [Prod.mk.injEq] at stamps
    simp [same,stamps]

end Scrinium.Projection
