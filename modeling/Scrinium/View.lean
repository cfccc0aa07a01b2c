import Mathlib.Data.Prod.Lex
import Scrinium.ViewTree

/-! The projection's View: a tree for each active view, the record of every artifact, and, where paths are shared, who
owns a path and who has lost it. -/
namespace Scrinium.Projection
open Domain Pathx Function

def rootByArtifact : String := "by-artifact"
def rootByDate : String := "by-date"
def rootBySession : String := "by-session"
def rootByOrphaned : String := "by-orphaned"

structure ViewDef where
  root : String
  path : Manifest → Option String
  collide : Bool
  orphans : Bool
  isDir : Manifest → Bool

structure Formats where
  date : Option Instant → String
  fsPath : Bytes → Option String

def hashPart (id : String) : String :=
  match id.toList.dropWhile (· ≠ '-') with
  | [] => id
  | _::rest => String.ofList rest

def shortID (id : String) : String :=
  match splitBytes (hashPart id).toList 16 with
  | some (head,_) => String.ofList head
  | none => hashPart id

def shardOr (text whole : String) : String :=
  match shards text with
  | none => "_short/" ++ whole
  | some (first,second) => first ++ "/" ++ second ++ "/" ++ whole

def byArtifactPath (id : String) : String := shardOr (hashPart id) id

def byDateLabel (x : Formats) (m : Manifest) : String :=
  match (x.fsPath m.ext).map lastSegment with
  | none => shortID m.artifactID ++ ".bin"
  | some base => if base = "" then shortID m.artifactID ++ ".bin" else base

def byDatePath (x : Formats) (m : Manifest) : String := x.date m.createdAt ++ byDateLabel x m
def bySessionPath (m : Manifest) : Option String := if m.sessionID = "" then none else some (m.sessionID ++ "/" ++ m.artifactID)
def sessionShard (sid : String) : String := shardOr sid sid

def syntheticPath (m : Manifest) : String :=
  (if m.sessionID = "" then "_anonymous" else sessionShard m.sessionID) ++ "/" ++ shortID m.artifactID ++ ".bin"

structure Filter where
  sessionID : String
  pathPrefix : String
  deriving DecidableEq

def intrinsicDefs (x : Formats) : List ViewDef :=
  [⟨rootByArtifact,fun m => some (byArtifactPath m.artifactID),false,false,fun _ => false⟩,
   ⟨rootByDate,fun m => some (byDatePath x m),false,false,fun _ => false⟩,
   ⟨rootBySession,bySessionPath,false,false,fun _ => false⟩]

structure Setup where
  formats : Formats
  provided : List ViewDef
  rootView : String
  synthetic : Bool
  filter : Filter
  createdAt : Option Instant
  distinct : ((intrinsicDefs formats ++ provided).map ViewDef.root).Nodup
  reserved : rootByOrphaned ∉ (intrinsicDefs formats ++ provided).map ViewDef.root

def Setup.defs (x : Setup) : List ViewDef := intrinsicDefs x.formats ++ x.provided
def Setup.collide (x : Setup) (root : String) : Bool := x.defs.any fun d => d.root = root && d.collide

structure Loser where
  id : String
  createdAt : Option Instant
  deriving DecidableEq

structure Branch where
  nodes : Tree
  owner : Path → Option String
  losers : Path → List Loser

structure Record where
  manifest : Manifest
  paths : String → Option Path

structure View where
  trees : String → Branch
  artifacts : String → Option Record
  closed : Bool

def initTrees (x : Setup) : View := ⟨fun _ => ⟨bareTree x.createdAt,fun _ => none,fun _ => []⟩,fun _ => none,false⟩

def later : Option Instant → Option Instant → Bool
  | some a, some b => b < a
  | some _, none => true
  | none, _ => false

def isFresherWinner (candidate incumbent : Manifest) : Bool :=
  later candidate.createdAt incumbent.createdAt ||
    candidate.createdAt = incumbent.createdAt && incumbent.artifactID < candidate.artifactID

def yields (l entry : Loser) : Bool :=
  if later l.createdAt entry.createdAt then false
  else if l.createdAt = entry.createdAt then l.id ≤ entry.id
  else true

def pushLoser (entry : Loser) : List Loser → List Loser
  | [] => [entry]
  | l::rest => if yields l entry then entry::l::rest else l::pushLoser entry rest

def loserOf (m : Manifest) : Loser := ⟨m.artifactID,m.createdAt⟩

def applyCollisionInsert (born : Option Instant) (artifacts : String → Option Record) (b : Branch) (path : Path) (m : Manifest)
    (declaredDir : Bool) : Branch :=
  let claimed : Branch :=
    {b with nodes := insertArtifact born b.nodes path m declaredDir, owner := update b.owner path (some m.artifactID)}
  match (b.owner path).bind artifacts with
  | none => claimed
  | some current =>
    if isFresherWinner m current.manifest then
      {claimed with losers := update b.losers path (pushLoser (loserOf current.manifest) (b.losers path))}
    else {b with losers := update b.losers path (pushLoser (loserOf m) (b.losers path))}

def removeLoser (id : String) (losers : List Loser) : List Loser := losers.eraseP fun l => l.id = id

def removeFromCollisionTree (born : Option Instant) (artifacts : String → Option Record) (b : Branch) (id : String) (path : Path) :
    Branch :=
  if b.owner path = some id then
    let nodes := dropArtifact b.nodes path
    let owner := update b.owner path none
    match b.losers path with
    | [] => {b with nodes := nodes, owner := owner}
    | promoted::rest =>
      let losers := update b.losers path rest
      match artifacts promoted.id with
      | none => ⟨nodes,owner,losers⟩
      | some rec => ⟨insertFile born nodes path rec.manifest,update owner path (some promoted.id),losers⟩
  else {b with losers := update b.losers path (removeLoser id (b.losers path))}

section
variable (x : Setup) (m : Manifest)
def resolvePathForManifest : Option String :=
  match (x.defs.find? ViewDef.orphans).bind fun d => d.path m with
  | some path => some path
  | none => if x.synthetic then some (syntheticPath m) else none

def passesFilter : Bool :=
  (x.filter.sessionID = "" || m.sessionID = x.filter.sessionID) &&
    (x.filter.pathPrefix = "" ||
      (resolvePathForManifest x m).any fun path => x.filter.pathPrefix.toList.isPrefixOf path.toList)

structure Placement where
  root : String
  path : Path
  declared : Bool
  collide : Bool
  deriving DecidableEq

def placement (d : ViewDef) : Option Placement :=
  match d.path m with
  | some path => some ⟨d.root,ofString path,d.isDir m,d.collide⟩
  | none =>
    if !d.orphans then none
    else if x.synthetic then some ⟨d.root,ofString (syntheticPath m),d.isDir m,d.collide⟩
    else some ⟨rootByOrphaned,ofString (byArtifactPath m.artifactID),false,false⟩

def placements : List Placement := x.defs.filterMap (placement x m)

end

section
variable (x : Setup) (artifacts : String → Option Record) (m : Manifest)
def Branch.place (p : Placement) (b : Branch) : Branch :=
  if p.collide then applyCollisionInsert x.createdAt artifacts b p.path m p.declared
  else {b with nodes := insertArtifact x.createdAt b.nodes p.path m p.declared}

def placeAll (trees : String → Branch) (ps : List Placement) : String → Branch :=
  ps.foldl (fun trees p => update trees p.root ((trees p.root).place x artifacts m p)) trees

end

def recordOf (x : Setup) (m : Manifest) : Record :=
  ⟨m,(placements x m).foldl (fun paths p => update paths p.root (some p.path)) fun _ => none⟩

def indexArtifact (x : Setup) (v : View) (m : Manifest) : View :=
  { v with
    trees := placeAll x v.artifacts m v.trees (placements x m)
    artifacts := update v.artifacts m.artifactID (some (recordOf x m)) }

/- The trees are independent, so the order in which the paths of the record come up does not matter. -/
def removeArtifactFromTrees (x : Setup) (v : View) (id : String) (rec : Record) : View :=
  { v with
    trees := fun root =>
      match rec.paths root with
      | none | some [] => v.trees root
      | some path =>
        if x.collide root then removeFromCollisionTree x.createdAt v.artifacts (v.trees root) id path
        else {v.trees root with nodes := removeFile (v.trees root).nodes path}
    artifacts := update v.artifacts id none }

def errClosed : Error := .other "file already closed"

section
variable (x : Setup) (v : View)
def discard (id : String) : View :=
  match v.artifacts id with
  | none => v
  | some rec => removeArtifactFromTrees x v id rec

def enlist (m : Manifest) : View :=
  match v.artifacts m.artifactID with
  | some _ => v
  | none => indexArtifact x v m

def add (m : Manifest) : View × Except Error Unit :=
  if v.closed then (v,.error errClosed)
  else if !passesFilter x m then (v,.ok ())
  else (enlist x v m,.ok ())

def remove (id : String) : View × Except Error Unit :=
  if v.closed then (v,.error errClosed) else (discard x v id,.ok ())

def displace (path : Path) : View :=
  match (v.trees x.rootView).owner path with
  | none => v
  | some owner => discard x v owner

def move (oldPath : Path) (m : Manifest) : View × Except Error Unit :=
  if v.closed then (v,.error errClosed)
  else if !passesFilter x m then (displace x v oldPath,.ok ())
  else (enlist x (displace x v oldPath) m,.ok ())

end

/- What a source answers for one artifact: the bulk metadata (empty for a miss) and the full manifest. -/
structure Source where
  metadata : String → Bytes
  get : String → Option Manifest

def populateExt (src : Source) (m : Manifest) : Manifest :=
  if src.metadata m.artifactID ≠ [] then {m with ext := src.metadata m.artifactID}
  else match src.get m.artifactID with
    | none => m
    | some full =>
      { m with
        ext := if full.ext ≠ [] then full.ext else m.ext
        contentHash := if full.contentHash ≠ "" then full.contentHash else m.contentHash
        originalSize := if full.originalSize ≠ 0 then full.originalSize else m.originalSize }

variable (x : Setup) (src : Source) (v : View)

def upsert (m : Manifest) : View :=
  if passesFilter x m then indexArtifact x (discard x v m.artifactID) (populateExt src m)
  else discard x v m.artifactID

def applyDelta (changes : List Manifest) : View := changes.foldl (upsert x src) v

end Scrinium.Projection
