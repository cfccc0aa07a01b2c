import Scrinium.CasRead
import Scrinium.View
import Scrinium.Vfsmeta

/-! Filesystem operations over a View and a Store (projection/internal/fsops). -/
namespace Scrinium.Fsops
open Domain Cas Projection Vfsmeta
open Pathx (PathFault validatePath ofString)

structure EditingPolicy where
  allowRename : Bool
  allowSetattr : Bool
  allowTruncate : Bool
  allowAppend : Bool
  allowDirRename : Bool
  deriving DecidableEq

def rootByPath : String := "by-path"
def byPath (j : Json) : ViewDef := ⟨rootByPath,fun m => resolver j m.ext,true,true,fun _ => false⟩

structure Ops where
  engine : Engine
  cfg : StoreConfig
  json : Json
  setup : Setup
  editing : EditingPolicy
  readOnly : Bool
  mountSession : String
  scratchQuota : Nat
  shown : byPath json ∈ setup.provided
  rooted : setup.rootView = rootByPath
  unfiltered : setup.filter = ⟨"",""⟩

structure Mounted where
  store : State
  view : View
  pendingDirs : List String

inductive Fault where
  | editingDisabled
  | invalidPath (fault : PathFault)
  | pathExists (path : String)
  | pathNotFound (path : String)
  | isADirectory (path : String)
  | scratchQuota
  | negativeSize
  | closed
  | metadata (fault : Vfsmeta.Fault)
  | unreadable (err : Error)
  | put (err : Error)
  | deletePredecessor (err : Error)
  | refetch (err : Error)
  | view (err : Error)
  deriving DecidableEq

section
variable (o : Ops) (σ : Mounted)
def Ops.root : View → Branch := fun v => v.trees o.setup.rootView

def lookupInRoot (path : String) : Except Fault Node :=
  if σ.view.closed then .error .closed
  else match (o.root σ.view).nodes (ofString path) with
    | none => .error (.pathNotFound path)
    | some n => .ok n

def storeGet (s : State) (id : String) : Except Error Manifest := do
  let _ ← Cas.get o.engine s id
  load o.engine s id

def readAll (s : State) (id : String) : Except Error Bytes := do
  openBlob o.engine s (← storeGet o s id)

def openInRoot (path : String) : Except Fault Bytes := do
  let n ← lookupInRoot o σ path
  if n.fs.isDir then throw (.isADirectory path)
  else match n.artifact with
    | none => throw (.pathNotFound path)
    | some a => (readAll o σ.store a.artifactID).mapError .unreadable

def isPendingDir (path : String) : Bool := σ.pendingDirs.contains path

def isViewDir (path : String) : Bool :=
  match lookupInRoot o σ path with
  | .ok n => n.fs.isDir
  | .error _ => false

end

structure WriteFile where
  path : String
  content : Bytes
  mode : UInt32
  dirty : Bool
  forceDirty : Bool
  replaceArtifactID : String
  oldPath : String
  inheritedVfsmeta : FileSystem
  deriving DecidableEq

/- No other handle is open, so the bytes in use are those of the one scratch. -/
def reserve (o : Ops) (size : Nat) : Except Fault Unit :=
  if 0 < o.scratchQuota ∧ o.scratchQuota < size then .error .scratchQuota else .ok ()

def prepareEditingScratch (o : Ops) (σ : Mounted) (path : String) : Except Fault WriteFile := do
  let n ← lookupInRoot o σ path
  if n.fs.isDir then throw (.isADirectory path)
  else
    let inherited := (n.artifact.bind fun a => block o.json a.ext).getD .zero
    let content ← openInRoot o σ path
    reserve o content.length
    return {
      path := path, content := content, mode := inherited.mode, dirty := false, forceDirty := false
      replaceArtifactID := (n.artifact.map ArtifactFacet.artifactID).getD "", oldPath := path, inheritedVfsmeta := inherited }

def resized (content : Bytes) (size : Nat) : Bytes := content.take size ++ List.replicate (size - content.length) 0

def writeAt (o : Ops) (f : WriteFile) (p : Bytes) (off : Nat) : Except Fault WriteFile := do
  reserve o (max f.content.length (off + p.length))
  if p = [] then return f
  else return {f with content := resized f.content off ++ p ++ f.content.drop (off + p.length), dirty := true}

def WriteFile.truncate (o : Ops) (f : WriteFile) (size : Nat) : Except Fault WriteFile := do
  reserve o (if f.content.length < size then size else 0)
  return {f with content := resized f.content size, dirty := true}

inductive Touch where
  | writeAt (p : Bytes) (off : Nat)
  | truncate (size : Nat)
  deriving DecidableEq

def touch (o : Ops) (f : WriteFile) (t : Touch) : WriteFile :=
  match (match t with
    | .writeAt p off => writeAt o f p off
    | .truncate size => f.truncate o size) with
  | .ok f' => f'
  | .error _ => f

structure Draw where
  stagingID : String
  nonce : Bytes
  putAt : Instant
  deleteAt : Instant

def WriteFile.vfsm (f : WriteFile) (now : Instant) : FileSystem :=
  { f.inheritedVfsmeta with
    path := f.path
    mode := if f.mode ≠ 0 then f.mode else f.inheritedVfsmeta.mode
    modTime := if f.replaceArtifactID = "" then some now else f.inheritedVfsmeta.modTime }

def putCall (o : Ops) (content ext : Bytes) (d : Draw) : PutCall :=
  { payload := content, ext := ext, usr := [], sessionID := o.mountSession, retentionUntil := none, parentRefs := []
    stagingID := d.stagingID, nonce := d.nonce, now := d.putAt }

def dropParentPendingDirs (pending : List String) (path : String) : List String :=
  pending.filter fun p => p = "" || !Pathx.isUnder path p

def close (o : Ops) (σ : Mounted) (f : WriteFile) (d : Draw) : Mounted × Except Fault Unit :=
  if !f.dirty && !f.forceDirty then (σ,.ok ())
  else match embed o.json [] (f.vfsm d.putAt) with
    | .error fault => (σ,.error (.metadata fault))
    | .ok ext =>
      match Cas.put o.engine o.cfg σ.store (putCall o f.content ext d) with
      | (s,.error err) => ({σ with store := s},.error (.put err))
      | (s,.ok m) =>
        match (if f.replaceArtifactID = "" then (s,.ok ()) else Cas.delete o.engine o.cfg s f.replaceArtifactID d.deleteAt) with
        | (s,.error err) => ({σ with store := s},.error (.deletePredecessor err))
        | (s,.ok ()) =>
          match storeGet o s m.artifactID with
          | .error err => ({σ with store := s},.error (.refetch err))
          | .ok manifest =>
            match (if f.replaceArtifactID = "" then add o.setup σ.view manifest
              else move o.setup σ.view (ofString f.oldPath) manifest) with
            | (view,.error err) => ({σ with store := s, view := view},.error (.view err))
            | (view,.ok ()) => (⟨s,view,dropParentPendingDirs σ.pendingDirs f.path⟩,.ok ())

structure Attrs where
  mode : Option UInt32
  uid : Option UInt32
  gid : Option UInt32
  modTime : Option (Option Instant)
  deriving DecidableEq

def setAttrs (fs : FileSystem) (attrs : Attrs) : FileSystem :=
  { fs with
    mode := attrs.mode.getD fs.mode, uid := attrs.uid.getD fs.uid, gid := attrs.gid.getD fs.gid
    modTime := attrs.modTime.getD fs.modTime }

section
variable (o : Ops) (σ : Mounted)
def openForEdit (path : String) (append : Bool) (touches : List Touch) : Except Fault WriteFile := do
  if o.readOnly then throw .editingDisabled
  else if append && !o.editing.allowAppend then throw .editingDisabled
  else if !append && !o.editing.allowSetattr && !o.editing.allowTruncate && !o.editing.allowAppend then throw .editingDisabled
  else return touches.foldl (touch o) (← prepareEditingScratch o σ path)

def setattr (path : String) (attrs : Attrs) : Except Fault WriteFile := do
  if o.readOnly || !o.editing.allowSetattr then throw .editingDisabled
  else
    let wf ← prepareEditingScratch o σ path
    return {wf with inheritedVfsmeta := setAttrs wf.inheritedVfsmeta attrs, mode := attrs.mode.getD wf.mode, forceDirty := true}

def truncate (path : String) (size : Int) : Except Fault WriteFile := do
  if o.readOnly || !o.editing.allowTruncate then throw .editingDisabled
  else if size < 0 then throw .negativeSize
  else
    let wf ← prepareEditingScratch o σ path
    let wf ← wf.truncate o size.toNat
    return {wf with forceDirty := true}

def renameArtifactLocked (oldPath newPath : String) : Except Fault WriteFile := do
  let wf ← prepareEditingScratch o σ oldPath
  return {wf with path := newPath, forceDirty := true}

def free (path : String) : Except Fault Unit :=
  match lookupInRoot o σ path with
  | .ok _ => .error (.pathExists path)
  | .error (.pathNotFound _) => if isPendingDir σ path then .error (.pathExists path) else .ok ()
  | .error fault => .error fault

end

def fresh (path : String) (mode : UInt32) : WriteFile :=
  { path := path, content := [], mode := mode, dirty := false, forceDirty := false, replaceArtifactID := "", oldPath := ""
    inheritedVfsmeta := .zero }

def create (o : Ops) (σ : Mounted) (path : String) (mode : UInt32) : Except Fault WriteFile :=
  if o.readOnly then .error .editingDisabled
  else match validatePath path with
    | some fault => .error (.invalidPath fault)
    | none => do
      free o σ path
      return fresh path mode

def mkdir (o : Ops) (σ : Mounted) (path : String) : Mounted × Except Fault Unit :=
  if o.readOnly then (σ,.error .editingDisabled)
  else match validatePath path with
    | some fault => (σ,.error (.invalidPath fault))
    | none =>
      match free o σ path with
      | .error fault => (σ,.error fault)
      | .ok () => ({σ with pendingDirs := path::σ.pendingDirs},.ok ())

def renamePendingTree (pending : List String) (oldPath newPath : String) : List String :=
  pending.map fun p =>
    if Pathx.isUnder p oldPath then newPath ++ String.ofList (p.toList.drop oldPath.toList.length) else p

def renamePendingDir (o : Ops) (σ : Mounted) (oldPath newPath : String) : Mounted × Except Fault Unit :=
  match validatePath newPath with
  | some fault => (σ,.error (.invalidPath fault))
  | none =>
    if oldPath = newPath then (σ,.ok ())
    else match free o σ newPath with
      | .error fault => (σ,.error fault)
      | .ok () => ({σ with pendingDirs := renamePendingTree σ.pendingDirs oldPath newPath},.ok ())

def rename (o : Ops) (renameDirTree : Mounted → String → String → Mounted × Except Fault Unit) (σ : Mounted)
    (oldPath newPath : String) (d : Draw) : Mounted × Except Fault Unit :=
  if o.readOnly then (σ,.error .editingDisabled)
  else if isPendingDir σ oldPath then
    if !o.editing.allowDirRename then (σ,.error .editingDisabled) else renamePendingDir o σ oldPath newPath
  else if isViewDir o σ oldPath then
    if !o.editing.allowDirRename then (σ,.error .editingDisabled) else renameDirTree σ oldPath newPath
  else if !o.editing.allowRename then (σ,.error .editingDisabled)
  else match validatePath newPath with
    | some fault => (σ,.error (.invalidPath fault))
    | none =>
      if oldPath = newPath then (σ,.ok ())
      else match (do free o σ newPath; renameArtifactLocked o σ oldPath newPath) with
        | .error fault => (σ,.error fault)
        | .ok wf => close o σ wf d

end Scrinium.Fsops
