import Scrinium.Domain
import Scrinium.Keyed
import Scrinium.Pathx

/-! The filesystem block of a manifest (domain/vfsmeta) and the Ext object it has a key in (domain/extpocket). -/
namespace Scrinium.Vfsmeta
open Domain Keyed
open Pathx (PathFault validatePath)

def key : String := "vfsmeta"
def version : Int := 1

structure FileSystem where
  path : String
  mode : UInt32
  uid : UInt32
  gid : UInt32
  modTime : Option Instant
  mime : String
  deriving DecidableEq

def FileSystem.zero : FileSystem := ⟨"",0,0,0,none,""⟩

structure WireFormat where
  version : Int
  path : String
  mode : UInt32
  uid : UInt32
  gid : UInt32
  modTime : Option Instant
  mime : String
  deriving DecidableEq

def FileSystem.toWire (fs : FileSystem) : WireFormat := ⟨version,fs.path,fs.mode,fs.uid,fs.gid,fs.modTime,fs.mime⟩
def WireFormat.toFileSystem (w : WireFormat) : FileSystem := ⟨w.path,w.mode,w.uid,w.gid,w.modTime,w.mime⟩

structure Json where
  unmarshalObject : Bytes → Option (Table String Bytes)
  marshalObject : Table String Bytes → Option Bytes
  unmarshalWire : Bytes → Option WireFormat
  marshalWire : WireFormat → Option Bytes

inductive Fault where
  | path (fault : PathFault)
  | notObject
  | malformed
  | marshal
  deriving DecidableEq

section
variable (j : Json)
def marshalled (obj : Table String Bytes) : Except Fault Bytes :=
  match j.marshalObject obj with
  | some raw => .ok raw
  | none => .error .marshal

def pocketPut (ext : Bytes) (name : String) (value : Bytes) : Except Fault Bytes :=
  if ext = [] then marshalled j ((∅ : Table String Bytes).insert name value)
  else match j.unmarshalObject ext with
    | none => .error .notObject
    | some obj => marshalled j (obj.insert name value)

def pocketGet (ext : Bytes) (name : String) : Except Fault (Option Bytes) :=
  if ext = [] then .ok none
  else match j.unmarshalObject ext with
    | none => .error .notObject
    | some obj => .ok ((obj.lookup name).filter fun value => value ≠ [])

def encodeValue (fs : FileSystem) : Except Fault Bytes :=
  match validatePath fs.path with
  | some fault => .error (.path fault)
  | none =>
    match j.marshalWire fs.toWire with
    | some raw => .ok raw
    | none => .error .marshal

def embed (ext : Bytes) (fs : FileSystem) : Except Fault Bytes := do
  pocketPut j ext key (← encodeValue j fs)

def decode (ext : Bytes) : Except Fault (Option FileSystem) :=
  match pocketGet j ext key with
  | .error _ | .ok none => .ok none
  | .ok (some raw) =>
    match j.unmarshalWire raw with
    | none => .error .malformed
    | some w =>
      if w.version ≠ version then .ok none
      else match validatePath w.path with
        | some fault => .error (.path fault)
        | none => .ok (some w.toFileSystem)

def block (ext : Bytes) : Option FileSystem :=
  match decode j ext with
  | .ok found => found
  | .error _ => none

def resolver (ext : Bytes) : Option String := (block j ext).map FileSystem.path

end

/-- What is asked of the JSON library: what it writes for the one block of an object it reads back. -/
structure Faithful (j : Json) : Prop where
  wire : ∀ {w body}, j.marshalWire w = some body → body ≠ [] ∧ j.unmarshalWire body = some w
  object : ∀ {w body raw}, j.marshalWire w = some body → j.marshalObject ((∅ : Table String Bytes).insert key body) = some raw →
    raw ≠ [] ∧ ∃ obj, j.unmarshalObject raw = some obj ∧ ∀ name, obj.lookup name = if name = key then some body else none

section
variable {j fs ext}
theorem blockValid (found : block j ext = some fs) : validatePath fs.path = none := by
  unfold block at found
  split at found
  · next found' decoded =>
    subst found
    unfold decode at decoded
    split at decoded
    · cases decoded
    · cases decoded
    split at decoded
    · cases decoded
    next w _ =>
    split at decoded
    · cases decoded
    split at decoded
    · cases decoded
    · next valid =>
      cases decoded
      exact valid
  · cases found

theorem embedOk : embed j [] fs = .ok ext ↔ validatePath fs.path = none ∧ ∃ body,
    j.marshalWire fs.toWire = some body ∧ j.marshalObject ((∅ : Table String Bytes).insert key body) = some ext := by
  unfold embed encodeValue
  cases validatePath fs.path with
  | some fault => simp [bind,Except.bind]
  | none =>
    cases written : j.marshalWire fs.toWire with
    | none => simp [bind,Except.bind]
    | some body =>
      simp only [bind,Except.bind,pocketPut,if_true,marshalled,true_and,Option.some.injEq,exists_eq_left']
      cases j.marshalObject ((∅ : Table String Bytes).insert key body) with
      | none => simp
      | some raw => simp

theorem embedPocket (faithful : Faithful j) (embedded : embed j [] fs = .ok ext) : ∃ body, body ≠ [] ∧
    j.unmarshalWire body = some fs.toWire ∧ ∀ name, pocketGet j ext name = .ok (if name = key then some body else none) := by
  obtain ⟨_,body,written,marshalled⟩ := embedOk.mp embedded
  obtain ⟨filled,parsed⟩ := faithful.wire written
  obtain ⟨some',obj,object,lookup⟩ := faithful.object written marshalled
  refine ⟨body,filled,parsed,fun name => ?_⟩
  rw [pocketGet,if_neg some',object]
  simp only [lookup]
  split
  · simp [filled]
  · rfl

theorem embedBlock (faithful : Faithful j) (embedded : embed j [] fs = .ok ext) : block j ext = some fs := by
  obtain ⟨body,_,parsed,pocket⟩ := embedPocket faithful embedded
  have sound : validatePath fs.toWire.path = none := (embedOk.mp embedded).1
  have current : ¬ fs.toWire.version ≠ version := not_not.mpr rfl
  rw [block,decode,pocket,if_pos rfl]
  simp only [parsed,if_neg current,sound]
  rfl

end

end Scrinium.Vfsmeta
