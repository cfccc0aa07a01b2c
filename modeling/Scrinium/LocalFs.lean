import Scrinium.Keyed
import Scrinium.Domain

/-! The local filesystem driver over a map from logical paths to files. `placedAt` is when the file came to its path,
which the driver never reads. -/
namespace Scrinium.LocalFs
open Keyed Domain

structure File where
  data : Bytes
  modTime : Instant
  placedAt : Instant
  deriving DecidableEq

abbrev Fs := Table String File
def tombstoneSuffix : String := ".tombstone"
def marker (path : String) : String := path ++ tombstoneSuffix

section
variable (fs : Fs) (path : String)
def put (data : Bytes) (now : Instant) : Fs := fs.insert path ⟨data,now,now⟩

def putExclusive (data : Bytes) (now : Instant) : Except Error Fs :=
  if path ∈ fs then .error .alreadyExists else .ok (put fs path data now)

def get : Except Error Bytes :=
  match fs.lookup path with
  | some file => .ok file.data
  | none => .error .notExist

def remove : Fs := fs.erase path

end

def rename (fs : Fs) (src dst : String) (now : Instant) : Except Error Fs :=
  match fs.lookup src with
  | some file => .ok ((fs.erase src).insert dst {file with placedAt := now})
  | none => .error .notExist

section
variable (fs : Fs) (path : String)
def markTombstone (now : Instant) : Fs :=
  match fs.lookup path, fs.lookup (marker path) with
  | some _, some _ => fs.erase path
  | none, some _ => fs
  | some file, none => (fs.erase path).insert (marker path) {file with placedAt := now}
  | none, none => fs.insert (marker path) ⟨[],now,now⟩

def isTombstone : Bool := marker path ∈ fs
def tombstoneInfo : Option Instant := (fs.lookup (marker path)).map File.modTime
def removeTombstone : Fs := fs.erase (marker path)

end

def isHidden (name : List Char) : Bool :=
  tombstoneSuffix.toList.isSuffixOf name ||
    (['.'].isPrefixOf name && name.tails.any fun rest => ".tmp.".toList.isPrefixOf rest)

def underDir (dir path : String) : Bool :=
  (dir ++ "/").toList.isPrefixOf path.toList &&
    ((path.toList.drop (dir.toList.length + 1)).splitOn '/').all fun name => !isHidden name

def listObjects (fs : Fs) (dir : String) : List String := fs.keys.filter fun path => underDir dir path

theorem markerNe (path : String) : marker path ≠ path := by
  intro same
  have lengths := congrArg (fun text => text.toList.length) same
  simp [marker,tombstoneSuffix,String.toList_append] at lengths

theorem markerInjective {a b} (same : marker a = marker b) : a = b := by
  have chars := congrArg String.toList same
  simp only [marker,String.toList_append] at chars
  exact String.toList_inj.mp (List.append_cancel_right chars)

variable {fs path}

theorem underHead {dir} (under : underDir dir path = true) : path.toList.head? = (dir ++ "/").toList.head? := by
  rw [underDir,Bool.and_eq_true] at under
  obtain ⟨rest,joined⟩ := List.isPrefixOf_iff_prefix.mp under.1
  rw [← joined,List.head?_append_of_ne_nil _ (by simp)]

theorem listedHead {dir} (listed : path ∈ listObjects fs dir) : path.toList.head? = (dir ++ "/").toList.head? :=
  underHead (List.mem_filter.mp listed).2

theorem getOk {data} : get fs path = .ok data ↔ ∃ file, fs.lookup path = some file ∧ file.data = data := by
  unfold get
  cases fs.lookup path <;> simp

theorem renameOk {fs' src dst now} (ok : rename fs src dst now = .ok fs') :
    ∃ file, fs.lookup src = some file ∧ fs' = (fs.erase src).insert dst {file with placedAt := now} := by
  unfold rename at ok
  split at ok
  · next file found =>
    cases ok
    exact ⟨file,found,rfl⟩
  · contradiction

theorem markSource (fs : Fs) (path : String) (now : Instant) : (markTombstone fs path now).lookup path = none := by
  unfold markTombstone
  split
  · simp
  · assumption
  · rw [lookupInsert,if_neg (markerNe path).symm,lookupErase,if_pos rfl]
  · next missing _ => rw [lookupInsert,if_neg (markerNe path).symm,missing]

theorem markMarker (fs : Fs) (path : String) (now : Instant) :
    (markTombstone fs path now).lookup (marker path) =
      some ((fs.lookup (marker path)).getD {(fs.lookup path).getD ⟨[],now,now⟩ with placedAt := now}) := by
  unfold markTombstone
  split
  · next marked => rw [lookupErase,if_neg (markerNe path),marked]; rfl
  · next marked => rw [marked]; rfl
  · next found unmarked => rw [lookupInsert,if_pos rfl,found,unmarked]; rfl
  · next missing unmarked => rw [lookupInsert,if_pos rfl,missing,unmarked]; rfl

theorem markFrame {other} (now : Instant) (notPath : other ≠ path) (notMarker : other ≠ marker path) :
    (markTombstone fs path now).lookup other = fs.lookup other := by
  unfold markTombstone
  split
  · rw [lookupErase,if_neg notPath]
  · rfl
  · rw [lookupInsert,if_neg notMarker,lookupErase,if_neg notPath]
  · rw [lookupInsert,if_neg notMarker]

end Scrinium.LocalFs
