import Mathlib.Data.List.TakeWhile
import Scrinium.Hierarchy

/-! Logical slash paths, as the trees of the projection use them, and the rules for the path of a filesystem block. -/
namespace Scrinium.Pathx
open Hierarchy

abbrev Path := List String
def lastSegment (p : String) : String := String.ofList (p.toList.reverse.takeWhile (· ≠ '/')).reverse
def segments (p : String) : List String := (p.toList.splitOn '/').map String.ofList
def ofString (p : String) : Path := if p = "" then [] else (segments p).reverse

inductive PathFault where
  | empty
  | nul
  | leadingSlash
  | emptySegment
  | dotSegment
  | dotDotSegment
  deriving DecidableEq

def segmentFault (segment : String) : Option PathFault :=
  if segment = "" then some .emptySegment
  else if segment = "." then some .dotSegment
  else if segment = ".." then some .dotDotSegment
  else none

def validatePath (p : String) : Option PathFault :=
  if p = "" then some .empty
  else if p.toList.contains (Char.ofNat 0) then some .nul
  else if p.toList.head? = some '/' then some .leadingSlash
  else (segments p).findSome? segmentFault

def isUnder (p above : String) : Bool :=
  if above = "" then p ≠ "" else p = above || (above ++ "/").toList.isPrefixOf p.toList

end Scrinium.Pathx
