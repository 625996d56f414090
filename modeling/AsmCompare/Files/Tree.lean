import AsmCompare.Files.Path
import Std.Data.TreeMap

/-! # File trees

Directories and files with their bytes, and a working directory. Paths are followed part by part:
every part but the last has to name a directory, and so has the last one if a slash follows it.
-/
namespace AsmCompare.Files

inductive Entry where
  | file (bytes : List UInt8)
  | directory

/-- Names from a place up to the root. -/
abbrev Place := List String

structure Tree where
  workingDirectory : Place
  entries : Std.TreeMap String Entry := ∅

/-- Longest name of a file, in bytes. -/
def maxName : Nat := 255

/-- Longest path, in bytes. -/
def maxPath : Nat := 4095

namespace Tree

def key (place : Place) : String := "/".intercalate place.reverse

/-- What is at a place; the working directory and those above it exist. -/
def at? (t : Tree) (place : Place) : Option Entry :=
  if place.isSuffixOf t.workingDirectory then some .directory else t.entries[key place]?

/-- Follows the parts of a path from a place that exists. -/
def follow (t : Tree) : Place → List String → Except PathError Place
  | place, [] => .ok place
  | place, part :: rest =>
    match t.at? place with
    | none => .error .notFound
    | some (.file _) => .error .notDirectory
    | some .directory =>
      if part = "" || part = "." then follow t place rest
      else if part = ".." then follow t (place.drop 1) rest
      else if maxName < part.utf8ByteSize then .error .nameTooLong
      else if (t.at? (part :: place)).isSome then follow t (part :: place) rest
      else .error .notFound

/-- Where the parts of a path start. -/
def start (t : Tree) (path : String) : Place :=
  if path.toList.head? = some '/' then [] else t.workingDirectory

/-- The place that a path names. -/
def resolve (t : Tree) (path : String) : Except PathError Place :=
  if path = "" then .error .notFound
  else if maxPath < path.utf8ByteSize then .error .nameTooLong
  else t.follow (t.start path) ((parts path.toList).map String.ofList)

/-- What a path names. -/
def lookup (t : Tree) (path : String) : Except PathError Entry := do
  let place ← t.resolve path
  match t.at? place with
  | some entry => .ok entry
  | none => .error .notFound

/-- The text of a file, if the path names one. -/
def content? (t : Tree) (path : String) : Option (List UInt8) :=
  match t.lookup path with
  | .ok (.file bytes) => some bytes
  | _ => none

/-- Where a file that does not exist would be created. -/
def newPlace (t : Tree) (path : String) : Except PathError Place := do
  let names := (parts path.toList).map String.ofList
  let parent ← t.follow (t.start path) names.dropLast
  match t.at? parent, names.getLast? with
  | some .directory, some name => .ok (name :: parent)
  | some (.file _), _ => .error .notDirectory
  | _, _ => .error .notFound

/-- Writes a file, which is created unless it exists. -/
def write (t : Tree) (path : String) (bytes : List UInt8) : Except PathError Tree :=
  match t.resolve path with
  | .ok place =>
    match t.at? place with
    | some .directory => .error .isDirectory
    | _ => .ok { t with entries := t.entries.insert (key place) (.file bytes) }
  | .error .notFound => do
    let place ← t.newPlace path
    return { t with entries := t.entries.insert (key place) (.file bytes) }
  | .error e => .error e

/-- Goes one step from a place: up for `..`, else down into a directory that is made if it is
missing. -/
def enter (walked : Tree × Place) (name : String) : Tree × Place :=
  let (t, place) := walked
  if name = ".." then (t, place.drop 1)
  else
    ({ t with entries := t.entries.insertIfNew (key (name :: place)) .directory }, name :: place)

/-- Adds an entry and the directories on the way to it. -/
def put (t : Tree) (path : String) (entry : Entry) : Tree :=
  let names := ((parts path.toList).filter fun p => p ≠ [] && p ≠ ['.']).map String.ofList
  let (t, place) := names.dropLast.foldl enter (t, t.start path)
  match names.getLast? with
  | none | some ".." => t
  | some name => { t with entries := t.entries.insert (key (name :: place)) entry }

end Tree

end AsmCompare.Files
