import AsmCompare.Files.Tree
import AsmCompare.Listing.Basic
import AsmCompare.Text.Utf8

/-! # Loading a listing from a file -/
namespace AsmCompare.Files

/-- How a path is looked up. -/
abbrev Lookup := String → Except PathError Entry

inductive LoadError where
  | nulInPath
  | failed (e : Error)
  deriving DecidableEq, Repr

def LoadError.message : LoadError → String
  | nulInPath => "embedded null byte"
  | failed e => e.render

/-- Loads the file that a path names; the listing keeps the path as it was given. -/
def load (lookup : Lookup) (path : String) : Except LoadError Listing :=
  if path.toList.contains '\x00' then .error .nulInPath
  else
    match lookup (shorten path) with
    | .ok (.file bytes) => .ok (Listing.load path (Text.readText bytes))
    | .ok .directory => .error (.failed (.unreadable path PathError.isDirectory.reason))
    | .error e => .error (.failed (.unreadable path e.reason))

end AsmCompare.Files
