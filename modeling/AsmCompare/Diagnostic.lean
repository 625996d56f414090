import AsmCompare.Location

/-! # Errors and their texts -/
namespace AsmCompare

/-- An error text with the place it is about, the source text there, and a hint. -/
structure Diagnostic where
  message : String
  location : Option Location := none
  hint : Option String := none
  sourceLine : Option String := none
  deriving DecidableEq, Repr

/-- The lines of a diagnostic: the message after its place, the source text if a place is given,
and a hint that is not empty. -/
def Diagnostic.render (d : Diagnostic) : String :=
  let first := match d.location with
    | some l => l.render ++ ": error: " ++ d.message
    | none => "error: " ++ d.message
  let source := match d.sourceLine, d.location with
    | some line, some _ => "\n    " ++ line
    | _, _ => ""
  let hint := match d.hint with
    | some h => if h = "" then "" else "\nhint: " ++ h
    | none => ""
  first ++ source ++ hint

/-- Why a request cannot be served. -/
inductive Error where
  | unreadable (file reason : String)
  | symbolNotFound (symbol : String) (file : Option String) (similar : List String)
  | kindMismatch (old new : String) (location : Option Location) (sourceLine : Option String)
  | depthTooSmall (depth : Int)
  | unknownFunction (name : String) (similar : List String)
  deriving DecidableEq, Repr

namespace Error

/-- Suggests names; there is no hint if there are none. -/
def suggest (names : List String) : Option String :=
  if names.isEmpty then none else some ("did you mean " ++ ", ".intercalate names ++ "?")

def diagnostic : Error → Diagnostic
  | unreadable file reason => { message := "cannot read '" ++ file ++ "': " ++ reason }
  | symbolNotFound symbol file similar =>
    let place := match file with
      | some f => if f = "" then "" else " in '" ++ f ++ "'"
      | none => ""
    { message := "symbol not found" ++ place ++ ": " ++ symbol
      hint := suggest ((similar.take 3).map fun s => "'" ++ s ++ "'") }
  | kindMismatch old new location sourceLine =>
    { message := "unknown or mismatching types: " ++ old ++ " vs. " ++ new, location, sourceLine }
  | depthTooSmall depth => { message := "max depth must be at least 1, got " ++ decimal depth }
  | unknownFunction name similar =>
    { message := "unknown function: " ++ name, hint := suggest similar }

def render (e : Error) : String := e.diagnostic.render

end Error

end AsmCompare
