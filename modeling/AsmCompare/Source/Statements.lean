import AsmCompare.Source.Split
import AsmCompare.Text.Lines

/-! # The statement texts of a source

Each line loses its comment, is cut at its semicolons, and every leading label of a statement
becomes a statement of its own.
-/
namespace AsmCompare.Source
open Text

/-- Takes all leading labels off a trimmed statement. -/
def peelLabels (statement : List Char) : List (List Char) :=
  match h : splitLabel statement with
  | (some label, rest) =>
    have := length_lt_of_splitLabel h
    label :: peelLabels rest
  | (none, rest) => if rest.isEmpty then [] else [rest]
termination_by statement.length

def lineStatements (line : List Char) : List (List Char) :=
  (splitStatements (trim (stripComment line))).flatMap peelLabels

/-- The statement texts of a source with their line numbers, counted from one. -/
def statements (source : String) : List (String × Nat) :=
  ((splitLines source.toList).zipIdx 1).flatMap fun (line, number) =>
    (lineStatements line).map fun text => (String.ofList text, number)

end AsmCompare.Source
