import AsmCompare.Comparison.Change
import AsmCompare.Report.Table
import AsmCompare.Text.Ansi
import Std.Data.TreeSet

/-! # Differences, chains and changes as text

A difference shows the entries of a script near a change, with a mark for what is left out.
-/
namespace AsmCompare.Report
open Text

/-- Width of one side in two columns. -/
def columnWidth : Nat := 40

/-- A text that reaches the column width is cut to this length. -/
def clipLength : Nat := 34

def ellipsis : String := "[...]"

def diffIndent : String := spaces 8

def changeIndent : String := spaces 20

/-- How differences are shown: entries around a change, in two columns, in colour. -/
structure DiffStyle where
  context : Int := 3
  pretty : Bool := false
  color : Bool := true
  deriving DecidableEq, Repr

def clip (s : String) : String :=
  if columnWidth ≤ s.length then String.ofList (s.toList.take clipLength) ++ ellipsis else s

def twoColumns (left right : String) : String :=
  diffIndent ++ " " ++ padRight columnWidth (clip left) ++ "| " ++ clip right

/-- A statement with its tabs expanded. -/
def statementText (s : Option Statement) : String :=
  match s with
  | some s => String.ofList (expandTabs 8 (trim s.render.toList))
  | none => ""

/-- The statement of a body at a position of a script. -/
def statementAt (b : Body) (position : Option Int) : Option Statement :=
  match position with
  | some (.ofNat i) => b.statements[i]?
  | _ => none

def marker : Edit.Op → String
  | .equal => " "
  | .added => "+"
  | .removed => "-"

def colorOf? : Edit.Op → Option Color
  | .equal => none
  | .added => some .green
  | .removed => some .red

/-- The line of an entry: what it keeps or removes, or what it adds; in two columns both sides. -/
def diffLine (old new : Body) (style : DiffStyle) (e : Edit) : String :=
  let left := if e.op = .added then "" else statementText (statementAt old e.old)
  let right := if e.op = .removed then "" else statementText (statementAt new e.new)
  let text := if e.op = .added then right else left
  let line := if style.pretty then twoColumns left right else diffIndent ++ marker e.op ++ text
  match colorOf? e.op with
  | some color => if style.color then paint color line else line
  | none => line

/-- Positions of the changes of a script. -/
def changePositions (script : List Edit) : List Nat :=
  (script.zipIdx.filter fun p => p.1.isChange).map Prod.snd

/-- The positions shown around a change, cut off at both ends of the script. -/
def window (context : Int) (length change : Nat) : List Nat :=
  let first := ((change : Int) - context).toNat
  List.range' first (min length ((change : Int) + context + 1).toNat - first)

/-- The positions shown around the changes of a script. -/
def shownPositions (context : Int) (script : List Edit) : Std.TreeSet Nat :=
  (changePositions script).foldl
    (fun shown change => shown.insertMany (window context script.length change)) ∅

/-- Stands for the entries left out. -/
def gapLine : String := diffIndent ++ " " ++ ellipsis

/-- The lines of the entries shown, given the position after the last one shown. -/
def shownLines (line : Edit → String) (isShown : Nat → Bool) :
    (next : Nat) → List (Edit × Nat) → List String
  | _, [] => []
  | next, (e, i) :: rest =>
    if isShown i then
      (if i = next then [] else [gapLine]) ++ line e :: shownLines line isShown (i + 1) rest
    else shownLines line isShown next rest

/-- The lines of a difference. -/
def diffLines (old new : Body) (script : List Edit) (style : DiffStyle) : List String :=
  let shown := shownPositions style.context script
  shownLines (diffLine old new style) shown.contains 0 script.zipIdx

def diffHeader (oldName newName : String) (pretty : Bool) : String :=
  if pretty then twoColumns oldName newName else newName ++ " (was/is " ++ oldName ++ "):"

def pairLines (p : ComparedPair) (style : DiffStyle) : List String :=
  diffLines p.old p.new p.script style

/-- A node: the new name, the old one if it differs, function or object, same or changed. -/
def nodeText (c : Chain) : String :=
  let was := if c.pairing.old = c.pairing.new then "" else " (was " ++ c.pairing.old ++ ")"
  let kind := if c.pairing.kind = .function then "f" else "o"
  let flat := if c.flatEqual then "=" else "!"
  c.pairing.new ++ was ++ "[" ++ kind ++ flat ++ "]"

/-- A chain as a tree, each level further in. -/
def chainLines (indent : String) (c : Chain) : List String :=
  (Chain.visit (· ++ spaces 4) [(indent, c)]).map fun (indent, node) =>
    indent ++ "-> " ++ nodeText node

def kindWord : Symbol.Kind → String
  | .function => "function"
  | .object => "object"
  | .unknown => "symbol"

def statusLine (status : String) (c : Change) : String :=
  padRight 20 (status ++ " " ++ kindWord c.kind ++ ":") ++ c.name

/-- The lines of one change; the difference of a changed symbol is shown if its pair is given. -/
def changeLines (style : DiffStyle) (pair : String → Option ComparedPair) (c : Change) :
    List String :=
  match c.status with
  | .new => [statusLine "New" c]
  | .removed => [statusLine "Removed" c]
  | .unchanged => []
  | .changed =>
    statusLine "Changed" c :: ((pair c.name).map (pairLines · style)).getD []
  | .dependencyChanged =>
    [statusLine "Changed" c,
     changeIndent ++ "(Only referenced compiler-generated symbols changed)",
     changeIndent ++ "Dependency chain:"] ++ (c.chain.map (chainLines changeIndent)).getD []

/-- A summary of the changes; unchanged symbols are not listed. -/
def changesLines (style : DiffStyle) (pair : String → Option ComparedPair)
    (changes : List Change) : List String :=
  changes.flatMap (changeLines style pair)

end AsmCompare.Report
