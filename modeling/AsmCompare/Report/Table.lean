import AsmCompare.Listing.Extract
import AsmCompare.Text.Column

/-! # Symbol tables, bodies and copies as text -/
namespace AsmCompare.Report
open Text

/-- Which symbols a table lists. -/
structure TableOptions where
  functions : Bool := true
  objects : Bool := true
  globals : Bool := true
  locals : Bool := true
  deriving DecidableEq, Repr

def kindTitle : Symbol.Kind → String
  | .function => "Function"
  | .object => "Object"
  | .unknown => "Symbol"

def scopeTitle : Symbol.Scope → String
  | .unknown => "Unknown"
  | .file => "Local"
  | .global => "Global"

/-- The groups of a table, in order. -/
def tableGroups (o : TableOptions) : List (Symbol.Kind × Symbol.Scope) :=
  (if o.functions && o.globals then [(.function, .global)] else []) ++
  (if o.functions && o.locals then [(.function, .file)] else []) ++
  (if o.objects && o.globals then [(.object, .global)] else []) ++
  (if o.objects && o.locals then [(.object, .file)] else [])

def tableLine (s : Symbol) : String :=
  padRight 10 (kindTitle s.kind ++ ":") ++ padRight 48 s.name ++ " Scope: " ++ scopeTitle s.scope

/-- Global functions, local functions, global objects and local objects, each group by name. -/
def table (l : Listing) (o : TableOptions) : List String :=
  (tableGroups o).flatMap fun (kind, scope) =>
    (l.sortedSymbols.filter fun s => s.kind = kind && s.scope = scope).map tableLine

/-- A statement as it was written; labels stand at the margin. -/
def sourceLine (s : Statement) : String := (if s.isLabel then "" else "\t") ++ s.text

/-- The label of a symbol and its body as written in the source. -/
def bodyLines (b : Body) : List String := (b.name ++ ":") :: b.statements.map sourceLine

/-- The statement of a common object. -/
def commonStatement? (b : Body) : Option Statement :=
  match b.statements with
  | [s] => if s.kind.isCommon then some s else none
  | _ => none

def directiveLine (s : Option Statement) : List String := (s.map fun s => "\t" ++ s.text).toList

/-- A symbol as stand-alone assembly: its section, alignment and type in front of it and its size
after it, or its one common statement. -/
def copyLines (l : Listing) (b : Body) : List String :=
  match commonStatement? b with
  | some s =>
    let scope := (l.symbol? b.name).map Symbol.scope
    (if s.kind = .common && scope = some .file then ["\t.local " ++ b.name] else []) ++
      ["\t" ++ s.text]
  | none =>
    directiveLine b.sectionStatement ++ directiveLine b.alignment ++ directiveLine b.typeStatement ++
      bodyLines b ++ directiveLine b.size

/-- Text made of lines, each with its end. -/
def unlines (lines : List String) : String := String.join (lines.map (· ++ "\n"))

/-- Copies symbols without debug statements; also the names that are neither function nor object. -/
def copy (l : Listing) (names : List String) : String × List String :=
  let bodies := names.map fun name => (name, l.body? true name)
  (unlines (bodies.flatMap fun (_, b) => (b.map (copyLines l)).getD []),
   (bodies.filter fun (_, b) => b.isNone).map Prod.fst)

end AsmCompare.Report
