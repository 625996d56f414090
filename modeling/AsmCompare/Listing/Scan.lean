import AsmCompare.Statement.Basic
import AsmCompare.Message
import Std.Data.TreeMap

/-! # The symbol table of a file, in one pass

The pass keeps the section in force, the sections saved by `.pushsection`, the first selection of
each named section, and the last alignment that still waits for a label.
-/
namespace AsmCompare.Listing

abbrev SymbolTable := Std.TreeMap String Symbol

/-- Changes the entry of a name, which is new if the table has none. -/
def SymbolTable.update (table : SymbolTable) (name : String) (f : Symbol → Symbol) : SymbolTable :=
  table.insert name (f (table.getD name { name }))

structure Scan where
  symbols : SymbolTable := ∅
  saved : List (Option Nat) := []
  anchors : Std.TreeMap String Nat := ∅
  inForce : Option Nat := none
  alignment : Option Nat := none
  uninterpreted : List String := []
  messages : List Message := []

/-- The name of the section that a statement selects, empty if it has none. -/
def sectionName (s : Statement) : String :=
  match s.detail with
  | some (.inSection name _ _) => name
  | _ => ""

namespace Scan

def update (scan : Scan) (name : String) (f : Symbol → Symbol) : Scan :=
  { scan with symbols := scan.symbols.update name f }

/-- Selects a section: all selections of one name share the first of them. -/
def select (scan : Scan) (index : Nat) (s : Statement) : Scan :=
  let name := sectionName s
  if name = "" then { scan with inForce := some index }
  else
    match scan.anchors[name]? with
    | some first => { scan with inForce := some first }
    | none => { scan with inForce := some index, anchors := scan.anchors.insert name index }

def push (scan : Scan) (index : Nat) (s : Statement) : Scan :=
  let scan := { scan with saved := scan.inForce :: scan.saved }
  if sectionName s = "" then scan else scan.select index s

/-- Goes back to the section saved last; without one this is a warning. -/
def pop (file : String) (scan : Scan) (s : Statement) : Scan :=
  match scan.saved with
  | top :: rest => { scan with inForce := top, saved := rest }
  | [] =>
    let place := (s.location.map Location.render).getD file
    let text := place ++ ": .popsection without matching .pushsection"
    { scan with messages := scan.messages ++ [⟨.warning, text⟩] }

/-- The symbol of a label, which is an object unless its kind is known. -/
def definedByLabel (scan : Scan) (index : Nat) (symbol : Symbol) : Symbol :=
  Symbol.withDefaultScope
    { symbol with
      definedAt := some index
      sectionAt := scan.inForce
      alignAt := scan.alignment <|> symbol.alignAt
      kind := if symbol.kind = .unknown then .object else symbol.kind }

/-- The symbol of a common statement. -/
def definedAsCommon (scan : Scan) (index : Nat) (kind : Statement.Kind) (symbol : Symbol) :
    Symbol :=
  { symbol with
    definedAt := some index
    sectionAt := scan.inForce
    kind := .object
    scope := symbol.scope.orElse (if kind = .localCommon then .file else .global) }

/-- The symbol of a statement on its type. -/
def givenType (index : Nat) (kind : Symbol.Kind) (symbol : Symbol) : Symbol :=
  Symbol.withDefaultScope { symbol with kind, typeAt := some index }

/-- A label defines its symbol and takes the waiting alignment. -/
def label (scan : Scan) (index : Nat) (s : Statement) : Scan :=
  match s.label? with
  | none => scan
  | some name =>
    if Name.isTracked name then
      { scan.update name (scan.definedByLabel index) with alignment := none }
    else scan

/-- A common statement defines its symbol as an object; no alignment waits past it. -/
def common (scan : Scan) (index : Nat) (s : Statement) : Scan :=
  let scan := match s.symbol? with
    | none => scan
    | some name => scan.update name (scan.definedAsCommon index s.kind)
  { scan with alignment := none }

def type (scan : Scan) (index : Nat) (s : Statement) : Scan :=
  match s.detail, s.symbol? with
  | some (.type _ kind), some name => scan.update name (givenType index kind)
  | _, _ => scan

def size (scan : Scan) (index : Nat) (s : Statement) : Scan :=
  match s.symbol? with
  | some name => scan.update name fun symbol => { symbol with sizeAt := some index }
  | none => scan

def setScope (scope : Symbol.Scope) (scan : Scan) (s : Statement) : Scan :=
  s.namedSymbols.foldl (fun scan name => scan.update name fun symbol => { symbol with scope }) scan

/-- Any other statement ends a waiting alignment; an unknown directive is reported once. -/
def other (file : String) (scan : Scan) (s : Statement) : Scan :=
  let scan := { scan with alignment := none }
  if s.kind = .unknown && !scan.uninterpreted.contains s.mnemonic then
    let text := file ++ ": directive " ++ s.mnemonic ++ " kept uninterpreted"
    { scan with
      uninterpreted := s.mnemonic :: scan.uninterpreted
      messages := scan.messages ++ [⟨.debug, text⟩] }
  else scan

def step (file : String) (scan : Scan) (index : Nat) (s : Statement) : Scan :=
  match s.kind with
  | .text | .data | .bss => { scan with inForce := some index }
  | .namedSection => scan.select index s
  | .pushSection => scan.push index s
  | .popSection => scan.pop file s
  | .label => scan.label index s
  | .common | .localCommon => scan.common index s
  | .type => scan.type index s
  | .localNames => scan.setScope .file s
  | .globalNames => scan.setScope .global s
  | .size => scan.size index s
  | .align | .p2align | .balign => { scan with alignment := some index }
  | _ => scan.other file s

/-- The state after the statements of a file. -/
def run (file : String) (statements : List Statement) : Scan :=
  statements.zipIdx.foldl (fun scan p => scan.step file p.2 p.1) {}

end Scan

end AsmCompare.Listing
