import AsmCompare.Listing.Scan
import AsmCompare.Diagnostic
import AsmCompare.Text.Similar

/-! # Listings

A listing is a loaded file: its statements, its symbol table, and the messages of loading it.
-/
namespace AsmCompare

structure Listing where
  file : String
  statements : List Statement := []
  symbols : Listing.SymbolTable := ∅
  messages : List Message := []

namespace Listing

/-- The listing of a list of statements. -/
def ofStatements (file : String) (statements : List Statement) : Listing :=
  let scan := Scan.run file statements
  let loaded := "Loaded " ++ file ++ ": " ++ statements.length.repr ++ " statements, " ++
    scan.symbols.size.repr ++ " symbols"
  { file, statements, symbols := scan.symbols, messages := scan.messages ++ [⟨.debug, loaded⟩] }

/-- Loads a source text. -/
def load (file source : String) : Listing := ofStatements file (Statement.ofSource file source)

def warnings (l : Listing) : List String := Message.warnings l.messages

/-- The names of the symbols, sorted. -/
def names (l : Listing) : List String := l.symbols.keys

/-- The symbols, sorted by name. -/
def sortedSymbols (l : Listing) : List Symbol := l.symbols.values

def symbol? (l : Listing) (name : String) : Option Symbol := l.symbols[name]?

theorem mem_names_iff {l : Listing} {name : String} :
    name ∈ l.names ↔ (l.symbol? name).isSome = true := by
  rw [names, symbol?, Std.TreeMap.mem_keys, Std.TreeMap.mem_iff_isSome_getElem?]

/-- Function or object for a name that the file defines as one, else unknown. -/
def kindOf (l : Listing) (name : String) : Symbol.Kind :=
  match l.symbol? name with
  | some s => s.definedKind
  | none => .unknown

def hasFunction (l : Listing) (name : String) : Bool := l.kindOf name = .function

def hasObject (l : Listing) (name : String) : Bool := l.kindOf name = .object

theorem mem_names_of_hasFunction {l : Listing} {name : String} (h : l.hasFunction name = true) :
    name ∈ l.names := by
  rw [mem_names_iff]
  cases hs : l.symbol? name with
  | none => simp [hasFunction, kindOf, hs] at h
  | some s => rfl

/-- Up to three names of the table that are close to a name. -/
def similar (l : Listing) (name : String) : List String := Text.closeNames name l.names

def notFound (l : Listing) (name : String) : Error :=
  .symbolNotFound name (some l.file) (l.similar name)

def find (l : Listing) (name : String) : Except Error Symbol :=
  match l.symbol? name with
  | some s => .ok s
  | none => .error (l.notFound name)

/-- The statement that defines a name. -/
def definition? (l : Listing) (name : String) : Option Statement := do
  let symbol ← l.symbol? name
  l.statements[← symbol.definedAt]?

end Listing

end AsmCompare
