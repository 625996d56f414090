import AsmCompare.Listing.Basic
import AsmCompare.Body

/-! # Taking bodies out of a listing

A function runs from its label to the size statement that names it, or to the end of the file. A
data object is the run of data, debug statements and inner labels after its label, or its one
common statement.
-/
namespace AsmCompare.Listing

/-- The statements after a position as long as they satisfy `p`, with their positions. -/
def runAfter (l : Listing) (start : Nat) (p : Statement → Bool) : List (Statement × Nat) :=
  ((l.statements.drop (start + 1)).takeWhile p).zipIdx (start + 1)

def isFunctionDebug (s : Statement) : Bool :=
  s.kind = .sourceFile || s.kind = .lineNumber ||
    (s.isLabel && Name.isDebugLabel (s.label?.getD ""))

/-- A label that starts a function or object of the file. -/
def startsSymbol (l : Listing) (s : Statement) : Bool :=
  match s.label? with
  | some name => l.kindOf name ≠ .unknown
  | none => false

/-- The statements of the function that is defined at `start`, with their positions. -/
def functionRange (l : Listing) (strip : Bool) (name : String) (start : Nat) :
    List (Statement × Nat) :=
  (l.runAfter start fun s => !(s.kind = .size && s.symbol? = some name)).filter
    fun p => !(strip && isFunctionDebug p.1)

/-- Statements that continue a data object. -/
def continuesObject (l : Listing) (s : Statement) : Bool :=
  s.kind.isData || s.kind.isDebug || (s.isLabel && !l.startsSymbol s)

/-- The statements of the object that is defined at `start`, with their positions. -/
def objectRange (l : Listing) (strip : Bool) (start : Nat) : List (Statement × Nat) :=
  match l.statements[start]? with
  | none => []
  | some first =>
    if first.kind.isCommon then [(first, start)]
    else (l.runAfter start l.continuesObject).filter fun p => !(strip && p.1.kind.isDebug)

/-- A body with the statements that go with the definition of its symbol. -/
def bodyOf (l : Listing) (symbol : Symbol) (range : List (Statement × Nat)) : Body :=
  { name := symbol.name
    kind := symbol.kind
    statements := range.map Prod.fst
    sectionStatement := symbol.sectionAt.bind (l.statements[·]?)
    alignment := symbol.alignAt.bind (l.statements[·]?)
    size := symbol.sizeAt.bind (l.statements[·]?)
    typeStatement := symbol.typeAt.bind (l.statements[·]?) }

/-- The body of a function; `strip` drops its debug statements. -/
def function? (l : Listing) (strip : Bool) (name : String) : Option Body := do
  let symbol ← l.symbol? name
  let start ← symbol.definedAt
  guard (symbol.kind = .function)
  return l.bodyOf symbol (l.functionRange strip name start)

/-- The body of a data object; `strip` drops its debug statements. -/
def object? (l : Listing) (strip : Bool) (name : String) : Option Body := do
  let symbol ← l.symbol? name
  let start ← symbol.definedAt
  guard (symbol.kind = .object)
  return l.bodyOf symbol (l.objectRange strip start)

theorem symbol?_isSome_of_function? {l : Listing} {strip : Bool} {name : String} {b : Body}
    (h : l.function? strip name = some b) : (l.symbol? name).isSome = true := by
  cases hs : l.symbol? name with
  | none =>
    rw [function?, hs] at h
    cases h
  | some s => rfl

theorem symbol?_isSome_of_object? {l : Listing} {strip : Bool} {name : String} {b : Body}
    (h : l.object? strip name = some b) : (l.symbol? name).isSome = true := by
  cases hs : l.symbol? name with
  | none =>
    rw [object?, hs] at h
    cases h
  | some s => rfl

/-- The body of a symbol of a kind. -/
def bodyOfKind? (l : Listing) (kind : Symbol.Kind) (strip : Bool) (name : String) : Option Body :=
  if kind = .function then l.function? strip name else l.object? strip name

theorem mem_names_of_bodyOfKind? {l : Listing} {kind : Symbol.Kind} {strip : Bool} {name : String}
    {b : Body} (h : l.bodyOfKind? kind strip name = some b) : name ∈ l.names := by
  rw [mem_names_iff]
  unfold bodyOfKind? at h
  split at h
  · exact symbol?_isSome_of_function? h
  · exact symbol?_isSome_of_object? h

/-- The body of a function or, failing that, of an object. -/
def body? (l : Listing) (strip : Bool) (name : String) : Option Body :=
  if l.hasFunction name then l.function? strip name else l.object? strip name

end AsmCompare.Listing
