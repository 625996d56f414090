import AsmCompare.Statement.Detail
import AsmCompare.Source.Statements
import AsmCompare.Location

/-! # Statements

A statement is its text, its first word, its operands and what it says. Renaming a label and
printing work on the words and tokens; the text stays as it was written.
-/
namespace AsmCompare

structure Statement where
  text : String
  mnemonic : String
  kind : Statement.Kind
  operands : List Operand := []
  detail : Option Statement.Detail := none
  location : Option Location := none
  deriving DecidableEq, Repr

namespace Statement

/-- A detail that does not go with the kind of a statement. -/
inductive DetailError where
  | unexpected (kind : Kind)
  | mismatch (kind : Kind) (expected actual : Detail.Shape)
  deriving DecidableEq, Repr

def DetailError.message : DetailError → String
  | unexpected kind => kind.name ++ " statements carry no payload"
  | mismatch kind expected actual =>
    kind.name ++ " statement needs " ++ expected.name ++ ", got " ++ actual.name

/-- The detail a statement is built with: the one given, if it fits the kind, else a blank one. -/
def fitDetail (kind : Kind) (mnemonic : String) (detail : Option Detail) :
    Except DetailError (Option Detail) :=
  match kind.shape?, detail with
  | none, none => .ok none
  | none, some _ => .error (.unexpected kind)
  | some shape, none => .ok (some (shape.blank mnemonic))
  | some shape, some d =>
    if d.shape = shape then .ok (some d) else .error (.mismatch kind shape d.shape)

/-- Builds a statement whose detail fits its kind. -/
def build (text mnemonic : String) (kind : Kind) (operands : List Operand)
    (detail : Option Detail) (location : Option Location) : Except DetailError Statement := do
  let detail ← fitDetail kind mnemonic detail
  return { text, mnemonic, kind, operands, detail, location }

/-- Reads one statement; a text without a word is none. -/
def ofText? (text : String) (location : Option Location) : Option Statement :=
  let (word, rest) := Source.splitMnemonic text.toList
  if word.isEmpty then none
  else
    let (kind, mnemonic) := classify word
    let operands := Operand.ofText rest
    some { text, mnemonic, kind, operands, location,
           detail := Detail.ofOperands? kind mnemonic operands }

/-- The statements of a source, in order. -/
def ofSource (file source : String) : List Statement :=
  (Source.statements source).filterMap fun (text, line) => ofText? text (some ⟨file, line⟩)

def isLabel (s : Statement) : Bool := s.kind = .label

/-- The name of a label. -/
def label? (s : Statement) : Option String :=
  match s.detail with
  | some (.label name) => some name
  | _ => none

/-- The symbol that the statement says something about. -/
def symbol? (s : Statement) : Option String := s.detail.bind Detail.symbol?

/-- The first name in every operand. -/
def namedSymbols (s : Statement) : List String :=
  s.operands.filterMap fun o => (o.firstOf? .identifier).map Token.text

def identifiers (s : Statement) : List Token := s.operands.flatten.filter Token.isIdentifier

/-- Renames every reference to a label. Section names are no label references. -/
def rename (old new : String) (s : Statement) : Statement :=
  if s.kind.isSection then s
  else
    { s with
      operands := s.operands.map (List.map (Token.rename old new))
      mnemonic := if s.label? = some old then new else s.mnemonic
      detail := s.detail.map (Detail.rename old new) }

/-- Two tokens count as the same if they are equal or, where names are interchangeable, both
generated names. -/
def tokensAgree (symbolic : Bool) (t u : Token) : Bool :=
  t.kind = u.kind &&
    ((t.text = u.text && t.immediate = u.immediate) ||
      (symbolic && t.isIdentifier && Name.isGenerated t.text && Name.isGenerated u.text))

/-- Two statements count as the same if their kinds, first words and operands agree. -/
def agrees (s t : Statement) : Bool :=
  s.kind = t.kind && s.mnemonic = t.mnemonic &&
    s.operands.isEqv t.operands fun o p => List.isEqv o p (tokensAgree s.kind.isSymbolic)

/-- An operand after the first, with its comma. -/
def renderNext (operand : Operand) : String :=
  if operand.render = "" then "," else ", " ++ operand.render

/-- The statement as assembler text. -/
def render (s : Statement) : String :=
  if s.isLabel then s.mnemonic ++ ":"
  else
    match s.operands with
    | [] => s.mnemonic
    | first :: rest => s.mnemonic ++ "\t" ++ Operand.render first ++ String.join (rest.map renderNext)

end Statement

end AsmCompare
