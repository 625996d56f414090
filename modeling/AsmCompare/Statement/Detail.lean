import AsmCompare.Statement.Kind
import AsmCompare.Symbol
import AsmCompare.Token.Scan
import AsmCompare.Text.Numeral

/-! # What a statement says

Labels, types, sizes, sections and common symbols carry details taken from their operands.
-/
namespace AsmCompare.Statement

inductive Detail where
  | label (name : String)
  | type (symbol : String) (kind : Symbol.Kind)
  | size (symbol : String)
  | inSection (name flags : String) (executable : Bool)
  | common (symbol : String) (size alignment : Int)
  deriving DecidableEq, Repr

/-- The forms a detail has. -/
inductive Detail.Shape where
  | label
  | type
  | size
  | inSection
  | common
  deriving DecidableEq, Repr

def Detail.Shape.name : Detail.Shape → String
  | .label => "LabelInfo"
  | .type => "TypeInfo"
  | .size => "SizeInfo"
  | .inSection => "SectionInfo"
  | .common => "CommInfo"

def Detail.shape : Detail → Detail.Shape
  | .label _ => .label
  | .type _ _ => .type
  | .size _ => .size
  | .inSection _ _ _ => .inSection
  | .common _ _ _ => .common

/-- The form of the detail that a kind of statement carries. -/
def Kind.shape? : Kind → Option Detail.Shape
  | .label => some .label
  | .type => some .type
  | .size => some .size
  | .namedSection | .text | .data | .bss | .pushSection => some .inSection
  | .common | .localCommon => some .common
  | _ => none

/-- The detail of a statement that says nothing; a label is named by its first word. -/
def Detail.Shape.blank (mnemonic : String) : Detail.Shape → Detail
  | .label => .label mnemonic
  | .type => .type "" .unknown
  | .size => .size ""
  | .inSection => .inSection "" "" false
  | .common => .common "" 0 0

/-- An integer literal: decimal, hexadecimal after `0x`, octal after `0`; zero if it is none. -/
def readNumber (text : List Char) : Int :=
  match text with
  | '0' :: 'x' :: rest => (Text.readInteger 16 rest).getD 0
  | '0' :: 'X' :: rest => (Text.readInteger 16 rest).getD 0
  | '0' :: c :: rest => (Text.readInteger 8 (c :: rest)).getD 0
  | s => (Text.readInteger 10 s).getD 0

namespace Detail

/-- The symbol kind that a type flag names, with its leading `@` and `%` dropped. -/
def kindOfFlag (flag : Option Token) : Symbol.Kind :=
  match flag.map fun t => String.ofList (t.text.toList.dropWhile fun c => c = '@' || c = '%') with
  | some "function" | some "STT_FUNC" => .function
  | some "object" | some "STT_OBJECT" => .object
  | _ => .unknown

/-- The type flag: the start of the second operand, or the end of a first one that holds more than
a name. -/
def typeFlag? : List Operand → Option Token
  | [] => none
  | [operand] => if operand.length < 2 then none else operand.getLast?
  | _ :: operand :: _ => operand.head?

/-- The first name in the first operand. -/
def namedSymbol (operands : List Operand) : String :=
  ((operands.head?.bind (Operand.firstOf? · .identifier)).map Token.text).getD ""

def sectionName (operands : List Operand) : String :=
  match operands.head?.bind List.head? with
  | some t => if t.kind = .identifier || t.kind = .string then t.text else ""
  | none => ""

def sectionFlags (operands : List Operand) : String :=
  ((operands[1]?.bind (Operand.first? · .string)).map Token.text).getD ""

def commonSymbol (operands : List Operand) : String :=
  ((operands.head?.bind (Operand.first? · .identifier)).map Token.text).getD ""

/-- The number at the start of an operand. -/
def operandNumber (operand : Option Operand) : Int :=
  ((operand.bind (Operand.first? · .number)).map fun t => readNumber t.text.toList).getD 0

/-- The detail of a statement, from its operands. -/
def ofOperands? (kind : Kind) (mnemonic : String) (operands : List Operand) : Option Detail :=
  match kind with
  | .label => some (.label mnemonic)
  | .type => some (.type (namedSymbol operands) (kindOfFlag (typeFlag? operands)))
  | .size => some (.size (namedSymbol operands))
  | .namedSection | .pushSection =>
    let flags := sectionFlags operands
    some (.inSection (sectionName operands) flags (flags.toList.contains 'x'))
  | .text => some (.inSection ".text" "" true)
  | .data => some (.inSection ".data" "" false)
  | .bss => some (.inSection ".bss" "" false)
  | .common | .localCommon =>
    some (.common (commonSymbol operands) (operandNumber operands[1]?) (operandNumber operands[2]?))
  | _ => none

theorem shape_ofOperands? (kind : Kind) (mnemonic : String) (operands : List Operand) :
    (ofOperands? kind mnemonic operands).map shape = kind.shape? := by
  cases kind <;> rfl

/-- The symbol a detail names, if it names one. -/
def symbol? : Detail → Option String
  | .label name => some name
  | .type symbol _ | .size symbol | .common symbol _ _ => if symbol = "" then none else some symbol
  | .inSection _ _ _ => none

/-- Renames the symbol of a detail; a section is no symbol. -/
def rename (old new : String) : Detail → Detail
  | .label name => .label (if name = old then new else name)
  | .type symbol kind => .type (if symbol = old then new else symbol) kind
  | .size symbol => .size (if symbol = old then new else symbol)
  | .inSection name flags executable => .inSection name flags executable
  | .common symbol bytes boundary =>
    .common (if symbol = old then new else symbol) bytes boundary

end Detail

end AsmCompare.Statement
