import AsmCompare.Text.Quoted

/-! # Operand tokens -/
namespace AsmCompare

/-- Lexical category of a token. -/
inductive Token.Kind where
  | unknown
  | operator
  | identifier
  | register
  | number
  | string
  | typeFlag
  deriving DecidableEq, Repr

/-- A token of an operand: the text has no quotes for a string and no `$` for an immediate. -/
structure Token where
  text : String
  kind : Token.Kind
  immediate : Bool := false
  deriving DecidableEq, Repr

namespace Token

def Kind.all : List Kind :=
  [.unknown, .operator, .identifier, .register, .number, .string, .typeFlag]

def Kind.name : Kind → String
  | .unknown => "UNKNOWN"
  | .operator => "OPERATOR"
  | .identifier => "IDENTIFIER"
  | .register => "REGISTER"
  | .number => "NUMBER"
  | .string => "STRING"
  | .typeFlag => "TYPEFLAG"

/-- Tokens that would run together if two of them stood side by side. -/
def Kind.isWord : Kind → Bool
  | .identifier | .register | .number | .string => true
  | _ => false

def isIdentifier (t : Token) : Bool := t.kind = .identifier

/-- The token as assembler text. -/
def render (t : Token) : String :=
  if t.kind = .string then "\"" ++ t.text ++ "\""
  else if t.immediate then "$" ++ t.text
  else t.text

/-- The token as shown in diagnostics. -/
def describe (t : Token) : String :=
  "Token(" ++ t.kind.name ++ ", " ++ (if t.immediate then "$" else "") ++ Text.quoted t.text ++ ")"

/-- Replaces the text of an identifier. -/
def rename (old new : String) (t : Token) : Token :=
  if t.isIdentifier && t.text = old then { t with text := new } else t

end Token

/-- One operand; it is empty only where it was left out between commas. -/
abbrev Operand := List Token

namespace Operand

/-- The first token, if it is of the wanted kind. -/
def first? (operand : Operand) (kind : Token.Kind) : Option Token :=
  operand.head?.filter (·.kind = kind)

/-- The first token of a kind, wherever it stands. -/
def firstOf? (operand : Operand) (kind : Token.Kind) : Option Token :=
  operand.find? (·.kind = kind)

/-- The operand with a space between all tokens. -/
def spaced (operand : Operand) : String := " ".intercalate (operand.map Token.render)

/-- The operand with a space only between two words. -/
def render : Operand → String
  | [] => ""
  | [t] => t.render
  | t :: u :: rest =>
    t.render ++ (if t.kind.isWord && u.kind.isWord then " " else "") ++ render (u :: rest)

end Operand

end AsmCompare
