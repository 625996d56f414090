import AsmCompare.Name

/-! # Symbols -/
namespace AsmCompare

/-- What a symbol names. -/
inductive Symbol.Kind where
  | function
  | object
  | unknown
  deriving DecidableEq, Repr

/-- Where a symbol is visible. -/
inductive Symbol.Scope where
  | unknown
  | file
  | global
  deriving DecidableEq, Repr

/-- An entry of the symbol table. The numbers are positions in the statements of its file: of the
label or common statement that defines the symbol, of its size, of the section in force and the
alignment in front of the definition, and of its type. -/
structure Symbol where
  name : String
  kind : Symbol.Kind := .unknown
  scope : Symbol.Scope := .unknown
  definedAt : Option Nat := none
  sizeAt : Option Nat := none
  sectionAt : Option Nat := none
  alignAt : Option Nat := none
  typeAt : Option Nat := none
  deriving DecidableEq, Repr

namespace Symbol

def Kind.all : List Kind := [.function, .object, .unknown]

def Kind.name : Kind → String
  | .function => "FUNCTION"
  | .object => "OBJECT"
  | .unknown => "UNKNOWN"

def Scope.name : Scope → String
  | .unknown => "UNKNOWN"
  | .file => "LOCAL"
  | .global => "GLOBAL"

/-- The scope a name has unless a directive says otherwise. -/
def Scope.ofName (name : String) : Scope := if Name.startsWithDot name then .file else .global

/-- The first scope, unless it is unknown. -/
def Scope.orElse (scope fallback : Scope) : Scope := if scope = .unknown then fallback else scope

def isDefined (s : Symbol) : Bool := s.definedAt.isSome

/-- Resolves an open scope by the name. -/
def withDefaultScope (s : Symbol) : Symbol :=
  { s with scope := s.scope.orElse (.ofName s.name) }

/-- The kind of a symbol that the file defines. -/
def definedKind (s : Symbol) : Kind := if s.isDefined then s.kind else .unknown

end Symbol

end AsmCompare
