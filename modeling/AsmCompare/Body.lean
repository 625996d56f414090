import AsmCompare.Statement.Basic
import AsmCompare.Distinct
import AsmCompare.Message

/-! # Bodies

The body of a function or data object, taken out of its file, with the statements that go with its
definition. Normalization gives the local labels of a body canonical names in order of appearance,
so that two bodies which differ in label numbers only become equal.
-/
namespace AsmCompare

structure Body where
  name : String
  kind : Symbol.Kind
  statements : List Statement := []
  sectionStatement : Option Statement := none
  alignment : Option Statement := none
  size : Option Statement := none
  typeStatement : Option Statement := none
  normalized : Bool := false
  deriving DecidableEq, Repr

namespace Body

def add (b : Body) (s : Statement) : Body := { b with statements := b.statements ++ [s] }

/-- The local labels that the body defines. -/
def localLabels (b : Body) : List String :=
  distinct ((b.statements.filterMap Statement.label?).filter Name.isLocalLabel)

/-- Old and canonical names of the local labels. -/
def renames (b : Body) : List (String × String) :=
  b.localLabels.zipIdx.map fun (label, number) => (label, Name.canonical number)

/-- Applies renamings one after the other. -/
def renameAll (renames : List (String × String)) (statements : List Statement) : List Statement :=
  renames.foldl (fun ss r => ss.map (Statement.rename r.1 r.2)) statements

def normalize (b : Body) : Body :=
  { b with statements := renameAll b.renames b.statements, normalized := true }

/-- What normalization reports. -/
def normalizeMessages (b : Body) : List Message :=
  if b.localLabels.isEmpty then []
  else [⟨.debug, "Normalized " ++ b.localLabels.length.repr ++ " labels in " ++ b.name⟩]

/-- The name that a direct call goes to; an indirect call has none. -/
def callTarget? (s : Statement) : Option String :=
  if s.kind = .instruction && "call".toList.isPrefixOf s.mnemonic.toList then
    (s.operands.head?.bind (Operand.first? · .identifier)).map Token.text
  else none

/-- The names the body calls. -/
def calls (b : Body) : List String := distinct (b.statements.filterMap callTarget?)

/-- The body as shown in diagnostics. -/
def describe (b : Body) : String :=
  "AsmObject(" ++ Text.quoted b.name ++ ", " ++ b.kind.name ++ ", " ++ b.statements.length.repr ++
    " statements)"

end Body

end AsmCompare
