import AsmCompare.Text.Digit
import AsmCompare.Text.Letter

/-! # Rules on names

Compilers invent names (`.L3`, `foo.part.0`) that change from one compilation to the next. These
tests say which names are taken for invented, tracked, renamed or dropped.
-/
namespace AsmCompare.Name

/-- A name with a dot is taken for one the compiler made up. -/
def isGenerated (name : String) : Bool := name.toList.contains '.'

/-- The symbol table holds labels that are not numeric. -/
def isTracked (name : String) : Bool :=
  match name.toList with
  | [] => false
  | c :: _ => !Text.isDigitValued c

/-- Labels that normalization renames: those that start with `.L`, and very short ones. -/
def isLocalLabel (name : String) : Bool :=
  match name.toList with
  | '.' :: 'L' :: _ => true
  | s => s.length ≤ 2

/-- Labels that only serve debug information: `.L` and a letter. -/
def isDebugLabel (name : String) : Bool :=
  match name.toList with
  | '.' :: 'L' :: c :: _ => Text.isLetter c
  | _ => false

def startsWithDot (name : String) : Bool := name.toList.head? = some '.'

/-- The name that normalization gives to local label number `n` of a body. -/
def canonical (n : Nat) : String := "~ASMTOOL" ++ n.repr

end AsmCompare.Name
