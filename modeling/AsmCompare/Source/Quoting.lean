/-! # Quoted regions of a line

A quoted region runs from a single or double quote to the next unescaped quote of the same sort, or
to the end of the line if there is none. Both quotes belong to the region; outside a region a
backslash means nothing.
-/
namespace AsmCompare.Source

def isQuote (c : Char) : Bool := c = '"' || c = '\''

/-- A character and whether it stands in a quoted region. -/
structure Marked where
  char : Char
  quoted : Bool
  deriving DecidableEq, Repr

/-- Marks the characters that follow an open quote, or none. -/
def markFrom : Option Char → List Char → List Marked
  | _, [] => []
  | none, c :: rest =>
    if isQuote c then ⟨c, true⟩ :: markFrom (some c) rest else ⟨c, false⟩ :: markFrom none rest
  | some q, '\\' :: c :: rest => ⟨'\\', true⟩ :: ⟨c, true⟩ :: markFrom (some q) rest
  | some q, c :: rest => ⟨c, true⟩ :: markFrom (if c = q then none else some q) rest

def mark (line : List Char) : List Marked := markFrom none line

theorem map_char_markFrom (q : Option Char) (line : List Char) :
    (markFrom q line).map Marked.char = line := by
  fun_induction markFrom q line <;> simp_all

@[simp] theorem map_char_mark (line : List Char) : (mark line).map Marked.char = line :=
  map_char_markFrom none line

end AsmCompare.Source
