/-! # Terminal escapes: colouring a line, and taking escape sequences out of a text -/
namespace AsmCompare.Text

inductive Color where
  | red
  | green
  deriving DecidableEq, Repr

def Color.code : Color → String
  | .red => "31"
  | .green => "32"

def paint (color : Color) (line : String) : String :=
  "\x1b[" ++ color.code ++ "m" ++ line ++ "\x1b[0m"

def isEscapeParameter (c : Char) : Bool := c.isDigit || c = ';' || c = '?'

/-- What follows an escape sequence whose opening bracket has been read, if it is one. -/
def afterEscape? (s : List Char) : Option (List Char) :=
  match s.dropWhile isEscapeParameter with
  | c :: rest => if c.isAlpha then some rest else none
  | [] => none

theorem length_afterEscape?_lt {s rest : List Char} (h : afterEscape? s = some rest) :
    rest.length < s.length := by
  have hs := (List.dropWhile_sublist (l := s) isEscapeParameter).length_le
  unfold afterEscape? at h
  split at h
  · next c r hr =>
    rw [hr] at hs
    split at h
    · cases h; simp at hs; omega
    · cases h
  · cases h

/-- Removes escape sequences: an escape, a bracket, parameters and a letter. -/
def stripEscapes : List Char → List Char
  | [] => []
  | '\x1b' :: '[' :: s =>
    match h : afterEscape? s with
    | some rest =>
      have := length_afterEscape?_lt h
      stripEscapes rest
    | none => '\x1b' :: stripEscapes ('[' :: s)
  | c :: s => c :: stripEscapes s
termination_by s => s.length

end AsmCompare.Text
