import AsmCompare.Token.Basic
import AsmCompare.Text.Digit

/-! # Scanning operands

The text after a mnemonic is cut into pieces: blanks, separating commas and tokens. A token is the
longest one its first character can start. A comma separates operands unless it stands inside
parentheses or brackets. Scanning never fails: an unexpected character is a token of its own, and
an unterminated string runs to the end.
-/
namespace AsmCompare.Token

def isNameStart (c : Char) : Bool := c.isAlpha || c = '.' || c = '_'

def isNameChar (c : Char) : Bool := c.isAlphanum || c = '.' || c = '_'

def isHexDigit (c : Char) : Bool :=
  c.isDigit || ('a' ≤ c && c ≤ 'f') || ('A' ≤ c && c ≤ 'F')

def isOperatorChar (c : Char) : Bool := "()+-*/:[]=".toList.contains c

/-- Splits off the longest start whose characters satisfy `p`. -/
def span (p : Char → Bool) (s : List Char) : List Char × List Char := (s.takeWhile p, s.dropWhile p)

/-- The characters that continue a number after its first one: hexadecimal digits, with one `x`
allowed in front of them. -/
def spanNumber : List Char → List Char × List Char
  | c :: rest =>
    if c = 'x' || c = 'X' then (c :: (span isHexDigit rest).1, (span isHexDigit rest).2)
    else span isHexDigit (c :: rest)
  | [] => ([], [])

/-- The content of a string up to its closing quote, escapes kept, and what follows the quote. -/
def spanString : List Char → List Char × List Char
  | [] => ([], [])
  | '"' :: rest => ([], rest)
  | '\\' :: c :: rest => ('\\' :: c :: (spanString rest).1, (spanString rest).2)
  | c :: rest => (c :: (spanString rest).1, (spanString rest).2)

/-- The token that starts with `c`, and the text after it. -/
def scan (c : Char) (rest : List Char) : Token × List Char :=
  if isOperatorChar c || c = ',' then (⟨String.ofList [c], .operator, false⟩, rest)
  else if isNameStart c then
    (⟨String.ofList (c :: (span isNameChar rest).1), .identifier, false⟩, (span isNameChar rest).2)
  else if c = '%' then
    (⟨String.ofList (c :: (span Char.isAlphanum rest).1), .register, false⟩,
      (span Char.isAlphanum rest).2)
  else if Text.isDigitValued c then
    (⟨String.ofList (c :: (spanNumber rest).1), .number, false⟩, (spanNumber rest).2)
  else if c = '$' then
    match rest with
    | d :: rest =>
      if d.isDigit then
        (⟨String.ofList (d :: (spanNumber rest).1), .number, true⟩, (spanNumber rest).2)
      else (⟨"$", .operator, false⟩, d :: rest)
    | [] => (⟨"$", .operator, false⟩, [])
  else if c = '"' then
    (⟨String.ofList (spanString rest).1, .string, false⟩, (spanString rest).2)
  else if c = '@' then
    (⟨String.ofList (c :: (span Char.isAlphanum rest).1), .typeFlag, false⟩,
      (span Char.isAlphanum rest).2)
  else (⟨String.ofList [c], .unknown, false⟩, rest)

theorem length_span_le (p : Char → Bool) (s : List Char) : (span p s).2.length ≤ s.length :=
  (List.dropWhile_sublist p).length_le

theorem length_spanNumber_le (s : List Char) : (spanNumber s).2.length ≤ s.length := by
  cases s with
  | nil => simp [spanNumber]
  | cons c rest =>
    simp only [spanNumber]
    split
    · have := length_span_le isHexDigit rest
      simp only [List.length_cons]
      omega
    · exact length_span_le isHexDigit (c :: rest)

theorem length_spanString_le (s : List Char) : (spanString s).2.length ≤ s.length := by
  fun_induction spanString s <;> simp only [List.length_cons, List.length_nil] at * <;> omega

theorem length_scan_le (c : Char) (rest : List Char) : (scan c rest).2.length ≤ rest.length := by
  have hn := length_span_le isNameChar rest
  have ha := length_span_le Char.isAlphanum rest
  have hd := length_spanNumber_le rest
  have hs := length_spanString_le rest
  unfold scan
  repeat' split
  all_goals try simp only [List.length_cons, Nat.le_refl]
  all_goals try assumption
  next d r _ =>
    have := length_spanNumber_le r
    omega

/-- What the scanner finds in a text. -/
inductive Piece where
  | blank (c : Char)
  | separator
  | token (t : Token)
  deriving DecidableEq, Repr

/-- Nesting depth after a character that starts a token; it never drops below zero. -/
def depthAfter (depth : Nat) (c : Char) : Nat :=
  if c = '(' || c = '[' then depth + 1 else if c = ')' || c = ']' then depth - 1 else depth

def pieces (depth : Nat) : List Char → List Piece
  | [] => []
  | c :: rest =>
    if c = ' ' || c = '\t' then .blank c :: pieces depth rest
    else if c = ',' && depth = 0 then .separator :: pieces depth rest
    else .token (scan c rest).1 :: pieces (depthAfter depth c) (scan c rest).2
termination_by s => s.length
decreasing_by
  · simp
  · simp
  · have := length_scan_le c rest
    simp only [List.length_cons]
    omega

/-- The tokens between separators. -/
def group : List Piece → List Operand
  | [] => [[]]
  | .blank _ :: rest => group rest
  | .separator :: rest => [] :: group rest
  | .token t :: rest =>
    match group rest with
    | [] => [[t]]
    | operand :: operands => (t :: operand) :: operands

end AsmCompare.Token

namespace AsmCompare.Operand
open Token

/-- The operands of a statement: the groups between separators, without a last empty one. -/
def ofText (text : List Char) : List Operand :=
  let groups := group (pieces 0 text)
  if groups.getLast? = some [] then groups.dropLast else groups

end AsmCompare.Operand
