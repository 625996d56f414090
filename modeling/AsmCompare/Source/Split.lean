import AsmCompare.Source.Quoting
import AsmCompare.Text.Blank

/-! # Cutting a line

Comments, statements, mnemonics and label prefixes. Every cut looks at unquoted characters only.
-/
namespace AsmCompare.Source
open Text

/-- The line up to its first unquoted `#`. -/
def stripComment (line : List Char) : List Char :=
  ((mark line).takeWhile fun m => !(m.char = '#' && !m.quoted)).map Marked.char

/-- Splits at unquoted separators, at most `limit` times if there is a limit; what is left after
the last split is one item, separators included. -/
def splitMarked (separates : Char → Bool) : (limit : Option Nat) → List Marked → List (List Char)
  | _, [] => [[]]
  | some 0, m :: rest => [(m :: rest).map Marked.char]
  | limit, m :: rest =>
    if separates m.char && !m.quoted then [] :: splitMarked separates (limit.map (· - 1)) rest
    else
      match splitMarked separates limit rest with
      | [] => [[m.char]]
      | item :: items => (m.char :: item) :: items

/-- The trimmed items of a line; a blank line has none. -/
def splitTrim (separates : Char → Bool) (limit : Option Nat) (line : List Char) : List (List Char) :=
  match trim line with
  | [] => []
  | c :: rest => (splitMarked separates limit (mark (c :: rest))).map trim

/-- The statements of a line without comment. -/
def splitStatements (line : List Char) : List (List Char) :=
  (splitTrim (· = ';') none line).filter (!·.isEmpty)

/-- The first word of a statement and the text of its operands. -/
def splitMnemonic (statement : List Char) : List Char × List Char :=
  match splitTrim (fun c => c = ' ' || c = '\t') (some 1) statement with
  | [] => ([], [])
  | [word] => (word, [])
  | word :: rest :: _ => (word, rest)

def isLabelChar (c : Char) : Bool := c.isAlphanum || c = '.' || c = '_'

/-- A leading label, a non-empty run of label characters and its colon, and what follows it. -/
def leadingLabel? (statement : List Char) : Option (List Char × List Char) :=
  match statement.dropWhile isLabelChar with
  | ':' :: rest =>
    if (statement.takeWhile isLabelChar).isEmpty then none
    else some (statement.takeWhile isLabelChar ++ [':'], rest)
  | _ => none

theorem length_lt_of_leadingLabel? {statement label rest : List Char}
    (h : leadingLabel? statement = some (label, rest)) : rest.length < statement.length := by
  have hs := (List.dropWhile_sublist (l := statement) isLabelChar).length_le
  unfold leadingLabel? at h
  split at h
  · next r hr =>
    rw [hr, List.length_cons] at hs
    split at h
    · cases h
    · cases h
      omega
  · cases h

/-- Takes a leading label off a statement. -/
def splitLabel (statement : List Char) : Option (List Char) × List Char :=
  match leadingLabel? statement with
  | some (label, rest) => (some label, trim rest)
  | none => (none, statement)

theorem splitLabel_of_some {statement label rest : List Char}
    (h : leadingLabel? statement = some (label, rest)) :
    splitLabel statement = (some label, trim rest) := by
  rw [splitLabel, h]

theorem splitLabel_of_none {statement : List Char} (h : leadingLabel? statement = none) :
    splitLabel statement = (none, statement) := by
  rw [splitLabel, h]

theorem exists_of_splitLabel {statement label rest : List Char}
    (h : splitLabel statement = (some label, rest)) :
    ∃ more, leadingLabel? statement = some (label, more) ∧ rest = trim more := by
  cases hlabel : leadingLabel? statement with
  | none =>
    rw [splitLabel_of_none hlabel] at h
    cases h
  | some p =>
    rw [splitLabel_of_some hlabel] at h
    cases h
    exact ⟨p.2, rfl, rfl⟩

theorem of_splitLabel_eq_none {statement rest : List Char}
    (h : splitLabel statement = (none, rest)) :
    leadingLabel? statement = none ∧ rest = statement := by
  cases hlabel : leadingLabel? statement with
  | none =>
    rw [splitLabel_of_none hlabel] at h
    cases h
    exact ⟨rfl, rfl⟩
  | some p =>
    rw [splitLabel_of_some hlabel] at h
    cases h

theorem length_lt_of_splitLabel {statement label rest : List Char}
    (h : splitLabel statement = (some label, rest)) : rest.length < statement.length := by
  obtain ⟨more, hmore, rfl⟩ := exists_of_splitLabel h
  exact Nat.lt_of_le_of_lt (length_trim_le more) (length_lt_of_leadingLabel? hmore)

end AsmCompare.Source
