import AsmCompare.Text.Blank
import AsmCompare.Text.Digit

/-! # Integer numerals

Reading of a numeral in a base up to 36: blanks around it, a sign, the prefix of the base with an
underscore after it, and digits of any script with single underscores between them. Decimal
numerals have a length limit.
-/
namespace AsmCompare.Text

/-- Longest decimal numeral that is read, in digits. -/
def maxDecimalDigits : Nat := 4300

def isNumeralBlank (c : Char) : Bool := isBlank c && !(0x1C ≤ c.toNat && c.toNat ≤ 0x1F)

/-- The value of a digit or ASCII letter as a digit of any base. -/
def digitValue? (c : Char) : Option Nat :=
  if 'a' ≤ c ∧ c ≤ 'z' then some (c.toNat - 'a'.toNat + 10)
  else if 'A' ≤ c ∧ c ≤ 'Z' then some (c.toNat - 'A'.toNat + 10)
  else decimalValue? c

def digitIn? (base : Nat) (c : Char) : Option Nat := (digitValue? c).filter (· < base)

/-- The digits of a non-empty run with single underscores between them. -/
def readDigits (base : Nat) : List Char → Option (List Nat)
  | [] => none
  | [c] => (digitIn? base c).map fun d => [d]
  | c :: '_' :: rest => do return (← digitIn? base c) :: (← readDigits base rest)
  | c :: rest => do return (← digitIn? base c) :: (← readDigits base rest)

def ofDigits (base : Nat) (digits : List Nat) : Nat := digits.foldl (fun n d => n * base + d) 0

/-- The letter after the zero in the prefix of a base. -/
def isBaseMark (base : Nat) (c : Char) : Bool :=
  base = 16 && (c = 'x' || c = 'X') || base = 8 && (c = 'o' || c = 'O') ||
    base = 2 && (c = 'b' || c = 'B')

/-- Drops the prefix of the base and one underscore after it. -/
def dropBaseMark (base : Nat) : List Char → List Char
  | zero :: mark :: rest =>
    if decimalValue? zero = some 0 && isBaseMark base mark then
      match rest with
      | '_' :: rest => rest
      | rest => rest
    else zero :: mark :: rest
  | s => s

def readNatural (base : Nat) (s : List Char) : Option Nat := do
  let digits ← readDigits base (dropBaseMark base s)
  guard (base ≠ 10 || digits.length ≤ maxDecimalDigits)
  return ofDigits base digits

def readInteger (base : Nat) (s : List Char) : Option Int :=
  match trimEnds isNumeralBlank s with
  | '+' :: rest => (readNatural base rest).map Int.ofNat
  | '-' :: rest => (readNatural base rest).map fun n => -(n : Int)
  | rest => (readNatural base rest).map Int.ofNat

end AsmCompare.Text
