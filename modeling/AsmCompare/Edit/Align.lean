import AsmCompare.Edit.Script

/-! # Aligning two sequences

The table of longest common subsequences for an arbitrary relation between the elements, and the
script that walks back through it. At a cell that does not match, the walk goes left on a tie, so
that in reading order removals come before additions.
-/
namespace AsmCompare.Edit

variable {α β : Type} (eq : α → β → Bool)

/-- A row of the table after its first cell, from the row above: `left` is the cell on the left. -/
def nextCells (x : α) : (left : Nat) → (above : List Nat) → List β → List Nat
  | left, diagonal :: up :: above, y :: ys =>
    let cell := if eq x y then diagonal + 1 else max up left
    cell :: nextCells x cell (up :: above) ys
  | _, _, _ => []

/-- The rows of the table below a given one. -/
def rowsFrom (b : List β) : (row : List Nat) → List α → List (List Nat)
  | row, [] => [row]
  | row, x :: xs => row :: rowsFrom b (0 :: nextCells eq x 0 row b) xs

/-- Row `i`, column `j` is the length of a longest common subsequence of the first `i` elements of
`a` and the first `j` elements of `b`. -/
def table (a : List α) (b : List β) : List (List Nat) :=
  rowsFrom eq b (List.replicate (b.length + 1) 0) a

def cell (table : List (List Nat)) (i j : Nat) : Nat := ((table[i]?).bind (·[j]?)).getD 0

def lcsLength (a : List α) (b : List β) : Nat := cell (table eq a b) a.length b.length

def isDifferent (a : List α) (b : List β) : Bool :=
  a.length ≠ b.length || lcsLength eq a b ≠ a.length

/-- Whether the elements at two positions match. -/
def matched (a : List α) (b : List β) (i j : Nat) : Bool :=
  match a[i]?, b[j]? with
  | some x, some y => eq x y
  | _, _ => false

/-- The script for the first `i` and `j` elements, in front of the script for the rest. -/
def walkBack (a : List α) (b : List β) (table : List (List Nat)) :
    (i j : Nat) → List Edit → List Edit
  | 0, 0, rest => rest
  | 0, j + 1, rest => walkBack a b table 0 j (add j :: rest)
  | i + 1, 0, rest => walkBack a b table i 0 (remove i :: rest)
  | i + 1, j + 1, rest =>
    if matched eq a b i j then walkBack a b table i j (keep i j :: rest)
    else if cell table i (j + 1) ≤ cell table (i + 1) j then
      walkBack a b table (i + 1) j (add j :: rest)
    else walkBack a b table i (j + 1) (remove i :: rest)
termination_by i j => i + j

/-- The script that turns `a` into `b`. -/
def script (a : List α) (b : List β) : List Edit :=
  walkBack eq a b (table eq a b) a.length b.length []

end AsmCompare.Edit
