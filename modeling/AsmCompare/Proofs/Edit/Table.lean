import AsmCompare.Edit.Align
import Mathlib.Data.List.Forall2

/-! # The alignment table

Every inner cell follows from its three neighbours, and no cell exceeds its row or column number.
So the last cell reaches the length of both sequences only along a diagonal of matches, and two
sequences count as the same exactly if they match element by element.
-/
namespace AsmCompare.Edit
variable {α β : Type} (eq : α → β → Bool)

theorem cell_eq_getD (table : List (List Nat)) (i j : Nat) :
    cell table i j = (table.getD i []).getD j 0 := by
  unfold cell
  cases h : table[i]? with
  | none => simp [List.getD_eq_getElem?_getD, h]
  | some row => simp [List.getD_eq_getElem?_getD, h]

theorem length_nextCells (x : α) (left : Nat) (above : List Nat) (b : List β)
    (h : above.length = b.length + 1) : (nextCells eq x left above b).length = b.length := by
  induction b generalizing left above with
  | nil => match above with | [] | [_] | _ :: _ :: _ => simp [nextCells]
  | cons y ys ih =>
    match above, h with
    | diagonal :: up :: rest, h =>
      simp only [nextCells, List.length_cons]
      rw [ih _ (up :: rest) (by simpa using h)]

/-- A cell of a row, from the row above and the cell on its left. -/
theorem getD_nextCells (x : α) (left : Nat) (above : List Nat) (b : List β) (j : Nat)
    (h : above.length = b.length + 1) (hj : j < b.length) :
    (left :: nextCells eq x left above b).getD (j + 1) 0 =
      if eq x b[j] then above.getD j 0 + 1
      else max (above.getD (j + 1) 0) ((left :: nextCells eq x left above b).getD j 0) := by
  induction b generalizing left above j with
  | nil => simp at hj
  | cons y ys ih =>
    match above, h with
    | diagonal :: up :: rest, h =>
      simp only [nextCells]
      cases j with
      | zero => simp
      | succ j =>
        have hj' : j < ys.length := by simpa using hj
        simpa using ih (if eq x y then diagonal + 1 else max up left) (up :: rest) j
          (by simpa using h) hj'

theorem cell_rowsFrom_zero (b : List β) (row : List Nat) (a : List α) (j : Nat) :
    cell (rowsFrom eq b row a) 0 j = row.getD j 0 := by
  cases a <;> simp [cell_eq_getD, rowsFrom]

theorem cell_rowsFrom_succ (b : List β) (row : List Nat) (x : α) (a : List α) (i j : Nat) :
    cell (rowsFrom eq b row (x :: a)) (i + 1) j =
      cell (rowsFrom eq b (0 :: nextCells eq x 0 row b) a) i j := by
  simp [cell_eq_getD, rowsFrom]

/-- The recurrence below any row that is as long as the first one. -/
theorem cell_rowsFrom_step (b : List β) (row : List Nat) (a : List α) (i j : Nat)
    (h : row.length = b.length + 1) (hi : i < a.length) (hj : j < b.length) :
    cell (rowsFrom eq b row a) (i + 1) (j + 1) =
      if eq a[i] b[j] then cell (rowsFrom eq b row a) i j + 1
      else max (cell (rowsFrom eq b row a) i (j + 1)) (cell (rowsFrom eq b row a) (i + 1) j) := by
  induction a generalizing row i with
  | nil => simp at hi
  | cons x xs ih =>
    cases i with
    | zero =>
      simp only [cell_rowsFrom_succ, cell_rowsFrom_zero, List.getElem_cons_zero]
      exact getD_nextCells eq x 0 row b j h hj
    | succ i =>
      simp only [cell_rowsFrom_succ, List.getElem_cons_succ]
      exact ih _ i (by simp [length_nextCells eq x 0 row b h]) (by simpa using hi)

theorem cell_zero_left (a : List α) (b : List β) (j : Nat) : cell (table eq a b) 0 j = 0 := by
  rw [table, cell_rowsFrom_zero, List.getD_eq_getElem?_getD, List.getElem?_replicate]
  split <;> rfl

theorem cell_rowsFrom_zero_right (b : List β) (row : List Nat) (a : List α) (i : Nat)
    (h : row.getD 0 0 = 0) : cell (rowsFrom eq b row a) i 0 = 0 := by
  induction a generalizing row i with
  | nil =>
    cases i with
    | zero => rw [cell_rowsFrom_zero, h]
    | succ i => simp [cell_eq_getD, rowsFrom]
  | cons x xs ih =>
    cases i with
    | zero => rw [cell_rowsFrom_zero, h]
    | succ i =>
      rw [cell_rowsFrom_succ]
      exact ih _ i rfl

theorem cell_zero_right (a : List α) (b : List β) (i : Nat) : cell (table eq a b) i 0 = 0 :=
  cell_rowsFrom_zero_right eq b _ a i (by simp [List.getD_eq_getElem?_getD])

/-- The recurrence of the table. -/
theorem cell_succ_succ (a : List α) (b : List β) (i j : Nat) (hi : i < a.length)
    (hj : j < b.length) :
    cell (table eq a b) (i + 1) (j + 1) =
      if eq a[i] b[j] then cell (table eq a b) i j + 1
      else max (cell (table eq a b) i (j + 1)) (cell (table eq a b) (i + 1) j) :=
  cell_rowsFrom_step eq b _ a i j (by simp) hi hj

/-- No common subsequence is longer than one of the two beginnings. -/
theorem cell_le (a : List α) (b : List β) (i j : Nat) (hi : i ≤ a.length) (hj : j ≤ b.length) :
    cell (table eq a b) i j ≤ i ∧ cell (table eq a b) i j ≤ j := by
  induction i generalizing j with
  | zero => simp [cell_zero_left]
  | succ i ihi =>
    induction j with
    | zero => simp [cell_zero_right]
    | succ j ihj =>
      have hd := ihi j (by omega) (by omega)
      have hu := ihi (j + 1) (by omega) hj
      have hl := ihj (by omega)
      rw [cell_succ_succ eq a b i j (by omega) (by omega)]
      split <;> omega

/-- The diagonal grows by one at every step exactly as long as all its elements match. -/
theorem cell_diagonal_eq_iff (a : List α) (b : List β) (i : Nat) (hi : i ≤ a.length)
    (hj : i ≤ b.length) :
    cell (table eq a b) i i = i ↔ ∀ k, (hk : k < i) → eq a[k] b[k] = true := by
  induction i with
  | zero => simp [cell_zero_left]
  | succ i ih =>
    have hu := cell_le eq a b i (i + 1) (by omega) hj
    have hl := cell_le eq a b (i + 1) i hi (by omega)
    rw [cell_succ_succ eq a b i i (by omega) (by omega)]
    constructor
    · intro h k hk
      split at h
      · next hm =>
        rcases Nat.lt_succ_iff_lt_or_eq.mp hk with hk | rfl
        · exact (ih (by omega) (by omega)).mp (by omega) k hk
        · exact hm
      · omega
    · intro h
      rw [if_pos (h i (by omega)), (ih (by omega) (by omega)).mpr fun k hk => h k (by omega)]

/-- Two sequences count as the same exactly if they match element by element. -/
theorem isDifferent_eq_false_iff (a : List α) (b : List β) :
    isDifferent eq a b = false ↔ List.Forall₂ (fun x y => eq x y = true) a b := by
  rw [List.forall₂_iff_get]
  simp only [isDifferent, Bool.or_eq_false_iff, decide_eq_false_iff_not, ne_eq, not_not]
  refine and_congr_right fun hlen => ?_
  have hlast : lcsLength eq a b = cell (table eq a b) a.length a.length := by rw [lcsLength, hlen]
  rw [hlast, cell_diagonal_eq_iff eq a b a.length (by omega) (by omega)]
  exact ⟨fun h k hk _ => h k hk, fun h k hk => h k hk (by omega)⟩

end AsmCompare.Edit
