/-! # Lists without repetition, in the order of first occurrence -/
namespace AsmCompare

variable {α : Type} [DecidableEq α]

/-- Keeps the first occurrence of every element. -/
def distinct : List α → List α
  | [] => []
  | a :: rest => a :: (distinct rest).filter (· ≠ a)

@[simp] theorem mem_distinct {a : α} {l : List α} : a ∈ distinct l ↔ a ∈ l := by
  induction l with
  | nil => rfl
  | cons b rest ih =>
    by_cases h : a = b <;> simp [distinct, h, ih]

end AsmCompare
