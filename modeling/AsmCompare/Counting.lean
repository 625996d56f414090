/-! # Counting what is left

A search ends because every step that opens new work takes a name off the names not seen so far.
-/
namespace AsmCompare

/-- A stronger condition counts less if some element fails it and meets the weaker one. -/
theorem countP_lt {q r : String → Bool} {l : List String} {n : String} (hn : n ∈ l)
    (hq : q n = false) (hr : r n = true) (h : ∀ m, q m = true → r m = true) :
    l.countP q < l.countP r := by
  induction l with
  | nil => cases hn
  | cons m rest ih =>
    have hle : rest.countP q ≤ rest.countP r := List.countP_mono_left fun m _ => h m
    have hstep : (if q m = true then 1 else 0) ≤ (if r m = true then 1 else 0) := by
      by_cases hm : q m = true
      · simp [hm, h m hm]
      · simp [hm]
    rw [List.countP_cons, List.countP_cons]
    rcases List.mem_cons.mp hn with rfl | hn
    · rw [hq, hr]
      exact Nat.lt_succ_of_le hle
    · have := ih hn
      omega

end AsmCompare
