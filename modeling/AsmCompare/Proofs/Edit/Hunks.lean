import AsmCompare.Proofs.Edit.Shortest
import Mathlib.Data.List.Chain

/-! # Removals come before additions

Between two elements that are kept, a script first removes and then adds. The walk back decides cell
by cell and remembers nothing, so the order rests on the table: going up from a cell means that the
cell above exceeds the one on the left, hence the one left of itself, and a cell that exceeds its
left neighbour is never left sideways. What is removed there and what is added have nothing in
common, since the script keeps as much as it can.
-/
namespace AsmCompare.Edit
variable {α β : Type} {eq : α → β → Bool} {a : List α} {b : List β}

section Table
variable {i j : Nat}

/-- Rows do not fall from one to the next, if the upper one climbs in single steps. -/
theorem cell_le_succ_of_climbs (hi : i < a.length) (hj : j ≤ b.length)
    (hclimb : ∀ k < b.length, cell (table eq a b) i (k + 1) ≤ cell (table eq a b) i k + 1) :
    cell (table eq a b) i j ≤ cell (table eq a b) (i + 1) j := by
  cases j with
  | zero => simp [cell_zero_right]
  | succ j =>
    by_cases hij : Related eq a b i j
    · rw [cell_succ_of_related hij]
      exact hclimb j (by omega)
    · rw [cell_succ_of_not_related hi (by omega) hij]
      exact le_max_left _ _

/-- A row climbs by at most one from a cell to the next. -/
theorem cell_succ_right_le (hi : i ≤ a.length) (hj : j < b.length) :
    cell (table eq a b) i (j + 1) ≤ cell (table eq a b) i j + 1 := by
  induction i generalizing j with
  | zero => simp [cell_zero_left]
  | succ i ih =>
    have hup : cell (table eq a b) i j ≤ cell (table eq a b) (i + 1) j :=
      cell_le_succ_of_climbs (by omega) (by omega) fun k hk => ih (by omega) hk
    by_cases hij : Related eq a b i j
    · rw [cell_succ_of_related hij]
      omega
    · rw [cell_succ_of_not_related (by omega) hj hij]
      have hleft := ih (by omega) hj
      omega

theorem cell_le_succ (hi : i < a.length) (hj : j ≤ b.length) :
    cell (table eq a b) i j ≤ cell (table eq a b) (i + 1) j :=
  cell_le_succ_of_climbs hi hj fun _ hk => cell_succ_right_le hi.le hk

end Table

/-- No removal follows an addition. -/
def InOrder (e f : Edit) : Prop := e.op = .added → f.op ≠ .removed

/-- Where the walk arrives by a removal, it does not go on with an addition: it has left a cell that
does not match for the cell above, which therefore exceeds its own left neighbour. -/
theorem isChain_walkBack {i j : Nat} (hi : i ≤ a.length) (hj : j ≤ b.length) {rest : List Edit}
    (hrest : rest.IsChain InOrder)
    (hfirst : ∀ f ∈ rest.head?, f.op = .removed →
      ∀ k, j = k + 1 → cell (table eq a b) i k < cell (table eq a b) i j) :
    (walkBack eq a b (table eq a b) i j rest).IsChain InOrder := by
  fun_induction walkBack eq a b (table eq a b) i j rest with
  | case1 rest => exact hrest
  | case2 j rest ih =>
    refine ih hi (by omega) (hrest.cons fun f hf _ hremoved => ?_) (by simp [add])
    have hlt := hfirst f hf hremoved j rfl
    rw [cell_zero_left, cell_zero_left] at hlt
    exact Nat.lt_irrefl 0 hlt
  | case3 i rest ih =>
    refine ih (by omega) hj (hrest.cons fun f _ hadded => by cases hadded) ?_
    intro f _ _ k hk
    cases hk
  | case4 i j rest hm ih =>
    exact ih (by omega) (by omega) (hrest.cons fun f _ hadded => by cases hadded) (by simp [keep])
  | case5 i j rest hm hc ih =>
    refine ih hi (by omega) (hrest.cons fun f hf _ hremoved => ?_) (by simp [add])
    have hlt := hfirst f hf hremoved j rfl
    rw [cell_succ_of_not_related hi hj (mt matched_iff.mpr hm), max_eq_right hc] at hlt
    exact Nat.lt_irrefl _ hlt
  | case6 i j rest hm hc ih =>
    refine ih (by omega) hj (hrest.cons fun f _ hadded => by cases hadded) ?_
    intro f _ _ k hk
    obtain rfl : j = k := by omega
    have hup : cell (table eq a b) i j ≤ cell (table eq a b) (i + 1) j :=
      cell_le_succ (by omega) (by omega)
    omega

theorem isChain_script : (script eq a b).IsChain InOrder :=
  isChain_walkBack le_rfl le_rfl List.isChain_nil (by simp)

/-- Changes in this order are removals and then additions. -/
theorem exists_removals_additions {run : List Edit} (h : run.IsChain InOrder)
    (hchange : ∀ e ∈ run, e.isChange = true) :
    ∃ removals additions, run = removals ++ additions ∧ (∀ e ∈ removals, e.op = .removed) ∧
      ∀ e ∈ additions, e.op = .added := by
  induction run with
  | nil => exact ⟨[], [], rfl, by simp, by simp⟩
  | cons e rest ih =>
    obtain ⟨hfirst, hrest⟩ := List.isChain_cons.mp h
    obtain ⟨removals, additions, rfl, hremovals, hadditions⟩ :=
      ih hrest fun f hf => hchange f (List.mem_cons_of_mem e hf)
    cases hop : e.op with
    | equal => simp [isChange, hop] at hchange
    | removed =>
      exact ⟨e :: removals, additions, rfl, List.forall_mem_cons.mpr ⟨hop, hremovals⟩, hadditions⟩
    | added =>
      -- Nothing can have been removed behind an addition.
      cases removals with
      | nil => exact ⟨[], e :: additions, rfl, by simp, List.forall_mem_cons.mpr ⟨hop, hadditions⟩⟩
      | cons f removals => exact absurd (hremovals f List.mem_cons_self) (hfirst f rfl hop)

/-- In a script that keeps as much as it can, what a run of changes removes is unrelated to what it
adds: the script could have kept the two. -/
theorem IsScript.not_related_of_run {before run after : List Edit}
    (h : IsScript eq a b (before ++ (run ++ after)))
    (hmost : keptCount (before ++ (run ++ after)) = lcsLength eq a b)
    (hrun : ∀ e ∈ run, e.isChange = true) {i j : Nat} (hi : remove i ∈ run) (hj : add j ∈ run) :
    ¬ Related eq a b i j := by
  intro hij
  have hnone : run.filterMap keptPair? = [] := by
    rw [List.filterMap_eq_nil_iff]
    intro e he
    have hop : e.op ≠ .equal := of_decide_eq_true (hrun e he)
    unfold keptPair?
    split
    · next hequal _ _ => exact absurd hequal hop
    · rfl
  have hkept := h.isAlignment
  have hlength := h.length_filterMap_keptPair?
  rw [List.filterMap_append, List.filterMap_append, hnone, List.nil_append] at hkept hlength
  obtain ⟨hbefore, hafter, hacross⟩ := List.pairwise_append.mp hkept.increasing
  obtain ⟨-, hlater, hfront⟩ := List.pairwise_append.mp h.pairwise_lt
  obtain ⟨-, -, hback⟩ := List.pairwise_append.mp hlater
  have hlow : ∀ p ∈ before.filterMap keptPair?, p.1 < i ∧ p.2 < j := by
    intro p hp
    obtain ⟨e, he, hep⟩ := List.mem_filterMap.mp hp
    obtain ⟨rfl, -⟩ := h.eq_keep_of_keptPair? (List.mem_append_left _ he) hep
    exact ⟨(hfront _ he _ (List.mem_append_left _ hi)).1 rfl rfl _ _ rfl rfl,
      (hfront _ he _ (List.mem_append_left _ hj)).2 rfl rfl _ _ rfl rfl⟩
  have hhigh : ∀ q ∈ after.filterMap keptPair?, i < q.1 ∧ j < q.2 := by
    intro q hq
    obtain ⟨f, hf, hfq⟩ := List.mem_filterMap.mp hq
    obtain ⟨rfl, -⟩ := h.eq_keep_of_keptPair?
      (List.mem_append_right _ (List.mem_append_right _ hf)) hfq
    exact ⟨(hback _ hi _ hf).1 rfl rfl _ _ rfl rfl, (hback _ hj _ hf).2 rfl rfl _ _ rfl rfl⟩
  have hlonger : IsAlignment eq a b
      (before.filterMap keptPair? ++ (i, j) :: after.filterMap keptPair?) := by
    constructor
    · refine List.pairwise_append.mpr ⟨hbefore, List.pairwise_cons.mpr ⟨hhigh, hafter⟩, ?_⟩
      intro p hp q hq
      rcases List.mem_cons.mp hq with rfl | hq
      · exact hlow p hp
      · exact hacross p hp q hq
    · intro p hp
      rcases List.mem_append.mp hp with hp | hp
      · exact hkept.related p (List.mem_append_left _ hp)
      · rcases List.mem_cons.mp hp with rfl | hp
        · exact hij
        · exact hkept.related p (List.mem_append_right _ hp)
  have hle := hlonger.length_le_lcsLength
  rw [← hmost, ← hlength] at hle
  simp only [List.length_append, List.length_cons] at hle
  omega

/-- In the script for two sequences and any relation no removal comes right after an addition, so
that every run of changes, and with it every longest one, is a block of removals followed by a block
of additions. -/
theorem script_removes_first (eq : α → β → Bool) (a : List α) (b : List β) :
    (script eq a b).IsChain InOrder ∧
      ∀ run, run <:+: script eq a b → (∀ e ∈ run, e.isChange = true) →
        ∃ removals additions, run = removals ++ additions ∧ (∀ e ∈ removals, e.op = .removed) ∧
          ∀ e ∈ additions, e.op = .added := by
  refine ⟨isChain_script, ?_⟩
  intro run hrun hchange
  have hchain : run.IsChain InOrder := List.IsChain.infix isChain_script hrun
  exact exists_removals_additions hchain hchange

-- Two elements are exchanged for two others, then one is kept.
example : (script (· == ·) ['x', 'y', 'z'] ['u', 'v', 'z']).map Edit.op =
    [.removed, .removed, .added, .added, .equal] := by decide +kernel

end AsmCompare.Edit
