import AsmCompare.Proofs.Edit.Shortest

/-! # Sequences that count as the same

The test for a difference reads two lengths and one cell of the table, the script reads the whole
table. They agree: a script that keeps as many elements as each side has leaves no room for another
entry, and then the positions it takes on one side are those it takes on the other. Nothing is
asked of the relation between the elements.
-/
namespace AsmCompare.Edit
variable {α β : Type} {eq : α → β → Bool} {a : List α} {b : List β}

/-- Two sequences count as the same exactly if their script changes nothing. -/
theorem isDifferent_eq_false_iff_forall_equal :
    isDifferent eq a b = false ↔ ∀ e ∈ script eq a b, e.op = .equal := by
  constructor
  · intro h
    simp only [isDifferent, Bool.or_eq_false_iff, decide_eq_false_iff_not, ne_eq, not_not] at h
    have hkept := keptCount_script eq a b
    have hlength := (isScript_script eq a b).length_add_keptCount
    -- Every entry takes one element or two, and all elements are taken by entries that take two.
    have hall : keptCount (script eq a b) = (script eq a b).length := by omega
    exact fun e he => of_decide_eq_true (List.countP_eq_length.mp hall e he)
  · intro h
    by_contra hdiff
    obtain ⟨e, he, hchange⟩ := exists_isChange_script (by simpa using hdiff)
    simp [isChange, h e he] at hchange

namespace IsScript
variable {s : List Edit}

/-- A script that changes nothing takes the positions of both sides at once. -/
theorem map_old_and_map_new (h : IsScript eq a b s) (hs : ∀ e ∈ s, e.op = .equal) :
    s.map Edit.old = positions 0 a.length ∧ s.map Edit.new = positions 0 b.length := by
  have hold : s.filter takesOld = s :=
    List.filter_eq_self.mpr fun e he => by simp [takesOld, hs e he]
  have hnew : s.filter takesNew = s :=
    List.filter_eq_self.mpr fun e he => by simp [takesNew, hs e he]
  have hboth := And.intro h.old h.new
  rwa [oldPositions, newPositions, hold, hnew] at hboth

theorem old_eq_new (h : IsScript eq a b s) (hs : ∀ e ∈ s, e.op = .equal) :
    ∀ e ∈ s, e.old = e.new := by
  obtain ⟨hold, hnew⟩ := h.map_old_and_map_new hs
  have hlength : a.length = b.length := by
    have ha := congrArg List.length hold
    have hb := congrArg List.length hnew
    simp only [positions, List.length_map, List.length_range'] at ha hb
    omega
  rw [← hlength] at hnew
  exact List.map_inj_left.mp (hold.trans hnew.symm)

end IsScript

/-- For any relation, two sequences count as the same exactly if they have one length and related
elements at every position, and exactly if every entry of their script keeps an element at its own
position. -/
theorem isDifferent_eq_false_iff_in_place (eq : α → β → Bool) (a : List α) (b : List β) :
    (isDifferent eq a b = false ↔
        a.length = b.length ∧
          ∀ i (ha : i < a.length) (hb : i < b.length), eq a[i] b[i] = true) ∧
      ((a.length = b.length ∧
          ∀ i (ha : i < a.length) (hb : i < b.length), eq a[i] b[i] = true) ↔
        ∀ e ∈ script eq a b, e.op = .equal ∧ e.old = e.new) := by
  have hpairs : isDifferent eq a b = false ↔
      a.length = b.length ∧
        ∀ i (ha : i < a.length) (hb : i < b.length), eq a[i] b[i] = true := by
    rw [isDifferent_eq_false_iff, List.forall₂_iff_get]
    rfl
  refine ⟨hpairs, ?_⟩
  rw [← hpairs, isDifferent_eq_false_iff_forall_equal]
  constructor
  · intro h e he
    exact ⟨h e he, (isScript_script eq a b).old_eq_new h e he⟩
  · intro h e he
    exact (h e he).1

end AsmCompare.Edit
