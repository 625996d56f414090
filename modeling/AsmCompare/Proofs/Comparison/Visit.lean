import AsmCompare.Comparison.Comparator

/-! # The frames carry out a recursion

Comparing pairings in order, each with its references before the next one, is a plain recursion
over lists of pairings. It always ends, because a node that leaves references takes a name off the
unseen ones, and the stack of frames computes exactly what it prescribes.
-/
namespace AsmCompare.Comparison
variable (old new : Listing)

/-- Comparing `ps` one after the other with the verdicts of `s` gives the chains `cs` and the
verdicts of the last state; the references of a node are visited before the next pairing. -/
inductive Visits : Comparison → List Pairing → List Chain → Comparison → Prop
  | nil (s : Comparison) : Visits s [] [] s
  | final {s s' : Comparison} {p : Pairing} {ps : List Pairing} {cs : List Chain} {equal : Bool}
      (he : (evaluate old new s p).1 = .final equal)
      (hrest : Visits (evaluate old new s p).2 ps cs s') :
      Visits s (p :: ps) (.leaf p equal :: cs) s'
  | pending {s mid s' : Comparison} {p : Pairing} {refs ps : List Pairing} {ds cs : List Chain}
      (he : (evaluate old new s p).1 = .pending refs)
      (hrefs : Visits (evaluate old new s p).2 refs ds mid) (hrest : Visits mid ps cs s') :
      Visits s (p :: ps) (⟨p, true, ds.all Chain.deepEqual, ds⟩ :: cs) s'

variable {old new}

theorem unseen_evaluate_lt {s : Comparison} {p : Pairing} {refs : List Pairing}
    (he : (evaluate old new s p).1 = .pending refs) :
    unseen new (evaluate old new s p).2 < unseen new s := by
  have h : evaluate old new s p = (.pending refs, (evaluate old new s p).2) := Prod.ext he rfl
  exact unseen_lt_of_pending old new h

theorem Visits.unseen_le {s s' : Comparison} {ps : List Pairing} {cs : List Chain}
    (h : Visits old new s ps cs s') : unseen new s' ≤ unseen new s := by
  induction h with
  | nil s => exact Nat.le_refl _
  | @final s _ p _ _ _ _ _ ih => exact Nat.le_trans ih (unseen_evaluate_le old new s p)
  | @pending s _ _ p _ _ _ _ _ _ _ ihrefs ihrest =>
    exact Nat.le_trans ihrest (Nat.le_trans ihrefs (unseen_evaluate_le old new s p))

/-- The recursion ends: on the unseen names where references are left, else on the list. -/
theorem exists_visits_of_unseen_le (n : Nat) (ps : List Pairing) (s : Comparison)
    (hn : unseen new s ≤ n) : ∃ cs s', Visits old new s ps cs s' := by
  induction n generalizing ps s with
  | zero =>
    induction ps generalizing s with
    | nil => exact ⟨[], s, .nil s⟩
    | cons p ps ih =>
      have hle := unseen_evaluate_le old new s p
      obtain ⟨cs, s', hrest⟩ := ih (evaluate old new s p).2 (by omega)
      cases he : (evaluate old new s p).1 with
      | final equal => exact ⟨_, s', .final he hrest⟩
      | pending refs =>
        have hlt := unseen_evaluate_lt he
        omega
  | succ n ihn =>
    induction ps generalizing s with
    | nil => exact ⟨[], s, .nil s⟩
    | cons p ps ih =>
      have hle := unseen_evaluate_le old new s p
      cases he : (evaluate old new s p).1 with
      | final equal =>
        obtain ⟨cs, s', hrest⟩ := ih (evaluate old new s p).2 (by omega)
        exact ⟨_, s', .final he hrest⟩
      | pending refs =>
        have hlt := unseen_evaluate_lt he
        obtain ⟨ds, mid, hrefs⟩ := ihn refs (evaluate old new s p).2 (by omega)
        have hmid := hrefs.unseen_le
        obtain ⟨cs, s', hrest⟩ := ih mid (by omega)
        exact ⟨_, s', .pending he hrefs hrest⟩

theorem exists_visits (ps : List Pairing) (s : Comparison) : ∃ cs s', Visits old new s ps cs s' :=
  exists_visits_of_unseen_le _ ps s (Nat.le_refl _)

theorem run_final {s : Comparison} {p : Pairing} {equal : Bool}
    (he : (evaluate old new s p).1 = .final equal) (q : Pairing) (ps : List Pairing)
    (cs : List Chain) (below : List Frame) :
    run old new ⟨q, p :: ps, cs⟩ below s =
      run old new ⟨q, ps, cs ++ [.leaf p equal]⟩ below (evaluate old new s p).2 := by
  rw [run]
  split
  · next h => rw [h] at he ⊢; cases he; rfl
  · next h => rw [h] at he; cases he

theorem run_pending {s : Comparison} {p : Pairing} {refs : List Pairing}
    (he : (evaluate old new s p).1 = .pending refs) (q : Pairing) (ps : List Pairing)
    (cs : List Chain) (below : List Frame) :
    run old new ⟨q, p :: ps, cs⟩ below s =
      run old new ⟨p, refs, []⟩ (⟨q, ps, cs⟩ :: below) (evaluate old new s p).2 := by
  rw [run]
  split
  · next h => rw [h] at he; cases he
  · next h => rw [h] at he ⊢; cases he; rfl

theorem run_closed (p : Pairing) (ds : List Chain) (parent : Frame) (below : List Frame)
    (s : Comparison) :
    run old new ⟨p, [], ds⟩ (parent :: below) s =
      run old new (parent.add ⟨p, true, ds.all Chain.deepEqual, ds⟩) below s := by
  rw [run]
  rfl

/-- The frame on top works through the start of its list as the recursion does. -/
theorem Visits.run_append {s s' : Comparison} {ps : List Pairing} {cs : List Chain}
    (h : Visits old new s ps cs s') (q : Pairing) (rest : List Pairing) (ds : List Chain)
    (below : List Frame) :
    run old new ⟨q, ps ++ rest, ds⟩ below s = run old new ⟨q, rest, ds ++ cs⟩ below s' := by
  induction h generalizing q rest ds below with
  | nil s => simp
  | final he _ ih =>
    rw [List.cons_append, run_final he, ih, List.append_assoc, List.singleton_append]
  | @pending _ _ _ p refs ps _ _ he _ _ ihrefs ihrest =>
    have hrefs := ihrefs p [] [] (⟨q, ps ++ rest, ds⟩ :: below)
    rw [List.append_nil, List.nil_append] at hrefs
    rw [List.cons_append, run_pending he, hrefs, run_closed, Frame.add, ihrest]
    simp

/-- The comparison of one symbol is the one that the recursion gives. -/
theorem compare_eq_of_visits {s s' : Comparison} {p : Pairing} {c : Chain}
    (h : Visits old new s [p] [c] s') : compare old new s p = (c, s') := by
  unfold compare
  cases h with
  | final he hrest =>
    cases hrest
    rw [← Prod.eta (evaluate old new s p), he]
  | pending he hrefs hrest =>
    cases hrest
    rw [← Prod.eta (evaluate old new s p), he]
    have hrun := hrefs.run_append p [] [] []
    rw [List.append_nil, List.nil_append] at hrun
    dsimp only
    rw [hrun, run]
    rfl

theorem visits_compare (old new : Listing) (s : Comparison) (p : Pairing) :
    Visits old new s [p] [(compare old new s p).1] (compare old new s p).2 := by
  obtain ⟨cs, s', h⟩ : ∃ cs s', Visits old new s [p] cs s' := exists_visits [p] s
  have hlen : ∃ c, cs = [c] := by
    cases h with
    | final _ hrest => cases hrest; exact ⟨_, rfl⟩
    | pending _ _ hrest => cases hrest; exact ⟨_, rfl⟩
  obtain ⟨c, rfl⟩ := hlen
  rw [compare_eq_of_visits h]
  exact h

theorem Visits.uncons {s s' : Comparison} {p : Pairing} {ps : List Pairing} {cs : List Chain}
    (h : Visits old new s (p :: ps) cs s') :
    ∃ c ds mid, cs = c :: ds ∧ Visits old new s [p] [c] mid ∧ Visits old new mid ps ds s' := by
  cases h with
  | final he hrest => exact ⟨_, _, _, rfl, .final he (.nil _), hrest⟩
  | pending he hrefs hrest => exact ⟨_, _, _, rfl, .pending he hrefs (.nil _), hrest⟩

theorem Visits.cons {s mid s' : Comparison} {p : Pairing} {ps : List Pairing} {c : Chain}
    {cs : List Chain} (h : Visits old new s [p] [c] mid) (hrest : Visits old new mid ps cs s') :
    Visits old new s (p :: ps) (c :: cs) s' := by
  cases h with
  | final he hnil =>
    cases hnil
    exact .final he hrest
  | pending he hrefs hnil =>
    cases hnil
    exact .pending he hrefs hrest

variable (old new) in
/-- The recursion cut off after so many levels and steps, so that concrete runs can be computed. -/
def visit? : Nat → Comparison → List Pairing → Option (List Chain × Comparison)
  | _, s, [] => some ([], s)
  | 0, _, _ :: _ => none
  | n + 1, s, p :: ps =>
    match (evaluate old new s p).1 with
    | .final equal =>
      (visit? n (evaluate old new s p).2 ps).map fun r => (.leaf p equal :: r.1, r.2)
    | .pending refs =>
      (visit? n (evaluate old new s p).2 refs).bind fun d =>
        (visit? n d.2 ps).map fun r => (⟨p, true, d.1.all Chain.deepEqual, d.1⟩ :: r.1, r.2)

theorem visits_of_visit? {n : Nat} {s s' : Comparison} {ps : List Pairing} {cs : List Chain}
    (h : visit? old new n s ps = some (cs, s')) : Visits old new s ps cs s' := by
  induction n generalizing s ps cs s' with
  | zero =>
    cases ps with
    | nil => cases h; exact .nil s
    | cons p ps => cases h
  | succ n ih =>
    cases ps with
    | nil => cases h; exact .nil s
    | cons p ps =>
      simp only [visit?] at h
      split at h
      · next he =>
        obtain ⟨⟨ds, t⟩, hrest, hr⟩ := Option.map_eq_some_iff.mp h
        cases hr
        exact .final he (ih hrest)
      · next he =>
        obtain ⟨⟨ds, mid⟩, hrefs, hr⟩ := Option.bind_eq_some_iff.mp h
        obtain ⟨⟨es, t⟩, hrest, hr⟩ := Option.map_eq_some_iff.mp hr
        cases hr
        exact .pending he (ih hrefs) (ih hrest)

end AsmCompare.Comparison
