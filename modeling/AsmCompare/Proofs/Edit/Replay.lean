import AsmCompare.Proofs.Edit.Shortest

/-! # Replaying a script

Replaying reads the positions that an entry's operation calls for and nothing else of the entry. It
succeeds exactly on the scripts that take every element of both sequences once, in order, whatever
else their entries say, and the result is what the entries name. For the script of two sequences
this is the new sequence, except that an element which was kept is the old one. Nothing is said of
the relation, so a kept element need not equal the new one; it is related to it.
-/
namespace AsmCompare.Edit
variable {α : Type} {eq : α → α → Bool} {a b : List α}

/-- The positions from `k` up to `n`, in order. -/
def Counts (n k : Nat) (ps : List (Option Int)) : Prop := k ≤ n ∧ ps = positions k (n - k)

theorem counts_nil_iff {n k : Nat} : Counts n k [] ↔ k = n := by
  simp only [Counts, positions, List.nil_eq, List.map_eq_nil_iff, List.range'_eq_nil_iff]
  omega

theorem counts_cons_iff {n k : Nat} {p : Option Int} {ps : List (Option Int)} :
    Counts n k (p :: ps) ↔ p = some (k : Int) ∧ Counts n (k + 1) ps := by
  unfold Counts
  rcases Nat.lt_or_ge k n with hlt | hge
  · have hcount : n - k = n - (k + 1) + 1 := by omega
    simp [hcount, positions, List.range'_succ, hlt.le, Nat.succ_le_of_lt hlt]
  · have hcount : n - k = 0 := by omega
    have hnot : ¬ k + 1 ≤ n := by omega
    simp [hcount, positions, hnot]

/-- The element at a position, if the position is there and lies in the sequence. -/
def elementAt? (xs : List α) (position : Option Int) : Option α :=
  position.bind fun i => if i < 0 then none else xs[i.toNat]?

theorem elementAt?_some_natCast (xs : List α) (i : Nat) :
    elementAt? xs (some (i : Int)) = xs[i]? := by
  simp [elementAt?]

variable (a b) in
/-- What an entry puts into the result: the old element that it keeps or the new one that it adds. -/
def element? (e : Edit) : Option α :=
  match e.op with
  | .equal => elementAt? a e.old
  | .added => elementAt? b e.new
  | .removed => none

variable (a b) in
/-- A script takes every element of both sequences once, in order. -/
structure IsComplete (script : List Edit) : Prop where
  old : oldPositions script = positions 0 a.length
  new : newPositions script = positions 0 b.length

section Replay
variable {i j : Nat} {e : Edit} {s : List Edit} {r : List α}

theorem map_cons_eq_ok_iff {x : α} {rest : Except ReplayError (List α)} :
    rest.map (x :: ·) = .ok r ↔ ∃ t, rest = .ok t ∧ r = x :: t := by
  cases rest with
  | error e => simp [Except.map]
  | ok t => simp [Except.map, eq_comm]

/-- What it takes for the replay to get past an entry. -/
theorem replayFrom_cons_eq_ok_iff : replayFrom a b i j (e :: s) = .ok r ↔
    match e.op with
    | .equal => e.old = some (i : Int) ∧ e.new = some (j : Int) ∧
        ∃ x t, a[i]? = some x ∧ replayFrom a b (i + 1) (j + 1) s = .ok t ∧ r = x :: t
    | .added => e.new = some (j : Int) ∧
        ∃ y t, b[j]? = some y ∧ replayFrom a b i (j + 1) s = .ok t ∧ r = y :: t
    | .removed => e.old = some (i : Int) ∧ replayFrom a b (i + 1) j s = .ok r := by
  rw [replayFrom]
  cases e.op with
  | equal =>
    by_cases hold : e.old = some (i : Int)
    · by_cases hnew : e.new = some (j : Int)
      · cases hx : a[i]? with
        | none => simp [hold, hnew]
        | some x => simp [hold, hnew, map_cons_eq_ok_iff]
      · simp [hold, hnew]
    · simp [hold]
  | added =>
    by_cases hnew : e.new = some (j : Int)
    · cases hy : b[j]? with
      | none => simp [hnew]
      | some y => simp [hnew, map_cons_eq_ok_iff]
    · simp [hnew]
  | removed =>
    by_cases hold : e.old = some (i : Int)
    · simp [hold]
    · simp [hold]

theorem element?_of_equal (hop : e.op = .equal) (hold : e.old = some (i : Int)) :
    element? a b e = a[i]? := by
  rw [element?, hop, hold, elementAt?_some_natCast]

theorem element?_of_added (hop : e.op = .added) (hnew : e.new = some (j : Int)) :
    element? a b e = b[j]? := by
  rw [element?, hop, hnew, elementAt?_some_natCast]

/-- The rest of a script is replayed exactly if it takes the rest of both sequences, and the result
is what its entries name. -/
theorem replayFrom_eq_ok_iff : replayFrom a b i j s = .ok r ↔
    Counts a.length i (oldPositions s) ∧ Counts b.length j (newPositions s) ∧
      r = s.filterMap (element? a b) := by
  induction s generalizing i j r with
  | nil =>
    have hold : oldPositions [] = [] := rfl
    have hnew : newPositions [] = [] := rfl
    rw [replayFrom, hold, hnew, counts_nil_iff, counts_nil_iff, List.filterMap_nil]
    by_cases h : i = a.length ∧ j = b.length
    · simp [h, eq_comm]
    · simp [h, ← and_assoc]
  | cons e rest ih =>
    rw [replayFrom_cons_eq_ok_iff, oldPositions_cons, newPositions_cons]
    cases hop : e.op with
    | equal =>
      simp only [reduceCtorEq, ↓reduceIte, counts_cons_iff, ih]
      constructor
      · rintro ⟨hold, hnew, x, t, hx, ⟨hrestOld, hrestNew, rfl⟩, rfl⟩
        have helement := (element?_of_equal (b := b) hop hold).trans hx
        exact ⟨⟨hold, hrestOld⟩, ⟨hnew, hrestNew⟩, (List.filterMap_cons_some helement).symm⟩
      · rintro ⟨⟨hold, hrestOld⟩, ⟨hnew, hrestNew⟩, rfl⟩
        have hx := List.getElem?_eq_getElem (Nat.lt_of_succ_le hrestOld.1)
        have helement := (element?_of_equal (b := b) hop hold).trans hx
        exact ⟨hold, hnew, _, _, hx, ⟨hrestOld, hrestNew, rfl⟩, List.filterMap_cons_some helement⟩
    | added =>
      simp only [reduceCtorEq, ↓reduceIte, counts_cons_iff, ih]
      constructor
      · rintro ⟨hnew, y, t, hy, ⟨hold, hrestNew, rfl⟩, rfl⟩
        have helement := (element?_of_added (a := a) hop hnew).trans hy
        exact ⟨hold, ⟨hnew, hrestNew⟩, (List.filterMap_cons_some helement).symm⟩
      · rintro ⟨hold, ⟨hnew, hrestNew⟩, rfl⟩
        have hy := List.getElem?_eq_getElem (Nat.lt_of_succ_le hrestNew.1)
        have helement := (element?_of_added (a := a) hop hnew).trans hy
        exact ⟨hnew, _, _, hy, ⟨hold, hrestNew, rfl⟩, List.filterMap_cons_some helement⟩
    | removed =>
      have helement : element? a b e = none := by rw [element?, hop]
      simp only [reduceCtorEq, ↓reduceIte, counts_cons_iff, ih, List.filterMap_cons_none helement]
      exact and_assoc.symm

theorem counts_zero_iff {n : Nat} {ps : List (Option Int)} : Counts n 0 ps ↔ ps = positions 0 n := by
  simp [Counts]

theorem replay_eq_ok_iff :
    replay s a b = .ok r ↔ IsComplete a b s ∧ r = s.filterMap (element? a b) := by
  rw [replay, replayFrom_eq_ok_iff, counts_zero_iff, counts_zero_iff, ← and_assoc]
  exact and_congr_left' ⟨fun h => ⟨h.1, h.2⟩, fun h => ⟨h.old, h.new⟩⟩

end Replay

theorem mem_positions {p : Option Int} {k n : Nat} :
    p ∈ positions k n ↔ ∃ i : Nat, k ≤ i ∧ i < k + n ∧ p = some (i : Int) := by
  simp [positions, List.mem_range'_1, and_assoc, eq_comm]

theorem map_elementAt?_positions (xs : List α) :
    (positions 0 xs.length).map (elementAt? xs) = xs.map some := by
  refine List.ext_getElem (by simp [positions]) fun i hi hi' => ?_
  have hlt : i < xs.length := by simpa using hi'
  simp [positions, elementAt?_some_natCast, hlt]

section Complete
variable {s : List Edit} (h : IsComplete a b s)
include h

theorem IsComplete.isSome_element? {e : Edit} (he : e ∈ s) :
    (element? a b e).isSome = takesNew e := by
  cases hop : e.op with
  | equal =>
    have hmem : e.old ∈ oldPositions s :=
      List.mem_map_of_mem (List.mem_filter.mpr ⟨he, by simp [takesOld, hop]⟩)
    rw [h.old] at hmem
    obtain ⟨i, -, hi, hold⟩ := mem_positions.mp hmem
    rw [element?_of_equal hop hold]
    simpa [takesNew, hop] using hi
  | added =>
    have hmem : e.new ∈ newPositions s :=
      List.mem_map_of_mem (List.mem_filter.mpr ⟨he, by simp [takesNew, hop]⟩)
    rw [h.new] at hmem
    obtain ⟨j, -, hj, hnew⟩ := mem_positions.mp hmem
    rw [element?_of_added hop hnew]
    simpa [takesNew, hop] using hj
  | removed => simp [element?, takesNew, hop]

/-- Every entry that takes a new element puts one element into the result, and no other does. -/
theorem IsComplete.map_element? :
    (s.filter takesNew).map (element? a b) = (s.filterMap (element? a b)).map some := by
  have hfilter : s.filter takesNew = s.filter (Option.isSome ∘ element? a b) :=
    List.filter_congr fun e he => (h.isSome_element? he).symm
  rw [hfilter, ← List.filter_map, List.map_filterMap_some_eq_filter_map_isSome]

theorem IsComplete.length_filterMap_element? :
    (s.filterMap (element? a b)).length = b.length := by
  have hlength := congrArg List.length h.map_element?
  have hnew := congrArg List.length h.new
  simp only [newPositions, positions, List.length_map, List.length_range'] at hlength hnew
  omega

end Complete

/-- Exactly the complete scripts can be replayed, whatever their entries say beyond the positions
they take. The result is as long as the new sequence, and its elements are those that the entries
other than removals name, in order. -/
theorem exists_replay_iff (script : List Edit) (a b : List α) :
    ((∃ r, replay script a b = .ok r) ↔ IsComplete a b script) ∧
      ∀ r, replay script a b = .ok r → r.length = b.length ∧
        ∀ k : Nat, r[k]? = (script.filter takesNew)[k]?.bind (element? a b) := by
  constructor
  · constructor
    · rintro ⟨r, hr⟩
      exact (replay_eq_ok_iff.mp hr).1
    · intro h
      exact ⟨_, replay_eq_ok_iff.mpr ⟨h, rfl⟩⟩
  · intro r hr
    obtain ⟨h, rfl⟩ := replay_eq_ok_iff.mp hr
    refine ⟨h.length_filterMap_element?, fun k => ?_⟩
    calc (script.filterMap (element? a b))[k]?
        = ((script.filterMap (element? a b)).map some)[k]?.bind id := by simp [Option.bind_map]
      _ = ((script.filter takesNew).map (element? a b))[k]?.bind id := by rw [h.map_element?]
      _ = (script.filter takesNew)[k]?.bind (element? a b) := by
        rw [List.getElem?_map, Option.bind_map]
        rfl

-- The positions that an operation does not call for are not looked at.
example : replay [⟨.added, some (-3), some 0⟩, ⟨.removed, some 0, some 9⟩] ["x"] ["y"] = .ok ["y"] :=
  rfl

theorem IsScript.isComplete {s : List Edit} (h : IsScript eq a b s) : IsComplete a b s :=
  ⟨h.old, h.new⟩

/-- Each new element stands against what the entry that takes it puts into the result. -/
theorem IsScript.exists_replay {s : List Edit} (h : IsScript eq a b s) :
    ∃ r, replay s a b = .ok r ∧ List.Forall₂ (fun x y => x = y ∨ eq x y = true) r b := by
  refine ⟨_, replay_eq_ok_iff.mpr ⟨h.isComplete, rfl⟩, ?_⟩
  have hnew : b.map some = (s.filter takesNew).map fun e => elementAt? b e.new := by
    rw [← map_elementAt?_positions, ← h.new, newPositions, List.map_map]
    rfl
  have hsome : List.Forall₂ (fun u v => ∀ x y, u = some x → v = some y → x = y ∨ eq x y = true)
      ((s.filterMap (element? a b)).map some) (b.map some) := by
    rw [← h.isComplete.map_element?, hnew, List.forall₂_map_left_iff, List.forall₂_map_right_iff,
      List.forall₂_same]
    intro e he x y hx hy
    obtain ⟨he, htakes⟩ := List.mem_filter.mp he
    cases hop : e.op with
    | equal =>
      obtain ⟨i, j, rfl, hi, hj, hrelated⟩ := h.kept e he hop
      rw [element?_of_equal hop rfl, List.getElem?_eq_getElem hi] at hx
      rw [keep, elementAt?_some_natCast, List.getElem?_eq_getElem hj] at hy
      cases hx
      cases hy
      exact .inr hrelated
    | added =>
      rw [element?, hop] at hx
      exact .inl (Option.some.inj (hx.symm.trans hy))
    | removed => simp [takesNew, hop] at htakes
  rw [List.forall₂_map_left_iff, List.forall₂_map_right_iff] at hsome
  exact hsome.imp fun x y hxy => hxy x y rfl rfl

/-- The script for two sequences can always be replayed. The result is as long as the new sequence
and has at each place its element or one related to it; if only equal elements are related, it is
the new sequence. -/
theorem exists_replay_script (eq : α → α → Bool) (a b : List α) :
    ∃ r, replay (script eq a b) a b = .ok r ∧ r.length = b.length ∧
      (∀ k (hr : k < r.length) (hb : k < b.length), r[k] = b[k] ∨ eq r[k] b[k] = true) ∧
      ((∀ x y, eq x y = true → x = y) → r = b) := by
  obtain ⟨r, hr, hrb⟩ := (isScript_script eq a b).exists_replay
  refine ⟨r, hr, hrb.length_eq, fun k hk hk' => hrb.get hk hk', fun heq => ?_⟩
  have hrb : List.Forall₂ (· = ·) r b := hrb.imp fun x y hxy => hxy.elim id (heq x y)
  rwa [List.forall₂_eq_eq_eq] at hrb

end AsmCompare.Edit
