import AsmCompare.Proofs.Edit.Table
import Mathlib.Order.Bounds.Basic

/-! # The script is a shortest one

An alignment pairs positions of two sequences whose elements are related, in increasing order. The
relation is arbitrary, so the elements say nothing about each other: that a cell which matches may
always take its diagonal rests on exchanging the last pair of an alignment. Every complete script
keeps the pairs of an alignment, and the walk back through the table keeps as many as the table
counts.
-/
namespace AsmCompare.Edit
variable {α β : Type} (eq : α → β → Bool) (a : List α) (b : List β)

/-- There are elements at the two positions, and they are related. -/
def Related (i j : Nat) : Prop :=
  ∃ (hi : i < a.length) (hj : j < b.length), eq a[i] b[j] = true

/-- Positions of related elements, increasing on both sides. -/
structure IsAlignment (ps : List (Nat × Nat)) : Prop where
  increasing : ps.Pairwise fun p q => p.1 < q.1 ∧ p.2 < q.2
  related : ∀ p ∈ ps, Related eq a b p.1 p.2

variable {eq a b}

theorem matched_iff {i j : Nat} : matched eq a b i j = true ↔ Related eq a b i j := by
  unfold matched Related
  constructor
  · intro h
    split at h
    · next x y hx hy =>
      obtain ⟨hi, rfl⟩ := List.getElem?_eq_some_iff.mp hx
      obtain ⟨hj, rfl⟩ := List.getElem?_eq_some_iff.mp hy
      exact ⟨hi, hj, h⟩
    · cases h
  · rintro ⟨hi, hj, h⟩
    simp [hi, hj, h]

theorem cell_succ_of_related {i j : Nat} (h : Related eq a b i j) :
    cell (table eq a b) (i + 1) (j + 1) = cell (table eq a b) i j + 1 := by
  obtain ⟨hi, hj, hij⟩ := h
  rw [cell_succ_succ eq a b i j hi hj, if_pos hij]

theorem cell_succ_of_not_related {i j : Nat} (hi : i < a.length) (hj : j < b.length)
    (h : ¬ Related eq a b i j) :
    cell (table eq a b) (i + 1) (j + 1) =
      max (cell (table eq a b) i (j + 1)) (cell (table eq a b) (i + 1) j) := by
  rw [cell_succ_succ eq a b i j hi hj, if_neg fun hij => h ⟨hi, hj, hij⟩]

namespace IsAlignment
variable {ps : List (Nat × Nat)} {last : Nat × Nat}

theorem init (h : IsAlignment eq a b (ps ++ [last])) :
    IsAlignment eq a b ps ∧ ∀ p ∈ ps, p.1 < last.1 ∧ p.2 < last.2 := by
  obtain ⟨hps, -, hlast⟩ := List.pairwise_append.mp h.increasing
  refine ⟨⟨hps, fun p hp => h.related p (List.mem_append_left _ hp)⟩, fun p hp => ?_⟩
  exact hlast p hp last (List.mem_singleton_self last)

/-- All pairs of an alignment lie before any two bounds of its last pair. -/
theorem forall_lt (h : IsAlignment eq a b (ps ++ [last])) {i j : Nat} (hi : last.1 < i)
    (hj : last.2 < j) : ∀ p ∈ ps ++ [last], p.1 < i ∧ p.2 < j := by
  intro p hp
  rcases List.mem_append.mp hp with hp | hp
  · have := h.init.2 p hp
    omega
  · rw [List.mem_singleton.mp hp]
    exact ⟨hi, hj⟩

/-- No alignment of the first `i` and `j` elements is longer than their cell says. -/
theorem length_le_cell {i j : Nat} (hi : i ≤ a.length) (hj : j ≤ b.length)
    (h : IsAlignment eq a b ps) (hps : ∀ p ∈ ps, p.1 < i ∧ p.2 < j) :
    ps.length ≤ cell (table eq a b) i j := by
  induction i generalizing j ps with
  | zero =>
    have hnil : ps = [] := List.eq_nil_iff_forall_not_mem.mpr fun p hp => by
      have := hps p hp
      omega
    simp [hnil]
  | succ i ihi =>
    induction j generalizing ps with
    | zero =>
      have hnil : ps = [] := List.eq_nil_iff_forall_not_mem.mpr fun p hp => by
        have := hps p hp
        omega
      simp [hnil]
    | succ j ihj =>
      rcases List.eq_nil_or_concat' ps with rfl | ⟨qs, last, rfl⟩
      · simp
      have hlast := hps last (by simp)
      by_cases hij : Related eq a b i j
      · -- The last pair may as well be the cell itself: the others stay before it.
        obtain ⟨hqs, hbefore⟩ := h.init
        have hle : qs.length ≤ cell (table eq a b) i j := by
          refine ihi (by omega) (by omega) hqs fun p hp => ?_
          have := hbefore p hp
          omega
        rw [cell_succ_of_related hij, List.length_append]
        exact Nat.add_le_add_right hle 1
      · -- The last pair is not the cell, so all pairs leave out its row or its column.
        rw [cell_succ_of_not_related (by omega) (by omega) hij]
        have hne : last.1 < i ∨ last.2 < j := by
          by_contra hcon
          have hcell : last = (i, j) := Prod.ext (by omega) (by omega)
          have hrelated := h.related last (by simp)
          rw [hcell] at hrelated
          exact hij hrelated
        rcases hne with hne | hne
        · have hle := ihi (by omega) hj h (h.forall_lt hne hlast.2)
          exact le_trans hle (le_max_left _ _)
        · have hle := ihj (by omega) h (h.forall_lt hlast.1 hne)
          exact le_trans hle (le_max_right _ _)

theorem length_le_lcsLength (h : IsAlignment eq a b ps) : ps.length ≤ lcsLength eq a b := by
  refine h.length_le_cell le_rfl le_rfl fun p hp => ?_
  obtain ⟨hi, hj, -⟩ := h.related p hp
  exact ⟨hi, hj⟩

end IsAlignment

/-- Whether an entry takes an element of the old sequence. -/
def takesOld (e : Edit) : Bool := e.op ≠ .added

def takesNew (e : Edit) : Bool := e.op ≠ .removed

def oldPositions (script : List Edit) : List (Option Int) := (script.filter takesOld).map Edit.old

def newPositions (script : List Edit) : List (Option Int) := (script.filter takesNew).map Edit.new

/-- The `n` positions from `k` on, in order. -/
def positions (k n : Nat) : List (Option Int) := (List.range' k n).map fun i : Nat => some (i : Int)

variable (eq a b) in
/-- If an entry keeps elements, they are related. -/
def KeepsRelated (e : Edit) : Prop := e.op = .equal → ∃ i j, e = keep i j ∧ Related eq a b i j

variable (eq a b) in
/-- A script takes every element of both sequences once, in order, and keeps related ones only. -/
structure IsScript (script : List Edit) : Prop where
  old : oldPositions script = positions 0 a.length
  new : newPositions script = positions 0 b.length
  kept : ∀ e ∈ script, KeepsRelated eq a b e

/-- Number of elements that a script keeps. -/
def keptCount (script : List Edit) : Nat := script.countP fun e => e.op = .equal

theorem oldPositions_cons (e : Edit) (script : List Edit) :
    oldPositions (e :: script) =
      if e.op = .added then oldPositions script else e.old :: oldPositions script := by
  cases hop : e.op <;> simp [oldPositions, takesOld, hop]

theorem newPositions_cons (e : Edit) (script : List Edit) :
    newPositions (e :: script) =
      if e.op = .removed then newPositions script else e.new :: newPositions script := by
  cases hop : e.op <;> simp [newPositions, takesNew, hop]

theorem keptCount_cons (e : Edit) (script : List Edit) :
    keptCount (e :: script) = keptCount script + if e.op = .equal then 1 else 0 := by
  cases hop : e.op <;> simp [keptCount, hop]

theorem positions_succ (k n : Nat) :
    positions k (n + 1) = positions k n ++ [some ((k + n : Nat) : Int)] := by
  simp [positions, List.range'_concat]

theorem oldPositions_walkBack (t : List (List Nat)) (i j : Nat) (rest : List Edit) :
    oldPositions (walkBack eq a b t i j rest) = positions 0 i ++ oldPositions rest := by
  fun_induction walkBack eq a b t i j rest with
  | case1 rest => rfl
  | case2 j rest ih =>
    rw [ih]
    simp [oldPositions_cons, add]
  | case3 i rest ih =>
    rw [ih]
    simp [positions_succ, oldPositions_cons, remove]
  | case4 i j rest hm ih =>
    rw [ih]
    simp [positions_succ, oldPositions_cons, keep]
  | case5 i j rest hm hc ih =>
    rw [ih]
    simp [oldPositions_cons, add]
  | case6 i j rest hm hc ih =>
    rw [ih]
    simp [positions_succ, oldPositions_cons, remove]

theorem newPositions_walkBack (t : List (List Nat)) (i j : Nat) (rest : List Edit) :
    newPositions (walkBack eq a b t i j rest) = positions 0 j ++ newPositions rest := by
  fun_induction walkBack eq a b t i j rest with
  | case1 rest => rfl
  | case2 j rest ih =>
    rw [ih]
    simp [positions_succ, newPositions_cons, add]
  | case3 i rest ih =>
    rw [ih]
    simp [newPositions_cons, remove]
  | case4 i j rest hm ih =>
    rw [ih]
    simp [positions_succ, newPositions_cons, keep]
  | case5 i j rest hm hc ih =>
    rw [ih]
    simp [positions_succ, newPositions_cons, add]
  | case6 i j rest hm hc ih =>
    rw [ih]
    simp [newPositions_cons, remove]

theorem keepsRelated_walkBack {t : List (List Nat)} {i j : Nat} {rest : List Edit}
    (h : ∀ e ∈ rest, KeepsRelated eq a b e) :
    ∀ e ∈ walkBack eq a b t i j rest, KeepsRelated eq a b e := by
  have hadd : ∀ j, KeepsRelated eq a b (add j) := by
    intro j hop
    cases hop
  have hremove : ∀ i, KeepsRelated eq a b (remove i) := by
    intro i hop
    cases hop
  fun_induction walkBack eq a b t i j rest with
  | case1 rest => exact h
  | case2 j rest ih => exact ih (List.forall_mem_cons.mpr ⟨hadd j, h⟩)
  | case3 i rest ih => exact ih (List.forall_mem_cons.mpr ⟨hremove i, h⟩)
  | case4 i j rest hm ih =>
    have hkeep : KeepsRelated eq a b (keep i j) := fun _ => ⟨i, j, rfl, matched_iff.mp hm⟩
    exact ih (List.forall_mem_cons.mpr ⟨hkeep, h⟩)
  | case5 i j rest hm hc ih => exact ih (List.forall_mem_cons.mpr ⟨hadd j, h⟩)
  | case6 i j rest hm hc ih => exact ih (List.forall_mem_cons.mpr ⟨hremove i, h⟩)

/-- The walk keeps what the table counts: where it leaves a cell that does not match, it goes on to
the neighbour from which the cell was taken. -/
theorem keptCount_walkBack {i j : Nat} (hi : i ≤ a.length) (hj : j ≤ b.length)
    (rest : List Edit) :
    keptCount (walkBack eq a b (table eq a b) i j rest) =
      cell (table eq a b) i j + keptCount rest := by
  fun_induction walkBack eq a b (table eq a b) i j rest with
  | case1 rest => simp [cell_zero_left]
  | case2 j rest ih =>
    rw [ih hi (by omega), cell_zero_left, cell_zero_left, keptCount_cons]
    simp [add]
  | case3 i rest ih =>
    rw [ih (by omega) hj, cell_zero_right, cell_zero_right, keptCount_cons]
    simp [remove]
  | case4 i j rest hm ih =>
    rw [ih (by omega) (by omega), cell_succ_of_related (matched_iff.mp hm), keptCount_cons]
    simp only [keep, ↓reduceIte]
    omega
  | case5 i j rest hm hc ih =>
    have hcell := cell_succ_of_not_related hi hj (mt matched_iff.mpr hm)
    rw [ih hi (by omega), hcell, max_eq_right hc, keptCount_cons]
    simp [add]
  | case6 i j rest hm hc ih =>
    have hcell := cell_succ_of_not_related hi hj (mt matched_iff.mpr hm)
    rw [ih (by omega) hj, hcell, max_eq_left (by omega), keptCount_cons]
    simp [remove]

variable (eq a b) in
theorem isScript_script : IsScript eq a b (script eq a b) where
  old := by
    rw [script, oldPositions_walkBack]
    exact List.append_nil _
  new := by
    rw [script, newPositions_walkBack]
    exact List.append_nil _
  kept := keepsRelated_walkBack (by simp)

/-- An entry takes one element, or two if it keeps them. -/
theorem length_add_keptCount (script : List Edit) :
    script.length + keptCount script =
      (oldPositions script).length + (newPositions script).length := by
  induction script with
  | nil => rfl
  | cons e rest ih =>
    rw [List.length_cons, keptCount_cons, oldPositions_cons, newPositions_cons]
    cases e.op with
    | equal => simp; omega
    | added => simp; omega
    | removed => simp; omega

/-- The positions of two elements that an entry keeps. -/
def keptPair? (e : Edit) : Option (Nat × Nat) :=
  match e.op, e.old, e.new with
  | .equal, some i, some j => some (i.toNat, j.toNat)
  | _, _, _ => none

theorem pairwise_positions (k n : Nat) :
    (positions k n).Pairwise fun x y => ∀ i j : Nat, x = some (i : Int) → y = some (j : Int) →
      i < j := by
  rw [positions, List.pairwise_map]
  have hlt := List.pairwise_lt_range' (s := k) (n := n)
  refine hlt.imp ?_
  intro x y hxy i j hi hj
  simp only [Option.some.injEq] at hi hj
  omega

namespace IsScript
variable {s : List Edit}

theorem length_add_keptCount (h : IsScript eq a b s) :
    s.length + keptCount s = a.length + b.length := by
  rw [Edit.length_add_keptCount, h.old, h.new]
  simp [positions]

theorem eq_keep_of_keptPair? (h : IsScript eq a b s) {e : Edit} (he : e ∈ s) {p : Nat × Nat}
    (hp : keptPair? e = some p) : e = keep p.1 p.2 ∧ Related eq a b p.1 p.2 := by
  have hop : e.op = .equal := by
    unfold keptPair? at hp
    split at hp
    · assumption
    · cases hp
  obtain ⟨i, j, rfl, hij⟩ := h.kept e he hop
  obtain rfl : (i, j) = p := by simpa [keptPair?, keep] using hp
  exact ⟨rfl, hij⟩

/-- The positions of a script increase on both sides. -/
theorem pairwise_lt (h : IsScript eq a b s) : s.Pairwise fun e f =>
    (takesOld e = true → takesOld f = true →
      ∀ i j : Nat, e.old = some (i : Int) → f.old = some (j : Int) → i < j) ∧
    (takesNew e = true → takesNew f = true →
      ∀ i j : Nat, e.new = some (i : Int) → f.new = some (j : Int) → i < j) := by
  have hold := pairwise_positions 0 a.length
  have hnew := pairwise_positions 0 b.length
  rw [← h.old, oldPositions, List.pairwise_map, List.pairwise_filter] at hold
  rw [← h.new, newPositions, List.pairwise_map, List.pairwise_filter] at hnew
  exact hold.and hnew

/-- What a script keeps is an alignment. -/
theorem isAlignment (h : IsScript eq a b s) : IsAlignment eq a b (s.filterMap keptPair?) := by
  constructor
  · rw [List.pairwise_filterMap]
    refine h.pairwise_lt.imp_of_mem fun {e f} he hf hef p hp q hq => ?_
    rw [(h.eq_keep_of_keptPair? he hp).1, (h.eq_keep_of_keptPair? hf hq).1] at hef
    exact ⟨hef.1 rfl rfl _ _ rfl rfl, hef.2 rfl rfl _ _ rfl rfl⟩
  · intro p hp
    obtain ⟨e, he, hep⟩ := List.mem_filterMap.mp hp
    exact (h.eq_keep_of_keptPair? he hep).2

theorem length_filterMap_keptPair? (h : IsScript eq a b s) :
    (s.filterMap keptPair?).length = keptCount s := by
  rw [List.length_filterMap_eq_countP, keptCount]
  refine List.countP_congr fun e he => ?_
  constructor
  · intro hsome
    obtain ⟨p, hp⟩ := Option.isSome_iff_exists.mp hsome
    rw [(h.eq_keep_of_keptPair? he hp).1]
    rfl
  · intro hop
    obtain ⟨i, j, rfl, -⟩ := h.kept e he (of_decide_eq_true hop)
    rfl

theorem keptCount_le (h : IsScript eq a b s) : keptCount s ≤ lcsLength eq a b := by
  rw [← h.length_filterMap_keptPair?]
  exact h.isAlignment.length_le_lcsLength

end IsScript

variable (eq a b) in
theorem keptCount_script : keptCount (script eq a b) = lcsLength eq a b :=
  keptCount_walkBack le_rfl le_rfl []

/-- The script for sequences that count as different has an entry that changes something. -/
theorem exists_isChange_script (h : isDifferent eq a b = true) :
    ∃ e ∈ script eq a b, e.isChange = true := by
  by_contra hnone
  have hequal : ∀ e ∈ script eq a b, decide (e.op = .equal) = true := by
    intro e he
    by_contra hne
    exact hnone ⟨e, he, by simpa [isChange] using hne⟩
  -- The script keeps all it takes, so it takes as many elements of one side as of the other.
  have hkept : keptCount (script eq a b) = (script eq a b).length :=
    List.countP_eq_length.mpr hequal
  have hlcs := keptCount_script eq a b
  have hlength := (isScript_script eq a b).length_add_keptCount
  have hle : lcsLength eq a b ≤ a.length ∧ lcsLength eq a b ≤ b.length :=
    cell_le eq a b a.length b.length le_rfl le_rfl
  simp only [isDifferent, Bool.or_eq_true, decide_eq_true_eq] at h
  omega

/-- The table finds the length of a longest alignment, for any relation between the elements; the
script keeps so many elements, all of them related, and no script is shorter. -/
theorem script_isShortest (eq : α → β → Bool) (a : List α) (b : List β) :
    IsGreatest {n | ∃ ps, IsAlignment eq a b ps ∧ ps.length = n} (lcsLength eq a b) ∧
      keptCount (script eq a b) = lcsLength eq a b ∧ IsScript eq a b (script eq a b) ∧
      (script eq a b).length + lcsLength eq a b = a.length + b.length ∧
      ∀ s, IsScript eq a b s → (script eq a b).length ≤ s.length := by
  have hscript := isScript_script eq a b
  have hkept := keptCount_script eq a b
  have hlength := hscript.length_add_keptCount
  rw [hkept] at hlength
  refine ⟨⟨⟨_, hscript.isAlignment, ?_⟩, ?_⟩, hkept, hscript, hlength, fun s hs => ?_⟩
  · rw [hscript.length_filterMap_keptPair?, hkept]
  · rintro n ⟨ps, hps, rfl⟩
    exact hps.length_le_lcsLength
  · have hle := hs.keptCount_le
    have hsum := hs.length_add_keptCount
    omega

end AsmCompare.Edit
