import AsmCompare.Comparison.Chain
import Mathlib.Data.Nat.SuccPred

/-! # The nodes of a chain

A node of a chain has an address: the child to take at each step down from the root. The tree itself
tells its nodes by recursion, with their addresses in lexicographic order. A visit keeps the trees
that it has still to list on a stack, and what it lists are the nodes of these trees, one tree after
the other.
-/
namespace AsmCompare.Chain

/-- The node at an address. -/
def nodeAt? : List Nat → Chain → Option Chain
  | [], c => some c
  | i :: address, c => c.children[i]?.bind (nodeAt? address)

/-- A node below the child at a position, with the address from the parent. -/
def under (i : Nat) (p : List Nat × Chain) : List Nat × Chain := (i :: p.1, p.2)

/-- The nodes with their addresses: the root, then those of each child. -/
def placed : Chain → List (List Nat × Chain)
  | ⟨pairing, flatEqual, deepEqual, children⟩ =>
    ([], ⟨pairing, flatEqual, deepEqual, children⟩) :: go 0 children
where
  go : Nat → List Chain → List (List Nat × Chain)
    | _, [] => []
    | i, c :: rest => c.placed.map (under i) ++ go (i + 1) rest

theorem placed_go_eq (i : Nat) (cs : List Chain) :
    placed.go i cs = (cs.zipIdx i).flatMap fun p => p.1.placed.map (under p.2) := by
  induction cs generalizing i with
  | nil => rfl
  | cons c cs ih => rw [placed.go, ih, List.zipIdx_cons, List.flatMap_cons]

theorem placed_eq (c : Chain) :
    c.placed = ([], c) :: c.children.zipIdx.flatMap fun p => p.1.placed.map (under p.2) := by
  rw [← placed_go_eq]
  cases c
  rw [placed]

/-- What holds of a chain if it holds of its children holds of every chain. -/
theorem of_children {P : Chain → Prop} (h : ∀ c : Chain, (∀ d ∈ c.children, P d) → P c)
    (c : Chain) : P c :=
  h c fun d _ => of_children h d
termination_by sizeOf c
decreasing_by
  obtain ⟨pairing, flatEqual, deepEqual, children⟩ := c
  have hsize : sizeOf d < sizeOf children := List.sizeOf_lt_of_mem ‹_›
  simp only [mk.sizeOf_spec]
  omega

theorem mem_placed_iff {c node : Chain} {address : List Nat} :
    (address, node) ∈ c.placed ↔ c.nodeAt? address = some node := by
  induction address generalizing c with
  | nil => simp [placed_eq c, under, nodeAt?, eq_comm]
  | cons i address ih =>
    have hchild : (i :: address, node) ∈ c.placed ↔
        ∃ d, c.children[i]? = some d ∧ (address, node) ∈ d.placed := by
      rw [placed_eq, List.mem_cons, List.mem_flatMap]
      constructor
      · rintro (h | ⟨⟨d, j⟩, hd, h⟩)
        · cases h
        · obtain ⟨p, hp, heq⟩ := List.mem_map.mp h
          cases heq
          exact ⟨d, List.mem_zipIdx_iff_getElem?.mp hd, hp⟩
      · rintro ⟨d, hd, h⟩
        exact .inr ⟨(d, i), List.mem_zipIdx_iff_getElem?.mpr hd, List.mem_map_of_mem h⟩
    rw [hchild, nodeAt?, Option.bind_eq_some_iff]
    simp only [ih]

theorem map_fst_map_under (i : Nat) (ps : List (List Nat × Chain)) :
    (ps.map (under i)).map Prod.fst = (ps.map Prod.fst).map (i :: ·) := by
  simp [under, Function.comp_def]

theorem pairwise_zipIdx (cs : List Chain) : cs.zipIdx.Pairwise fun p q => p.2 < q.2 := by
  have hpositions : (cs.zipIdx.map Prod.snd).Pairwise (· < ·) := by
    rw [List.zipIdx_map_snd]
    exact List.pairwise_lt_range'
  exact List.pairwise_map.mp hpositions

/-- The addresses ascend, so none of them comes twice. -/
theorem pairwise_placed (c : Chain) : (c.placed.map Prod.fst).Pairwise (· < ·) := by
  induction c using of_children with
  | h c ih =>
    rw [placed_eq, List.map_cons, List.pairwise_cons, List.map_flatMap, List.pairwise_flatMap]
    simp only [map_fst_map_under]
    refine ⟨?_, ?_, ?_⟩
    · intro address haddress
      obtain ⟨p, -, hp⟩ := List.mem_flatMap.mp haddress
      obtain ⟨rest, -, rfl⟩ := List.mem_map.mp hp
      exact List.nil_lt_cons p.2 rest
    · rintro ⟨d, i⟩ hd
      have hchild := ih d (List.mem_of_getElem? (List.mem_zipIdx_iff_getElem?.mp hd))
      exact List.pairwise_map.mpr (hchild.imp List.cons_lt_cons_self.mpr)
    · refine (pairwise_zipIdx c.children).imp ?_
      intro p q hlt address haddress other hother
      obtain ⟨rest, -, rfl⟩ := List.mem_map.mp haddress
      obtain ⟨rest', -, rfl⟩ := List.mem_map.mp hother
      exact List.cons_lt_cons_iff.mpr (.inl hlt)

section
variable {β : Type}

theorem flatMap_zipIdx (f : Chain → List β) (cs : List Chain) :
    cs.zipIdx.flatMap (fun p => f p.1) = cs.flatMap f := by
  rw [← List.flatMap_map Prod.fst f, List.zipIdx_map_fst]

/-- A node with its label in a tree that stands under `label`. -/
def relabelled (below : β → β) (label : β) (p : List Nat × Chain) : β × Chain :=
  (below^[p.1.length] label, p.2)

theorem map_relabelled_map_under (below : β → β) (label : β) (i : Nat)
    (ps : List (List Nat × Chain)) :
    (ps.map (under i)).map (relabelled below label) = ps.map (relabelled below (below label)) :=
  List.map_map

/-- A visit lists the nodes of the trees on its stack, one tree after the other. -/
theorem visit_eq (below : β → β) (forest : List (β × Chain)) :
    visit below forest = forest.flatMap fun t => t.2.placed.map (relabelled below t.1) := by
  fun_induction visit below forest with
  | case1 => rfl
  | case2 label c rest ih =>
    have hroot : c.placed.map (relabelled below label) =
        (label, c) :: c.children.flatMap fun d => d.placed.map (relabelled below (below label)) := by
      rw [placed_eq, List.map_cons, List.map_flatMap]
      simp only [map_relabelled_map_under]
      rw [flatMap_zipIdx fun d => d.placed.map (relabelled below (below label))]
      rfl
    rw [ih, List.flatMap_append, labelled, List.flatMap_map, List.flatMap_cons, hroot,
      List.cons_append]

end

theorem walk_eq_map_placed (c : Chain) : c.walk = c.placed.map Prod.snd := by
  rw [walk, visit_eq, List.flatMap_singleton, List.map_map]
  rfl

theorem rows_eq_map_placed (c : Chain) : c.rows = c.placed.map fun p => (p.1.length, p.2) := by
  rw [rows, visit_eq, List.flatMap_singleton]
  refine List.map_congr_left ?_
  intro p _
  have hdepth : (· + 1)^[p.1.length] 0 = p.1.length :=
    (Nat.succ_iterate 0 _).trans (Nat.zero_add _)
  rw [relabelled, hdepth]

theorem walk_eq (c : Chain) : c.walk = c :: c.children.flatMap walk := by
  have hunder : ∀ i (ps : List (List Nat × Chain)),
      (ps.map (under i)).map Prod.snd = ps.map Prod.snd := fun _ _ => List.map_map
  rw [walk_eq_map_placed, placed_eq, List.map_cons, List.map_flatMap]
  simp only [hunder, ← walk_eq_map_placed]
  rw [flatMap_zipIdx]

theorem mem_walk_iff {c node : Chain} :
    node ∈ c.walk ↔ node = c ∨ ∃ child ∈ c.children, node ∈ child.walk := by
  rw [walk_eq, List.mem_cons, List.mem_flatMap]

end AsmCompare.Chain
