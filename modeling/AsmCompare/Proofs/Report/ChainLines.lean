import AsmCompare.Proofs.Comparison.Preorder
import AsmCompare.Report.Diff

/-! # The lines of a chain

The walk through a chain and its lines go through the tree in the same order. Each step down moves a
line four columns further in, so the indentation of a line tells the depth of its node.
-/
namespace AsmCompare.Report
open Text

theorem iterate_append_spaces (width depth : Nat) (indent : String) :
    (· ++ spaces width)^[depth] indent = indent ++ spaces (width * depth) := by
  induction depth generalizing indent with
  | zero => simp [spaces]
  | succ depth ih =>
    have hspaces : spaces width ++ spaces (width * depth) = spaces (width * (depth + 1)) := by
      rw [spaces, spaces, spaces, ← String.ofList_append, List.replicate_append_replicate,
        Nat.mul_succ, Nat.add_comm]
    rw [Function.iterate_succ_apply, ih, String.append_assoc, hspaces]

theorem chainLines_eq_map_placed (indent : String) (c : Chain) :
    chainLines indent c =
      c.placed.map fun p => indent ++ spaces (4 * p.1.length) ++ "-> " ++ nodeText p.2 := by
  rw [chainLines, Chain.visit_eq, List.flatMap_singleton, List.map_map]
  refine List.map_congr_left ?_
  intro p _
  simp only [Function.comp_apply, Chain.relabelled, iterate_append_spaces]

/-- A walk lists a node and then the walks of its children: every node once, by ascending address.
The rows and the lines of the chain have the same nodes in the same order, and a line starts with
four spaces for every step down to its node. -/
theorem walk_chainLines_ascending (c : Chain) :
    c.walk = c :: c.children.flatMap Chain.walk ∧
      ∃ nodes : List (List Nat × Chain),
        (∀ address node, (address, node) ∈ nodes ↔ c.nodeAt? address = some node) ∧
        (nodes.map Prod.fst).Pairwise (· < ·) ∧
        c.walk = nodes.map Prod.snd ∧
        c.rows = nodes.map (fun p => (p.1.length, p.2)) ∧
        ∀ indent, chainLines indent c =
          nodes.map fun p => indent ++ spaces (4 * p.1.length) ++ "-> " ++ nodeText p.2 :=
  ⟨c.walk_eq, c.placed, fun _ _ => Chain.mem_placed_iff, c.pairwise_placed, c.walk_eq_map_placed,
    c.rows_eq_map_placed, fun indent => chainLines_eq_map_placed indent c⟩

end AsmCompare.Report
