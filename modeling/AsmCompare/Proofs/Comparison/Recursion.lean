import AsmCompare.Proofs.Comparison.Preorder
import AsmCompare.Proofs.Comparison.Reach
import Mathlib.Data.List.Nodup

/-! # Comparing by recursion

Said directly, a comparison judges a node and then compares what the node refers to, sorted by the
new name, each time with all that has been found so far. `direct` is this recursion. The frames
give what it gives, and in its chains a node is deep-equal exactly if no node of its subtree shows
a difference.
-/
namespace AsmCompare

namespace SymbolMap

theorem nodup_insert {map : SymbolMap} (h : (map.entries.map Prod.fst).Nodup) (body : String)
    (entry : String × String) : ((map.insert body entry).entries.map Prod.fst).Nodup := by
  unfold insert
  split
  · next hnone =>
    have hnew : entry.1 ∉ map.entries.map Prod.fst := by
      intro hmem
      obtain ⟨e, he, hname⟩ := List.mem_map.mp hmem
      have hne := List.lookup_eq_none_iff.mp hnone e he
      simp [hname] at hne
    rw [List.map_append, List.nodup_append]
    refine ⟨h, List.nodup_singleton _, ?_⟩
    rintro n hn m hm rfl
    exact hnew (List.mem_singleton.mp hm ▸ hn)
  · split <;> exact h

theorem nodup_foldl_insert (body : String) (es : List (String × String)) (map : SymbolMap)
    (h : (map.entries.map Prod.fst).Nodup) :
    ((es.foldl (insert body) map).entries.map Prod.fst).Nodup := by
  induction es generalizing map with
  | nil => exact h
  | cons e es ih => exact ih _ (nodup_insert h body e)

/-- The entries are sorted strictly, because a name of the new body has only one. -/
theorem pairwise_sorted_ofBodies (a b : Body) :
    (ofBodies a b).sorted.Pairwise fun x y => x.1 < y.1 := by
  have hle : (ofBodies a b).sorted.Pairwise fun x y => x.1 ≤ y.1 := by
    refine (List.pairwise_mergeSort ?_ ?_ _).imp of_decide_eq_true
    · intro x y z hxy hyz
      exact decide_eq_true (String.le_trans (of_decide_eq_true hxy) (of_decide_eq_true hyz))
    · intro x y
      simpa using String.le_total x.1 y.1
  have hne : (ofBodies a b).sorted.Pairwise fun x y => x.1 ≠ y.1 := by
    rw [← List.pairwise_map]
    have hnodup := nodup_foldl_insert b.name (correspondingNames a b) {} List.nodup_nil
    exact hnodup.perm ((List.mergeSort_perm _ _).map Prod.fst).symm
  exact (hle.and hne).imp fun h => Std.lt_of_le_of_ne h.1 h.2

end SymbolMap

namespace Chain

/-- Every node is deep-equal exactly if all nodes of its subtree are flat-equal. -/
def SumsUp (c : Chain) : Prop :=
  ∀ node ∈ c.walk, (node.deepEqual = true ↔ ∀ below ∈ node.walk, below.flatEqual = true)

theorem sumsUp_leaf (p : Pairing) (equal : Bool) : (leaf p equal).SumsUp := by
  have hwalk : (leaf p equal).walk = [leaf p equal] := walk_eq _
  intro node hnode
  rw [hwalk, List.mem_singleton] at hnode
  subst hnode
  rw [hwalk]
  simp [leaf]

theorem sumsUp_node (p : Pairing) {ds : List Chain} (h : ∀ d ∈ ds, d.SumsUp) :
    SumsUp ⟨p, true, ds.all deepEqual, ds⟩ := by
  intro node hnode
  rcases mem_walk_iff.mp hnode with rfl | ⟨d, hd, hnode⟩
  · -- The root of each child stands for the child's subtree.
    have hroot : ∀ d ∈ ds, d.deepEqual = true ↔ ∀ below ∈ d.walk, below.flatEqual = true :=
      fun d hd => h d hd d (mem_walk_iff.mpr (.inl rfl))
    constructor
    · intro hall below hbelow
      rcases mem_walk_iff.mp hbelow with rfl | ⟨d, hd, hbelow⟩
      · rfl
      · exact (hroot d hd).mp (List.all_eq_true.mp hall d hd) below hbelow
    · intro hall
      refine List.all_eq_true.mpr fun d hd => (hroot d hd).mpr fun below hbelow => ?_
      exact hall below (mem_walk_iff.mpr (.inr ⟨d, hd, hbelow⟩))
  · exact h d hd node hnode

end Chain

namespace Comparison
variable {old new : Listing}

theorem exists_references {s : Comparison} {p : Pairing} {refs : List Pairing}
    (he : (evaluate old new s p).1 = .pending refs) :
    ∃ a b, refs = references old new (SymbolMap.ofBodies a b) := by
  obtain ⟨hnone, ⟨a, b, hb, hab⟩, -, -⟩ := of_evaluate_pending he
  obtain ⟨t, -, hattempt⟩ := attempt_of_bodies?_eq_some hb (s.record p.new false)
  have heval : evaluate old new s p = judge old new t p a b := by
    simp [evaluate, hnone, hattempt]
  rcases judge_cases t p a b with ⟨hne, -⟩ | ⟨-, -, hv⟩
  · exact absurd hab hne
  · rw [heval, hv] at he
    cases he
    exact ⟨a, b, rfl⟩

/-- The references of a node are visited in the order of their new names, none of them twice. -/
theorem pairwise_of_evaluate_pending {s : Comparison} {p : Pairing} {refs : List Pairing}
    (he : (evaluate old new s p).1 = .pending refs) :
    refs.Pairwise fun q r => q.new < r.new := by
  obtain ⟨a, b, rfl⟩ := exists_references he
  refine List.Pairwise.filterMap _ ?_ (SymbolMap.pairwise_sorted_ofBodies a b)
  intro x y hxy q hq r hr
  rw [(reference?_eq_some_iff.mp hq).1, (reference?_eq_some_iff.mp hr).1]
  exact hxy

section
variable (old new)

mutual

/-- Compares two symbols by recursion. The names without a verdict do not become more, which is why
the recursion ends. -/
def direct (s : Comparison) (p : Pairing) :
    { r : Chain × Comparison // r.2.unseen new ≤ s.unseen new } :=
  match h : evaluate old new s p with
  | (.final equal, s') => ⟨(⟨p, equal, equal, []⟩, s'), by
      have hle := unseen_evaluate_le old new s p
      rwa [h] at hle⟩
  | (.pending refs, s') =>
    have hlt := unseen_lt_of_pending old new h
    let r := directAll s' refs
    ⟨(⟨p, true, true && r.val.1.all Chain.deepEqual, r.val.1⟩, r.val.2),
      Nat.le_trans r.property (Nat.le_of_lt hlt)⟩
termination_by (s.unseen new, 0)

/-- Compares symbols one after the other, each with what has been found before it. -/
def directAll (s : Comparison) :
    List Pairing → { r : List Chain × Comparison // r.2.unseen new ≤ s.unseen new }
  | [] => ⟨([], s), Nat.le_refl _⟩
  | p :: ps =>
    let c := direct s p
    let r := directAll c.val.2 ps
    ⟨(c.val.1 :: r.val.1, r.val.2), Nat.le_trans r.property c.property⟩
termination_by ps => (s.unseen new, ps.length + 1)
decreasing_by
  · exact Prod.Lex.right _ (Nat.succ_pos _)
  · exact Prod.Lex.right' _ c.property (Nat.lt_succ_self _)

end

end

section
variable {s mid s' : Comparison} {p : Pairing} {ps refs : List Pairing} {c : Chain}
  {cs : List Chain}

theorem val_direct_of_final {equal : Bool} (he : (evaluate old new s p).1 = .final equal) :
    (direct old new s p).val = (.leaf p equal, (evaluate old new s p).2) := by
  rw [direct]
  split
  · next h =>
    cases he.symm.trans (congrArg Prod.fst h)
    exact Prod.ext rfl (congrArg Prod.snd h).symm
  · next h => cases he.symm.trans (congrArg Prod.fst h)

theorem val_direct_of_pending (he : (evaluate old new s p).1 = .pending refs)
    (hrefs : (directAll old new (evaluate old new s p).2 refs).val = (cs, s')) :
    (direct old new s p).val = (⟨p, true, cs.all Chain.deepEqual, cs⟩, s') := by
  rw [direct]
  split
  · next h => cases he.symm.trans (congrArg Prod.fst h)
  · next h =>
    cases he.symm.trans (congrArg Prod.fst h)
    rw [h] at hrefs
    simp [hrefs]

theorem val_directAll_cons (hp : (direct old new s p).val = (c, mid))
    (hps : (directAll old new mid ps).val = (cs, s')) :
    (directAll old new s (p :: ps)).val = (c :: cs, s') := by
  obtain rfl : (direct old new s p).val.1 = c := congrArg Prod.fst hp
  obtain rfl : (direct old new s p).val.2 = mid := congrArg Prod.snd hp
  rw [directAll]
  simp [hps]

namespace Visits

/-- The recursion finds what the visit finds. -/
theorem val_directAll (h : Visits old new s ps cs s') :
    (directAll old new s ps).val = (cs, s') := by
  induction h with
  | nil s => rw [directAll]
  | final he _ ih => exact val_directAll_cons (val_direct_of_final he) ih
  | pending he _ _ ihrefs ihrest =>
    exact val_directAll_cons (val_direct_of_pending he ihrefs) ihrest

theorem val_direct (h : Visits old new s [p] [c] s') : (direct old new s p).val = (c, s') := by
  cases h with
  | final he hrest =>
    cases hrest
    exact val_direct_of_final he
  | pending he hrefs hrest =>
    cases hrest
    exact val_direct_of_pending he hrefs.val_directAll

theorem sumsUp (h : Visits old new s ps cs s') : ∀ c ∈ cs, c.SumsUp := by
  induction h with
  | nil => simp
  | final _ _ ih => exact List.forall_mem_cons.mpr ⟨Chain.sumsUp_leaf _ _, ih⟩
  | pending _ _ _ ihrefs ihrest =>
    exact List.forall_mem_cons.mpr ⟨Chain.sumsUp_node _ ihrefs, ihrest⟩

end Visits

end

/-- From any state, the frames give what the recursion gives: the same chain, verdicts and pairs.
What a node refers to is visited in the order of the new names, each dependency once, and every
node of the chain is deep-equal exactly if its whole subtree is flat-equal. -/
theorem compare_follows_recursion (old new : Listing) (s : Comparison) (p : Pairing) :
    compare old new s p = (direct old new s p).val ∧
      (∀ refs, (evaluate old new s p).1 = .pending refs →
        refs.Pairwise (fun q r => q.new < r.new) ∧ ∀ q, q ∈ refs ↔ DependsOn old new p q) ∧
      ∀ node ∈ (compare old new s p).1.walk,
        (node.deepEqual = true ↔ ∀ below ∈ node.walk, below.flatEqual = true) := by
  have hvisits := visits_compare old new s p
  refine ⟨hvisits.val_direct.symm, fun refs he => ?_, hvisits.sumsUp _ List.mem_cons_self⟩
  obtain ⟨-, -, -, hmem⟩ := of_evaluate_pending he
  exact ⟨pairwise_of_evaluate_pending he, hmem⟩

end Comparison

end AsmCompare
