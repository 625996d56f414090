import AsmCompare.Proofs.Comparison.Recorded
import AsmCompare.Proofs.Comparison.Turns

/-! # What a comparator remembers over many calls

Calls on one comparator hand on what they find. A verdict is written once, while its name is
judged, and nothing that is visited later changes it, neither between two calls nor within one. It
is positive exactly if the bodies of its name were kept and do not differ, and it is the verdict of
every node with that name in every chain that has been returned.
-/
namespace AsmCompare.Comparison
variable (old new : Listing)

/-- The chains that calls return one after the other, and what has been found after them. -/
def calls (s : Comparison) : List Pairing → List Chain × Comparison
  | [] => ([], s)
  | p :: ps =>
    let (c, s) := compare old new s p
    let (cs, s) := calls s ps
    (c :: cs, s)

variable {old new} {s s' : Comparison} {ps : List Pairing} {cs : List Chain} {n : String} {e : Bool}

/-- Calls do what a visit of their pairings does. -/
theorem visits_calls (s : Comparison) (ps : List Pairing) :
    Visits old new s ps (calls old new s ps).1 (calls old new s ps).2 := by
  induction ps generalizing s with
  | nil => exact .nil s
  | cons p ps ih => exact (visits_compare old new s p).cons (ih _)

theorem calls_append (s : Comparison) (ps qs : List Pairing) :
    (calls old new s (ps ++ qs)).2 = (calls old new (calls old new s ps).2 qs).2 := by
  induction ps generalizing s with
  | nil => rfl
  | cons p ps ih => exact ih _

/-- The nodes of the chains show the verdicts that stand at the end, also where a name was read
from the cache while its own references were still being visited. -/
theorem Visits.results_of_mem_walk (h : Visits old new s ps cs s') :
    ∀ c ∈ cs, ∀ node ∈ c.walk, s'.results[node.pairing.new]? = some node.flatEqual := by
  induction h with
  | nil => simp
  | final he hrest ih =>
    refine List.forall_mem_cons.mpr ⟨?_, ih⟩
    intro node hnode
    obtain rfl : node = .leaf _ _ := by simpa [Chain.walk_eq, Chain.leaf] using hnode
    exact hrest.keeps (results_of_evaluate_final he)
  | pending he hrefs hrest ihrefs ihrest =>
    refine List.forall_mem_cons.mpr ⟨?_, ihrest⟩
    intro node hnode
    rcases Chain.mem_walk_iff.mp hnode with rfl | ⟨d, hd, hnode⟩
    · obtain ⟨-, -, hj, -⟩ := of_evaluate_pending he
      exact hrest.keeps (hrefs.keeps hj.self)
    · exact hrest.keeps (ihrefs d hd node hnode)

/-- Every positive verdict rests on bodies that were kept. -/
def Grounded (s : Comparison) : Prop :=
  ∀ n, s.results[n]? = some true → ∃ q ∈ s.pairs, q.newName = n

theorem grounded_empty : Grounded {} := by
  intro n hn
  rw [results_empty] at hn
  cases hn

theorem Grounded.evaluate (hs : Grounded s) (p : Pairing) : Grounded (evaluate old new s p).2 := by
  cases hp : s.results[p.new]? with
  | some e =>
    rw [evaluate_cached hp]
    exact hs
  | none =>
    obtain ⟨e, he, hj⟩ := @exists_judged_evaluate old new s p hp
    intro n hn
    rw [pairs_evaluate hp]
    by_cases hname : p.new = n
    · subst hname
      rw [hj.self] at hn
      obtain ⟨a, b, hb, -⟩ := he.mp (Option.some.inj hn)
      refine ⟨⟨p.old, p.new, a, b⟩, List.mem_append_right _ ?_, rfl⟩
      simp [pairOf?, hb]
    · rw [hj n, if_neg hname] at hn
      obtain ⟨q, hq, hqn⟩ := hs n hn
      exact ⟨q, List.mem_append_left _ hq, hqn⟩

theorem results_eq_true_iff (hr : Recorded s) (hg : Grounded s) :
    s.results[n]? = some true ↔ ∃ q ∈ s.pairs, q.newName = n ∧ q.isDifferent = false := by
  constructor
  · intro hn
    obtain ⟨q, hq, rfl⟩ := hg n hn
    rw [hr.verdict q hq] at hn
    exact ⟨q, hq, rfl, by simpa using hn⟩
  · rintro ⟨q, hq, rfl, hsame⟩
    rw [hr.verdict q hq, hsame]
    rfl

/-- What has been found when a stage is reached. -/
def Stage.found : Stage → Comparison
  | visiting _ _ s => s
  | done _ s => s

theorem found_start (s : Comparison) (p : Pairing) :
    (start old new s p).found = (evaluate old new s p).2 := by
  cases he : (evaluate old new s p).1 with
  | final equal =>
    rw [start_of_final he]
    rfl
  | pending refs =>
    rw [start_of_pending he]
    rfl

/-- A turn takes no verdict back. -/
theorem found_turn_keeps (x : Stage) (h : x.found.results[n]? = some e) :
    (turn old new x).found.results[n]? = some e := by
  match x with
  | .done c s => exact h
  | .visiting ⟨p, [], cs⟩ [] s => exact h
  | .visiting ⟨p, [], cs⟩ (parent :: below) s => exact h
  | .visiting ⟨p, q :: ps, cs⟩ below s =>
    cases he : (evaluate old new s q).1 with
    | final equal =>
      rw [turn_of_final he]
      exact evaluate_keeps q h
    | pending refs =>
      rw [turn_of_pending he]
      exact evaluate_keeps q h

theorem found_iterate_turn_keeps (k : Nat) {x : Stage} (h : x.found.results[n]? = some e) :
    ((turn old new)^[k] x).found.results[n]? = some e := by
  induction k with
  | zero => exact h
  | succ k ih =>
    rw [Function.iterate_succ_apply']
    exact found_turn_keeps _ ih

/-- After any calls on one fresh comparator, a verdict stays through all later calls, at every turn
of them; no new name is kept with two pairs of bodies; a verdict is positive exactly if its bodies
are kept and do not differ; and every node of every chain that was returned shows the verdict on
its new name. -/
theorem calls_remember (old new : Listing) (ps : List Pairing) :
    (∀ (b : String) e, (calls old new {} ps).2.results[b]? = some e → ∀ qs p k,
        (calls old new {} (ps ++ qs)).2.results[b]? = some e ∧
          ((turn old new)^[k] (start old new (calls old new {} (ps ++ qs)).2 p)).found.results[b]? =
            some e) ∧
      ((calls old new {} ps).2.pairs.map ComparedPair.newName).Nodup ∧
      (∀ b : String, (calls old new {} ps).2.results[b]? = some true ↔
        ∃ q ∈ (calls old new {} ps).2.pairs, q.newName = b ∧ q.isDifferent = false) ∧
      ∀ c ∈ (calls old new {} ps).1, ∀ node ∈ c.walk,
        (calls old new {} ps).2.results[node.pairing.new]? = some node.flatEqual := by
  have hvisits := @visits_calls old new {} ps
  have hrecorded := hvisits.preserves (fun _ p hs => hs.evaluate p) recorded_empty
  have hgrounded := hvisits.preserves (fun _ p hs => hs.evaluate p) grounded_empty
  refine ⟨?_, hrecorded.nodup, fun b => results_eq_true_iff hrecorded hgrounded,
    hvisits.results_of_mem_walk⟩
  intro b e hb qs p k
  have hlater : (calls old new {} (ps ++ qs)).2.results[b]? = some e := by
    rw [calls_append]
    exact (visits_calls _ qs).keeps hb
  refine ⟨hlater, found_iterate_turn_keeps k ?_⟩
  rw [found_start]
  exact evaluate_keeps p hlater

end AsmCompare.Comparison
