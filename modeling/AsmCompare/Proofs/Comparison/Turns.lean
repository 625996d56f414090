import AsmCompare.Proofs.Comparison.FileRun
import AsmCompare.Proofs.Comparison.Recursion
import Mathlib.Data.List.Perm.Subperm
import Mathlib.Logic.Function.Iterate

/-! # The turns of a comparison

The loop over the frames is cut here into its single turns. The stack may grow in a turn, but only
for a name of the new file that had no verdict, and then by no more references than the new file
has generated names. So a comparison ends after a number of turns that the names of the new file
bound, from any state and whatever the symbols refer to.
-/
namespace AsmCompare.Comparison

/-- A comparison between two turns: the frames that are open, or the answer. -/
inductive Stage where
  | visiting (top : Frame) (below : List Frame) (found : Comparison)
  | done (chain : Chain) (found : Comparison)

/-- The generated names of a file. -/
def generatedNames (l : Listing) : List String := l.names.filter Name.isGenerated

section
variable (old new : Listing)

/-- Judges the root. -/
def start (s : Comparison) (p : Pairing) : Stage :=
  match evaluate old new s p with
  | (.final equal, s) => .done (.leaf p equal) s
  | (.pending refs, s) => .visiting ⟨p, refs, []⟩ [] s

/-- One turn: the frame on top is closed if all its references have been visited, else the next one
is judged, and opened if it leaves references of its own. -/
def turn : Stage → Stage
  | .done c s => .done c s
  | .visiting ⟨p, [], children⟩ [] s => .done (Frame.mk p [] children).close s
  | .visiting ⟨p, [], children⟩ (parent :: below) s =>
    .visiting (parent.add (Frame.mk p [] children).close) below s
  | .visiting ⟨p, q :: pending, children⟩ below s =>
    match evaluate old new s q with
    | (.final equal, s) => .visiting ⟨p, pending, children ++ [.leaf q equal]⟩ below s
    | (.pending refs, s) => .visiting ⟨q, refs, []⟩ (⟨p, pending, children⟩ :: below) s

namespace Stage

/-- What the comparison will give. -/
def answer : Stage → Chain × Comparison
  | visiting top below s => run old new top below s
  | done c s => (c, s)

/-- A bound on the turns that are left: the work on the open frames, and a frame with all generated
names for each name without a verdict. -/
def left : Stage → Nat
  | visiting top below s =>
    Frame.work (top :: below) + s.unseen new * ((generatedNames new).length + 1)
  | done _ _ => 0

end Stage

end

variable {old new : Listing} {s : Comparison} {p q : Pairing} {refs ps : List Pairing}

theorem turn_of_final {equal : Bool} (he : (evaluate old new s q).1 = .final equal)
    (cs : List Chain) (below : List Frame) :
    turn old new (.visiting ⟨p, q :: ps, cs⟩ below s) =
      .visiting ⟨p, ps, cs ++ [.leaf q equal]⟩ below (evaluate old new s q).2 := by
  rw [turn, ← Prod.eta (evaluate old new s q), he]

theorem turn_of_pending (he : (evaluate old new s q).1 = .pending refs) (cs : List Chain)
    (below : List Frame) :
    turn old new (.visiting ⟨p, q :: ps, cs⟩ below s) =
      .visiting ⟨q, refs, []⟩ (⟨p, ps, cs⟩ :: below) (evaluate old new s q).2 := by
  rw [turn, ← Prod.eta (evaluate old new s q), he]

theorem start_of_final {equal : Bool} (he : (evaluate old new s p).1 = .final equal) :
    start old new s p = .done (.leaf p equal) (evaluate old new s p).2 := by
  rw [start, ← Prod.eta (evaluate old new s p), he]

theorem start_of_pending (he : (evaluate old new s p).1 = .pending refs) :
    start old new s p = .visiting ⟨p, refs, []⟩ [] (evaluate old new s p).2 := by
  rw [start, ← Prod.eta (evaluate old new s p), he]

/-- A turn does not change the answer. -/
theorem answer_turn (x : Stage) : (turn old new x).answer old new = x.answer old new := by
  match x with
  | .done c s => rfl
  | .visiting ⟨p, [], cs⟩ [] s =>
    rw [Stage.answer, run]
    rfl
  | .visiting ⟨p, [], cs⟩ (parent :: below) s => exact (run_closed p cs parent below s).symm
  | .visiting ⟨p, q :: ps, cs⟩ below s =>
    cases he : (evaluate old new s q).1 with
    | final equal =>
      rw [turn_of_final he]
      exact (run_final he p ps cs below).symm
    | pending refs =>
      rw [turn_of_pending he]
      exact (run_pending he p ps cs below).symm

theorem answer_start (s : Comparison) (p : Pairing) :
    (start old new s p).answer old new = compare old new s p := by
  cases he : (evaluate old new s p).1 with
  | final equal =>
    rw [start_of_final he, compare, ← Prod.eta (evaluate old new s p), he]
    rfl
  | pending refs =>
    rw [start_of_pending he, compare, ← Prod.eta (evaluate old new s p), he]
    rfl

/-- A node has no more references than the new file has generated names. -/
theorem length_le_of_evaluate_pending (he : (evaluate old new s p).1 = .pending refs) :
    refs.length ≤ (generatedNames new).length := by
  have hnodup : (refs.map Pairing.new).Nodup := by
    rw [List.Nodup, List.pairwise_map]
    refine (pairwise_of_evaluate_pending he).imp ?_
    intro q r hlt heq
    rw [heq] at hlt
    exact String.lt_irrefl _ hlt
  have hsubset : refs.map Pairing.new ⊆ generatedNames new := by
    intro n hn
    obtain ⟨q, hq, rfl⟩ := List.mem_map.mp hn
    obtain ⟨-, -, -, hmem⟩ := of_evaluate_pending he
    obtain ⟨-, -, -, -, -, hgen, hkind⟩ := (hmem q).mp hq
    have hknown : new.kindOf q.new ≠ .unknown := by
      rcases hkind with ⟨-, -, hf⟩ | ⟨-, -, ho⟩
      · rw [of_decide_eq_true hf]
        decide
      · rw [of_decide_eq_true ho]
        decide
    exact List.mem_filter.mpr ⟨Change.mem_names_of_kindOf hknown, hgen⟩
  simpa using (List.subperm_of_subset hnodup hsubset).length_le

/-- What a node that is opened costs is less than its name was counted for. -/
theorem unseen_mul_add_le (he : (evaluate old new s p).1 = .pending refs) :
    (evaluate old new s p).2.unseen new * ((generatedNames new).length + 1) + refs.length + 1 ≤
      s.unseen new * ((generatedNames new).length + 1) := by
  have hrefs := length_le_of_evaluate_pending he
  have hmul := Nat.mul_le_mul_right ((generatedNames new).length + 1)
    (Nat.succ_le_of_lt (unseen_evaluate_lt he))
  rw [Nat.succ_mul] at hmul
  omega

theorem left_turn_lt (top : Frame) (below : List Frame) (s : Comparison) :
    (turn old new (.visiting top below s)).left new < (Stage.visiting top below s).left new := by
  match top, below with
  | ⟨p, [], cs⟩, [] =>
    simp only [turn, Stage.left, Frame.work]
    omega
  | ⟨p, [], cs⟩, parent :: below =>
    simp only [turn, Stage.left, Frame.work, Frame.add, List.length_nil]
    omega
  | ⟨p, q :: ps, cs⟩, below =>
    cases he : (evaluate old new s q).1 with
    | final equal =>
      have hle := Nat.mul_le_mul_right ((generatedNames new).length + 1)
        (unseen_evaluate_le old new s q)
      rw [turn_of_final he]
      simp only [Stage.left, Frame.work, List.length_cons]
      omega
    | pending refs =>
      -- The stack grows by a frame, which the name that got its verdict pays for.
      have hle := unseen_mul_add_le he
      rw [turn_of_pending he]
      simp only [Stage.left, Frame.work, List.length_cons]
      omega

/-- Any stack of frames comes to its answer, even one that no comparison would build. -/
theorem exists_iterate_turn (x : Stage) :
    ∃ n ≤ x.left new, (turn old new)^[n] x = .done (x.answer old new).1 (x.answer old new).2 := by
  induction hm : x.left new using Nat.strongRecOn generalizing x with
  | _ m ih =>
    cases x with
    | done c s => exact ⟨0, Nat.zero_le _, rfl⟩
    | visiting top below s =>
      have hlt := @left_turn_lt old new top below s
      obtain ⟨n, hn, hdone⟩ := ih _ (hm ▸ hlt) (turn old new (.visiting top below s)) rfl
      refine ⟨n + 1, by omega, ?_⟩
      rw [Function.iterate_succ_apply, hdone, answer_turn]

/-- A comparison ends for any files, names and verdicts found before: after at most as many turns
as there are names without a verdict, times one more than the generated names, it is done, with
the answer of `compare`. -/
theorem exists_turns_compare (old new : Listing) (s : Comparison) (p : Pairing) :
    ∃ n ≤ s.unseen new * ((generatedNames new).length + 1),
      (turn old new)^[n] (start old new s p) =
        .done (compare old new s p).1 (compare old new s p).2 := by
  have hleft : (start old new s p).left new ≤
      s.unseen new * ((generatedNames new).length + 1) := by
    cases he : (evaluate old new s p).1 with
    | final equal =>
      rw [start_of_final he]
      exact Nat.zero_le _
    | pending refs =>
      have hle := unseen_mul_add_le he
      rw [start_of_pending he]
      simp only [Stage.left, Frame.work]
      omega
  obtain ⟨n, hn, hdone⟩ := @exists_iterate_turn old new (start old new s p)
  rw [answer_start] at hdone
  exact ⟨n, Nat.le_trans hn hleft, hdone⟩

end AsmCompare.Comparison
