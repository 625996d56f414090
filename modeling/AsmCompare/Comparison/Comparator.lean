import AsmCompare.Comparison.Chain
import AsmCompare.Comparison.SymbolMap
import AsmCompare.Counting
import AsmCompare.Edit.Align
import AsmCompare.Listing.Extract

/-! # Comparing symbols through generated names

Two bodies that agree after normalization can still refer to generated symbols that changed. The
comparison follows the corresponding generated names, each name of the new file at most once: its
verdict is remembered before the names it refers to are visited, so that cycles end. The work that
is left is a stack of frames, one for each node whose references are still being visited.
-/
namespace AsmCompare

/-- The normalized bodies of a pairing that both files define. -/
structure ComparedPair where
  oldName : String
  newName : String
  old : Body
  new : Body

namespace ComparedPair

def isDifferent (p : ComparedPair) : Bool :=
  Edit.isDifferent Statement.agrees p.old.statements p.new.statements

def script (p : ComparedPair) : List Edit :=
  Edit.script Statement.agrees p.old.statements p.new.statements

end ComparedPair

/-- What has been found so far: the verdict on each name of the new file, the pairs of bodies that
were compared, and the messages. -/
structure Comparison where
  results : Std.TreeMap String Bool := ∅
  pairs : List ComparedPair := []
  messages : List Message := []

namespace Comparison

def pair? (s : Comparison) (oldName newName : String) : Option ComparedPair :=
  s.pairs.find? fun p => p.oldName = oldName && p.newName = newName

/-- The outcome for one node: final, or equal so far with references to visit. -/
inductive Verdict where
  | final (equal : Bool)
  | pending (references : List Pairing)
  deriving DecidableEq, Repr

def record (s : Comparison) (name : String) (equal : Bool) : Comparison :=
  { s with results := s.results.insert name equal }

def say (s : Comparison) (messages : List Message) : Comparison :=
  { s with messages := s.messages ++ messages }

section
variable (old new : Listing)

/-- The pairing of two corresponding names: only generated names are followed, as functions if both
files define them so, else as objects. -/
def reference? (newName oldName : String) : Option Pairing :=
  if !Name.isGenerated newName then none
  else if old.hasFunction oldName && new.hasFunction newName then some ⟨.function, oldName, newName⟩
  else if old.hasObject oldName && new.hasObject newName then some ⟨.object, oldName, newName⟩
  else none

/-- The pairings that equal bodies refer to, sorted by the new name. -/
def references (map : SymbolMap) : List Pairing :=
  map.sorted.filterMap fun (newName, oldName) => reference? old new newName oldName

/-- Compares two normalized bodies; if they are the same, their references are left to visit. -/
def judge (s : Comparison) (p : Pairing) (a b : Body) : Verdict × Comparison :=
  let pair : ComparedPair := ⟨p.old, p.new, a, b⟩
  let s := { s with pairs := s.pairs ++ [pair] }
  if pair.isDifferent then
    (.final false, s.say [⟨.debug, p.new ++ " differs from " ++ p.old⟩])
  else
    let map := SymbolMap.ofBodies a b
    (.pending (references old new map), (s.record p.new true).say map.messages)

/-- Normalizes the bodies that were found and compares them if both were. -/
def attempt (s : Comparison) (p : Pairing) : Option Body → Option Body → Verdict × Comparison
  | some a, some b =>
    judge old new (s.say (a.normalizeMessages ++ b.normalizeMessages)) p a.normalize b.normalize
  | a, b =>
    let found := (a.toList ++ b.toList).flatMap Body.normalizeMessages
    (.final false, s.say (found ++ [⟨.debug, "Cannot extract " ++ p.old ++ " / " ++ p.new⟩]))

/-- The flat comparison of one node: a remembered verdict, or that of its bodies without debug
statements. -/
def evaluate (s : Comparison) (p : Pairing) : Verdict × Comparison :=
  match s.results[p.new]? with
  | some equal => (.final equal, s)
  | none =>
    attempt old new (s.record p.new false) p (old.bodyOfKind? p.kind true p.old)
      (new.bodyOfKind? p.kind true p.new)

/-- Names of the new file without a verdict. -/
def unseen (s : Comparison) : Nat := new.names.countP fun n => !s.results.contains n

end

/-- A node whose references are being visited: those still to visit and the chains of the others. -/
structure Frame where
  pairing : Pairing
  pending : List Pairing
  children : List Chain := []

namespace Frame

def add (f : Frame) (c : Chain) : Frame := { f with children := f.children ++ [c] }

/-- The chain of a node all of whose references have been visited. -/
def close (f : Frame) : Chain := ⟨f.pairing, true, f.children.all Chain.deepEqual, f.children⟩

/-- Steps that a stack of frames still takes if no further node is opened. -/
def work : List Frame → Nat
  | [] => 0
  | f :: below => f.pending.length + 1 + work below

end Frame

section
variable (old new : Listing)

theorem contains_results_judge (s : Comparison) (p : Pairing) (a b : Body) (n : String)
    (h : s.results.contains n = true) : (judge old new s p a b).2.results.contains n = true := by
  simp only [judge]
  split <;> simp [say, record, Std.TreeMap.contains_insert, h]

theorem contains_results_attempt (s : Comparison) (p : Pairing) (a b : Option Body) (n : String)
    (h : s.results.contains n = true) : (attempt old new s p a b).2.results.contains n = true := by
  unfold attempt
  split
  · exact contains_results_judge old new _ p _ _ n h
  · exact h

theorem contains_results_evaluate (s : Comparison) (p : Pairing) (n : String)
    (h : s.results.contains n = true) : (evaluate old new s p).2.results.contains n = true := by
  unfold evaluate
  split
  · exact h
  · exact contains_results_attempt old new _ p _ _ n
      (by simp [record, Std.TreeMap.contains_insert, h])

theorem unseen_evaluate_le (s : Comparison) (p : Pairing) :
    unseen new (evaluate old new s p).2 ≤ unseen new s := by
  refine List.countP_mono_left fun n _ hn => ?_
  cases h : s.results.contains n with
  | false => rfl
  | true => simp [contains_results_evaluate old new s p n h] at hn

/-- Only a name that the new file defines and that had no verdict yet leaves references. -/
theorem of_evaluate_eq_pending {s s' : Comparison} {p : Pairing} {refs : List Pairing}
    (h : evaluate old new s p = (.pending refs, s')) :
    p.new ∈ new.names ∧ s.results.contains p.new = false ∧ s'.results.contains p.new = true := by
  unfold evaluate at h
  split at h
  · cases h
  · next hnone =>
    have hseen := contains_results_attempt old new (s.record p.new false) p
      (old.bodyOfKind? p.kind true p.old) (new.bodyOfKind? p.kind true p.new) p.new
      (by simp [record])
    rw [h] at hseen
    refine ⟨?_, ?_, hseen⟩
    · cases hb : new.bodyOfKind? p.kind true p.new with
      | some b => exact Listing.mem_names_of_bodyOfKind? hb
      | none =>
        rw [hb] at h
        cases ha : old.bodyOfKind? p.kind true p.old <;> simp [attempt, ha] at h
    · rw [Std.TreeMap.contains_eq_isSome_getElem?, hnone]
      rfl

theorem unseen_lt_of_pending {s s' : Comparison} {p : Pairing} {refs : List Pairing}
    (h : evaluate old new s p = (.pending refs, s')) : unseen new s' < unseen new s := by
  obtain ⟨hmem, hnot, hseen⟩ := of_evaluate_eq_pending old new h
  refine countP_lt hmem (by simp [hseen]) (by simp [hnot]) fun n hn => ?_
  have hs' : s' = (evaluate old new s p).2 := by rw [h]
  cases hc : s.results.contains n with
  | false => rfl
  | true =>
    rw [hs'] at hn
    simp [contains_results_evaluate old new s p n hc] at hn

/-- Visits what is left of a stack of frames. -/
def run (top : Frame) (below : List Frame) (s : Comparison) : Chain × Comparison :=
  match top with
  | ⟨pairing, [], children⟩ =>
    match below with
    | [] => ((Frame.mk pairing [] children).close, s)
    | parent :: rest => run (parent.add (Frame.mk pairing [] children).close) rest s
  | ⟨pairing, p :: pending, children⟩ =>
    match _ : evaluate old new s p with
    | (.final equal, s') => run ⟨pairing, pending, children ++ [.leaf p equal]⟩ below s'
    | (.pending refs, s') => run ⟨p, refs, []⟩ (⟨pairing, pending, children⟩ :: below) s'
termination_by (s.unseen new, Frame.work (top :: below))
decreasing_by
  · refine Prod.Lex.right _ ?_
    simp only [Frame.work, Frame.add, List.length_nil]
    omega
  · next h =>
    have hle := unseen_evaluate_le old new s p
    rw [h] at hle
    refine Prod.Lex.right' _ hle ?_
    simp only [Frame.work, List.length_cons]
    omega
  · next h => exact Prod.Lex.left _ _ (unseen_lt_of_pending old new h)

/-- Compares a symbol of the old file with one of the new, with the verdicts found so far. -/
def compare (s : Comparison) (p : Pairing) : Chain × Comparison :=
  match evaluate old new s p with
  | (.final equal, s') => (.leaf p equal, s')
  | (.pending refs, s') => run old new ⟨p, refs, []⟩ [] s'

end

end Comparison

end AsmCompare
