import AsmCompare.Proofs.Comparison.FileRun
import Mathlib.Data.List.Nodup

/-! # The pairs of bodies that a run keeps

Judging a node for the first time keeps its two bodies, if both files have them; a cached node keeps
nothing. So pairs are only ever added, and there is at most one for a new name, whose verdict says
whether its bodies differ. The first part of this file says what one node adds to the pairs and to
the warnings; what holds after a whole run follows from it through `Visits.preserves` and
`preserves_ofNews`.
-/
namespace AsmCompare

namespace Message

theorem warnings_append (ms ns : List Message) :
    warnings (ms ++ ns) = warnings ms ++ warnings ns := by
  rw [warnings, List.filter_append, List.map_append]
  rfl

theorem warnings_normalizeMessages (b : Body) : warnings b.normalizeMessages = [] := by
  unfold Body.normalizeMessages
  split <;> rfl

end Message

namespace Comparison
variable {old new : Listing} {s s' : Comparison} {p : Pairing}

variable (old new) in
/-- The bodies of a pairing as they are kept. -/
def pairOf? (p : Pairing) : Option ComparedPair :=
  (bodies? old new p).map fun bodies => ⟨p.old, p.new, bodies.1, bodies.2⟩

theorem evaluate_eq_attempt (h : s.results[p.new]? = none) :
    evaluate old new s p = attempt old new (s.record p.new false) p
      (old.bodyOfKind? p.kind true p.old) (new.bodyOfKind? p.kind true p.new) := by
  simp [evaluate, h]

theorem pairs_judge (s : Comparison) (p : Pairing) (a b : Body) :
    (judge old new s p a b).2.pairs = s.pairs ++ [⟨p.old, p.new, a, b⟩] := by
  simp only [judge]
  split <;> rfl

theorem pairs_evaluate (h : s.results[p.new]? = none) :
    (evaluate old new s p).2.pairs = s.pairs ++ (pairOf? old new p).toList := by
  rw [evaluate_eq_attempt h, pairOf?, bodies?]
  cases old.bodyOfKind? p.kind true p.old with
  | none => cases new.bodyOfKind? p.kind true p.new <;> exact (List.append_nil _).symm
  | some a =>
    cases new.bodyOfKind? p.kind true p.new with
    | none => exact (List.append_nil _).symm
    | some b => exact pairs_judge _ p a.normalize b.normalize

/-- Bodies that agree warn of the names that their map finds in conflict, and of nothing else. -/
theorem warnings_evaluate {a b : Body} (h : s.results[p.new]? = none)
    (hb : bodies? old new p = some (a, b)) (hab : Agree a b) :
    Message.warnings (evaluate old new s p).2.messages =
      Message.warnings s.messages ++ Message.warnings (SymbolMap.ofBodies a b).messages := by
  rw [evaluate_eq_attempt h]
  unfold bodies? at hb
  split at hb
  · next f g hf hg =>
    cases hb
    have hsame : (ComparedPair.mk p.old p.new f.normalize g.normalize).isDifferent = false :=
      isDifferent_eq_false_iff.mpr hab
    simp only [hf, hg, attempt, judge, hsame, Bool.false_eq_true, ↓reduceIte, say, record,
      Message.warnings_append, Message.warnings_normalizeMessages, List.append_nil]
  · cases hb

theorem exists_judged_evaluate (h : s.results[p.new]? = none) :
    ∃ e, (e = true ↔ FlatEqual old new p) ∧ Judged s p.new e (evaluate old new s p).2 := by
  rcases @evaluate_fresh old new s p h with ⟨hne, -, hj⟩ | ⟨hf, hj, -⟩
  · exact ⟨false, by simpa using hne, hj⟩
  · exact ⟨true, by simpa using hf, hj⟩

/-- What holds of the state whenever one more node has been judged holds after a whole visit. -/
theorem Visits.preserves {P : Comparison → Prop}
    (hstep : ∀ s p, P s → P (evaluate old new s p).2) {ps : List Pairing} {cs : List Chain}
    (h : Visits old new s ps cs s') (hs : P s) : P s' := by
  induction h with
  | nil => exact hs
  | final _ _ ih => exact ih (hstep _ _ hs)
  | pending _ _ _ ihrefs ihrest => exact ihrest (ihrefs (hstep _ _ hs))

/-- No name is kept twice, and the verdict on a name that is kept is the one of its bodies. -/
structure Recorded (s : Comparison) : Prop where
  verdict : ∀ q ∈ s.pairs, s.results[q.newName]? = some (!q.isDifferent)
  nodup : (s.pairs.map ComparedPair.newName).Nodup

theorem recorded_empty : Recorded {} := by
  constructor
  · intro q hq
    cases hq
  · exact List.nodup_nil

theorem isDifferent_of_mem_pairOf? {q : ComparedPair} (hq : q ∈ pairOf? old new p) :
    q.newName = p.new ∧ (q.isDifferent = false ↔ FlatEqual old new p) := by
  obtain ⟨⟨a, b⟩, hb, rfl⟩ := Option.map_eq_some_iff.mp hq
  refine ⟨rfl, ?_⟩
  rw [isDifferent_eq_false_iff, flatEqual_iff, hb]
  simp

theorem Recorded.evaluate (hs : Recorded s) (p : Pairing) : Recorded (evaluate old new s p).2 := by
  cases hp : s.results[p.new]? with
  | some e =>
    rw [evaluate_cached hp]
    exact hs
  | none =>
    obtain ⟨e, he, hj⟩ := @exists_judged_evaluate old new s p hp
    constructor
    · intro q hq
      rw [pairs_evaluate hp, List.mem_append, Option.mem_toList] at hq
      rcases hq with hq | hq
      · exact hj.keeps hp (hs.verdict q hq)
      · obtain ⟨hname, hdiff⟩ := isDifferent_of_mem_pairOf? hq
        have hequal : e = !q.isDifferent := by
          rw [← hdiff, ← Bool.not_eq_true'] at he
          exact Bool.eq_iff_iff.mpr he
        rw [hname, ← hequal]
        exact hj.self
    · rw [pairs_evaluate hp, List.map_append, List.nodup_append]
      refine ⟨hs.nodup, ?_, ?_⟩
      · cases pairOf? old new p <;> simp
      · -- A name that is kept already has a verdict, and `p.new` had none.
        rintro n hn m hm rfl
        obtain ⟨q, hq, rfl⟩ := List.mem_map.mp hn
        obtain ⟨r, hr, hname⟩ := List.mem_map.mp hm
        rw [(isDifferent_of_mem_pairOf? (Option.mem_toList.mp hr)).1] at hname
        rw [hname, hs.verdict q hq] at hp
        cases hp

theorem Recorded.pair?_eq_some (hs : Recorded s) {q : ComparedPair} (hq : q ∈ s.pairs) :
    s.pair? q.oldName q.newName = some q := by
  unfold pair?
  cases hfind : s.pairs.find? fun r => r.oldName = q.oldName && r.newName = q.newName with
  | none =>
    have hnot := List.find?_eq_none.mp hfind q hq
    simp at hnot
  | some r =>
    have hnames := List.find?_some hfind
    simp only [Bool.and_eq_true, decide_eq_true_eq] at hnames
    have hmem := List.mem_of_find?_eq_some hfind
    exact congrArg some (List.inj_on_of_nodup_map hs.nodup hmem hq hnames.2)

theorem pairs_prefix_evaluate (s : Comparison) (p : Pairing) :
    s.pairs <+: (evaluate old new s p).2.pairs := by
  cases hp : s.results[p.new]? with
  | some e => simp [evaluate_cached hp]
  | none =>
    rw [pairs_evaluate hp]
    exact List.prefix_append _ _

/-- Pairs are only added. -/
theorem Visits.pairs_prefix {ps : List Pairing} {cs : List Chain}
    (h : Visits old new s ps cs s') : s.pairs <+: s'.pairs :=
  h.preserves (P := fun t => s.pairs <+: t.pairs)
    (fun t q ht => ht.trans (pairs_prefix_evaluate t q)) (List.prefix_refl _)

/-- A visit that starts at a name without a verdict keeps the bodies it finds there. -/
theorem Visits.mem_pairs {ps : List Pairing} {cs : List Chain}
    (h : Visits old new s (p :: ps) cs s') (hp : s.results[p.new]? = none) {q : ComparedPair}
    (hq : pairOf? old new p = some q) : q ∈ s'.pairs := by
  have hfirst : q ∈ (evaluate old new s p).2.pairs := by
    rw [pairs_evaluate hp, hq]
    simp
  cases h with
  | final _ hrest => exact hrest.pairs_prefix.subset hfirst
  | pending _ hrefs hrest => exact hrest.pairs_prefix.subset (hrefs.pairs_prefix.subset hfirst)

end Comparison

namespace Change
open Comparison
variable {old new : Listing}

section
variable {P : Comparison → Prop} (hstep : ∀ s p, P s → P (evaluate old new s p).2)
  (hsay : ∀ s ms, P s → P (s.say ms))
include hstep hsay

theorem preserves_ofNew {s : Comparison} (name : String) (kind : Symbol.Kind) (hs : P s) :
    P (ofNew old new s name kind).2 := by
  unfold ofNew
  split
  · exact hs
  · split
    · exact hsay _ _ hs
    · exact (visits_compare old new s _).preserves hstep hs

/-- What holds of the state whenever one more node has been judged holds after the comparison of
any symbols. -/
theorem preserves_ofNews (symbols : List (String × Symbol.Kind)) {s : Comparison} (hs : P s) :
    P (ofNews old new s symbols).2 := by
  induction symbols generalizing s with
  | nil => exact hs
  | cons symbol rest ih => exact ih (preserves_ofNew hstep hsay symbol.1 symbol.2 hs)

end

theorem recorded_ofNews (symbols : List (String × Symbol.Kind)) :
    Recorded (ofNews old new {} symbols).2 :=
  preserves_ofNews (fun _ p hs => hs.evaluate p) (fun _ _ hs => ⟨hs.verdict, hs.nodup⟩) symbols
    recorded_empty

theorem pairs_prefix_ofNews (symbols : List (String × Symbol.Kind)) (s : Comparison) :
    s.pairs <+: (ofNews old new s symbols).2.pairs :=
  preserves_ofNews (P := fun t => s.pairs <+: t.pairs)
    (fun t q ht => ht.trans (pairs_prefix_evaluate t q)) (fun _ _ ht => ht) symbols
    (List.prefix_refl _)

theorem ofNews_append (s : Comparison) (xs ys : List (String × Symbol.Kind)) :
    (ofNews old new s (xs ++ ys)).2 = (ofNews old new (ofNews old new s xs).2 ys).2 := by
  induction xs generalizing s with
  | nil => rfl
  | cons symbol rest ih => exact ih _

end Change

end AsmCompare
