import AsmCompare.Proofs.Comparison.Reach

/-! # Deep equality is flat equality of everything reached

The cache is filled with a positive verdict before the dependencies of a node are visited. If no
new name is paired in two ways, this does no harm whatever the shape of the references: a node that
is read from the cache has its own dependencies visited elsewhere in the same run, and a change
found there reaches the root on that other way.
-/
namespace AsmCompare.Comparison
open Relation

/-- No new name occurs with two different kinds or old names. -/
def OnePartner (reached : Pairing → Prop) : Prop :=
  ∀ p q, reached p → reached q → p.new = q.new → p = q

variable {old new : Listing}

namespace Visits
variable {s s' : Comparison} {p : Pairing} {c : Chain}

theorem explains_of_onePartner (h : Visits old new s [p] [c] s')
    (hone : OnePartner (ReflTransGen (Follows old new s) p)) {q : Pairing}
    (hq : ReflTransGen (Follows old new s) p q) (hnone : s.results[q.new]? = none) {e : Bool}
    (he : s'.results[q.new]? = some e) : Explains old new s s' [p] c.deepEqual e q := by
  obtain ⟨q', hname, hx⟩ := h.exists_explains hnone he
  obtain ⟨p', hp', hq'⟩ := hx.reached
  obtain rfl := List.mem_singleton.mp hp'
  obtain rfl := hone _ _ hq' hq hname
  simpa using hx

/-- Everything that a visit can follow has a verdict at the end, and a positive one if the visit
finds no change. -/
theorem exists_verdict (h : Visits old new s [p] [c] s')
    (hone : OnePartner (ReflTransGen (Follows old new s) p)) {q : Pairing}
    (hq : ReflTransGen (Follows old new s) p q) :
    ∃ e, s'.results[q.new]? = some e ∧ (c.deepEqual = true → e = true) := by
  induction hq with
  | refl =>
    obtain ⟨e, he, hall⟩ := h.judged List.mem_cons_self
    exact ⟨e, he, by simpa using hall⟩
  | tail hpq hqr ih =>
    obtain ⟨e, he, -⟩ := ih
    exact (h.explains_of_onePartner hone hpq hqr.1 he).closed _ hqr.2

/-- The verdict on the root, from any state of the cache. -/
theorem deepEqual_iff (h : Visits old new s [p] [c] s')
    (hone : OnePartner (ReflTransGen (Follows old new s) p)) :
    c.deepEqual = true ↔
      ∀ q, ReflTransGen (Follows old new s) p q → s'.results[q.new]? = some true := by
  constructor
  · intro hc q hq
    obtain ⟨e, he, hpos⟩ := h.exists_verdict hone hq
    rw [he, hpos hc]
  · intro hall
    by_contra hc
    obtain ⟨q, ⟨p', hp', hq⟩, hf⟩ := h.exists_false (by simpa using hc)
    obtain rfl := List.mem_singleton.mp hp'
    rw [hall q hq] at hf
    cases hf

end Visits

theorem results_empty (n : String) : ({} : Comparison).results[n]? = none := by
  simp

theorem follows_empty : Follows old new {} = DependsOn old new := by
  funext p q
  simp [Follows]

theorem Visits.deepEqual_iff_of_empty {s' : Comparison} {p : Pairing} {c : Chain}
    (h : Visits old new {} [p] [c] s') (hone : OnePartner (Reaches old new p)) :
    c.deepEqual = true ↔ ∀ q, Reaches old new p q → FlatEqual old new q := by
  have hone' : OnePartner (ReflTransGen (Follows old new {}) p) := by rwa [follows_empty]
  rw [h.deepEqual_iff hone']
  refine forall_congr' fun q => ?_
  rw [follows_empty]
  refine imp_congr_right fun hq => ?_
  have hq' : ReflTransGen (Follows old new {}) p q := by rwa [follows_empty]
  obtain ⟨e, he, -⟩ := h.exists_verdict hone' hq'
  rw [he, Option.some.injEq]
  exact (h.explains_of_onePartner hone' hq' (results_empty _) he).verdict

/-- Compared alone, a symbol is deep-equal exactly if every pairing that it reaches is flat-equal,
for references of any shape. -/
theorem compare_deepEqual_iff (old new : Listing) (p : Pairing)
    (hone : OnePartner (Reaches old new p)) :
    (compare old new {} p).1.deepEqual = true ↔
      ∀ q, Reaches old new p q → FlatEqual old new q :=
  (visits_compare old new {} p).deepEqual_iff_of_empty hone

/-- Three objects, two of which refer to each other in a circle. -/
def circleOld : Listing := .load "a.s" "m:.quad a.0;a.0:.quad b.0;b.0:.quad a.0"

def circleNew : Listing := .load "b.s" "m:.quad c.0;c.0:.quad d.0;d.0:.quad c.0"

def circlePairings : List Pairing :=
  [⟨.object, "m", "m"⟩, ⟨.object, "a.0", "c.0"⟩, ⟨.object, "b.0", "d.0"⟩]

theorem compare_deepEqual_circle :
    OnePartner (Reaches circleOld circleNew ⟨.object, "m", "m"⟩) ∧
      (compare circleOld circleNew {} ⟨.object, "m", "m"⟩).1.deepEqual = true := by
  have hrun : (∀ p ∈ circlePairings, ∀ q ∈ dependencies circleOld circleNew p,
        q ∈ circlePairings) ∧
      ∀ q ∈ circlePairings, FlatEqual circleOld circleNew q := by decide +kernel
  obtain ⟨hclosed, hflat⟩ := hrun
  have hmem : ∀ q, Reaches circleOld circleNew ⟨.object, "m", "m"⟩ q → q ∈ circlePairings :=
    fun q hq => hq.mem_of_closed (by decide) hclosed
  have hnames : ∀ p ∈ circlePairings, ∀ q ∈ circlePairings, p.new = q.new → p = q := by decide
  have hone : OnePartner (Reaches circleOld circleNew ⟨.object, "m", "m"⟩) :=
    fun p q hp hq => hnames p (hmem p hp) q (hmem q hq)
  exact ⟨hone, (compare_deepEqual_iff _ _ _ hone).mpr fun q hq => hflat q (hmem q hq)⟩

end AsmCompare.Comparison
