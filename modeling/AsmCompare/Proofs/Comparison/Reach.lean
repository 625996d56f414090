import AsmCompare.Proofs.Comparison.Visit
import AsmCompare.Proofs.Edit.Table
import Mathlib.Logic.Relation

/-! # What a comparison reaches

A pairing whose bodies agree depends on the pairings of the generated names that correspond in
them. The verdict on a symbol is stated here over everything that it depends on, directly or not,
and without the order of the visit: one lemma says what judging a single node does to the verdicts,
the lemmas on `Visits` say what a whole visit leaves behind.
-/
namespace AsmCompare.Comparison
open Relation
variable (old new : Listing)

/-- The bodies of a pairing as they are compared: without debug statements, and with canonical
names for their local labels. -/
def bodies? (p : Pairing) : Option (Body × Body) :=
  match old.bodyOfKind? p.kind true p.old, new.bodyOfKind? p.kind true p.new with
  | some a, some b => some (a.normalize, b.normalize)
  | _, _ => none

/-- The statements of two bodies agree one by one. -/
def Agree (a b : Body) : Prop :=
  List.Forall₂ (fun s t => s.agrees t = true) a.statements b.statements

/-- Both files define the symbol, and the two bodies agree. -/
def FlatEqual (p : Pairing) : Prop := ∃ a b, bodies? old new p = some (a, b) ∧ Agree a b

/-- A pairing that is followed: the new name is generated, and both names are functions of their
files or both are objects. -/
def IsReference (p : Pairing) : Prop :=
  Name.isGenerated p.new = true ∧
    (p.kind = .function ∧ old.hasFunction p.old = true ∧ new.hasFunction p.new = true ∨
      p.kind = .object ∧ old.hasObject p.old = true ∧ new.hasObject p.new = true)

/-- The bodies of `p` agree, and `q` pairs two generated names that correspond in them. -/
def DependsOn (p q : Pairing) : Prop :=
  ∃ a b, bodies? old new p = some (a, b) ∧ Agree a b ∧
    (q.new, q.old) ∈ (SymbolMap.ofBodies a b).entries ∧ IsReference old new q

/-- `q` is `p` or what `p` depends on, directly or through others. -/
def Reaches : Pairing → Pairing → Prop := ReflTransGen (DependsOn old new)

/-- A dependency of a pairing on which there is no verdict yet. -/
def Follows (s : Comparison) (p q : Pairing) : Prop :=
  s.results[p.new]? = none ∧ DependsOn old new p q

variable {old new}

theorem DependsOn.flatEqual {p q : Pairing} (h : DependsOn old new p q) : FlatEqual old new p := by
  obtain ⟨a, b, hb, hab, -, -⟩ := h
  exact ⟨a, b, hb, hab⟩

theorem DependsOn.isGenerated {p q : Pairing} (h : DependsOn old new p q) :
    Name.isGenerated q.new = true := by
  obtain ⟨-, -, -, -, -, hq, -⟩ := h
  exact hq

theorem reference?_eq_some_iff {newName oldName : String} {q : Pairing} :
    reference? old new newName oldName = some q ↔
      q.new = newName ∧ q.old = oldName ∧ IsReference old new q := by
  obtain ⟨kind, o, n⟩ := q
  unfold reference? IsReference
  by_cases hg : Name.isGenerated newName = true
  · by_cases hf : (old.hasFunction oldName && new.hasFunction newName) = true
    · simp only [hg, hf, Bool.not_true, Bool.false_eq_true, ↓reduceIte, Option.some.injEq,
        Pairing.mk.injEq]
      simp only [Bool.and_eq_true] at hf
      constructor
      · rintro ⟨rfl, rfl, rfl⟩
        exact ⟨rfl, rfl, hg, .inl ⟨rfl, hf⟩⟩
      · rintro ⟨rfl, rfl, -, ⟨rfl, -⟩ | ⟨rfl, ho, -⟩⟩
        · exact ⟨rfl, rfl, rfl⟩
        · have hkind := of_decide_eq_true hf.1
          rw [of_decide_eq_true ho] at hkind
          cases hkind
    · simp only [hg, hf, Bool.not_true, Bool.false_eq_true, ↓reduceIte]
      simp only [Bool.and_eq_true] at hf
      split
      · next ho =>
        simp only [Bool.and_eq_true] at ho
        simp only [Option.some.injEq, Pairing.mk.injEq]
        constructor
        · rintro ⟨rfl, rfl, rfl⟩
          exact ⟨rfl, rfl, hg, .inr ⟨rfl, ho⟩⟩
        · rintro ⟨rfl, rfl, -, ⟨-, h⟩ | ⟨rfl, -⟩⟩
          · exact absurd h hf
          · exact ⟨rfl, rfl, rfl⟩
      · next ho =>
        simp only [Bool.and_eq_true] at ho
        simp only [reduceCtorEq, false_iff]
        rintro ⟨rfl, rfl, -, ⟨-, h⟩ | ⟨-, h⟩⟩
        · exact hf h
        · exact ho h
  · simp only [hg, Bool.not_false, ↓reduceIte, reduceCtorEq, false_iff]
    rintro ⟨rfl, -, h, -⟩
    exact hg h

theorem mem_references_iff {map : SymbolMap} {q : Pairing} :
    q ∈ references old new map ↔ (q.new, q.old) ∈ map.entries ∧ IsReference old new q := by
  unfold references SymbolMap.sorted
  simp only [List.mem_filterMap, List.mem_mergeSort, Prod.exists, reference?_eq_some_iff]
  constructor
  · rintro ⟨_, _, hmem, rfl, rfl, hq⟩
    exact ⟨hmem, hq⟩
  · rintro ⟨hmem, hq⟩
    exact ⟨_, _, hmem, rfl, rfl, hq⟩

theorem isDifferent_eq_false_iff {p : ComparedPair} : p.isDifferent = false ↔ Agree p.old p.new :=
  Edit.isDifferent_eq_false_iff Statement.agrees p.old.statements p.new.statements

instance (a b : Body) : Decidable (Agree a b) :=
  decidable_of_iff _ (Edit.isDifferent_eq_false_iff Statement.agrees a.statements b.statements)

theorem flatEqual_iff {p : Pairing} :
    FlatEqual old new p ↔ ∃ ab ∈ bodies? old new p, Agree ab.1 ab.2 :=
  ⟨fun ⟨a, b, hb, hab⟩ => ⟨(a, b), hb, hab⟩, fun ⟨ab, hb, hab⟩ => ⟨ab.1, ab.2, hb, hab⟩⟩

instance (p : Pairing) : Decidable (FlatEqual old new p) := decidable_of_iff' _ flatEqual_iff

variable (old new) in
/-- What a pairing depends on, in the order of the bodies. -/
def dependencies (p : Pairing) : List Pairing :=
  match bodies? old new p with
  | some (a, b) =>
    if Agree a b then
      (SymbolMap.ofBodies a b).entries.filterMap fun e => reference? old new e.1 e.2
    else []
  | none => []

theorem mem_dependencies {p q : Pairing} : q ∈ dependencies old new p ↔ DependsOn old new p q := by
  unfold dependencies DependsOn
  cases hb : bodies? old new p with
  | none => simp
  | some ab =>
    obtain ⟨a, b⟩ := ab
    by_cases hab : Agree a b
    · simp only [hab, ↓reduceIte, List.mem_filterMap, Prod.exists, reference?_eq_some_iff,
        Option.some.injEq, Prod.mk.injEq]
      constructor
      · rintro ⟨_, _, hmem, rfl, rfl, hq⟩
        exact ⟨a, b, ⟨rfl, rfl⟩, hab, hmem, hq⟩
      · rintro ⟨_, _, ⟨rfl, rfl⟩, -, hmem, hq⟩
        exact ⟨_, _, hmem, rfl, rfl, hq⟩
    · simp [hab]

/-- A list that holds the dependencies of its members holds whatever they reach. -/
theorem Reaches.mem_of_closed {l : List Pairing} {p q : Pairing} (h : Reaches old new p q)
    (hp : p ∈ l) (hl : ∀ r ∈ l, ∀ t ∈ dependencies old new r, t ∈ l) : q ∈ l := by
  induction h with
  | refl => exact hp
  | tail _ hrt ih => exact hl _ ih _ (mem_dependencies.mpr hrt)

/-- The verdicts after one more name has been judged. -/
def Judged (s : Comparison) (name : String) (equal : Bool) (s' : Comparison) : Prop :=
  ∀ n, s'.results[n]? = if name = n then some equal else s.results[n]?

theorem judge_cases (s : Comparison) (p : Pairing) (a b : Body) :
    (¬ Agree a b ∧ (judge old new s p a b).1 = .final false ∧
        (judge old new s p a b).2.results = s.results) ∨
      (Agree a b ∧ (judge old new s p a b).2.results = s.results.insert p.new true ∧
        (judge old new s p a b).1 = .pending (references old new (SymbolMap.ofBodies a b))) := by
  simp only [judge]
  split
  · next hd =>
    refine .inl ⟨fun hab => ?_, rfl, rfl⟩
    rw [← isDifferent_eq_false_iff (p := ⟨p.old, p.new, a, b⟩)] at hab
    rw [hab] at hd
    cases hd
  · next hd => exact .inr ⟨isDifferent_eq_false_iff.mp (Bool.eq_false_iff.mpr hd), rfl, rfl⟩

theorem attempt_of_bodies?_eq_none {p : Pairing} (h : bodies? old new p = none) (s : Comparison) :
    (attempt old new s p (old.bodyOfKind? p.kind true p.old)
        (new.bodyOfKind? p.kind true p.new)).1 = .final false ∧
      (attempt old new s p (old.bodyOfKind? p.kind true p.old)
        (new.bodyOfKind? p.kind true p.new)).2.results = s.results := by
  unfold bodies? at h
  cases ha : old.bodyOfKind? p.kind true p.old with
  | none => exact ⟨rfl, rfl⟩
  | some a =>
    cases hb : new.bodyOfKind? p.kind true p.new with
    | none => exact ⟨rfl, rfl⟩
    | some b => simp [ha, hb] at h

theorem attempt_of_bodies?_eq_some {p : Pairing} {a b : Body}
    (h : bodies? old new p = some (a, b)) (s : Comparison) :
    ∃ t : Comparison, t.results = s.results ∧
      attempt old new s p (old.bodyOfKind? p.kind true p.old)
        (new.bodyOfKind? p.kind true p.new) = judge old new t p a b := by
  unfold bodies? at h
  cases ha : old.bodyOfKind? p.kind true p.old with
  | none => simp [ha] at h
  | some a' =>
    cases hb : new.bodyOfKind? p.kind true p.new with
    | none => simp [ha, hb] at h
    | some b' =>
      simp only [ha, hb, Option.some.injEq, Prod.mk.injEq] at h
      obtain ⟨rfl, rfl⟩ := h
      exact ⟨s.say (a'.normalizeMessages ++ b'.normalizeMessages), rfl, rfl⟩

theorem evaluate_cached {s : Comparison} {p : Pairing} {equal : Bool}
    (h : s.results[p.new]? = some equal) : evaluate old new s p = (.final equal, s) := by
  simp [evaluate, h]

/-- A name without a verdict gets that of its bodies; equal bodies leave their dependencies. -/
theorem evaluate_fresh {s : Comparison} {p : Pairing} (h : s.results[p.new]? = none) :
    (¬ FlatEqual old new p ∧ (evaluate old new s p).1 = .final false ∧
        Judged s p.new false (evaluate old new s p).2) ∨
      (FlatEqual old new p ∧ Judged s p.new true (evaluate old new s p).2 ∧
        ∃ refs, (evaluate old new s p).1 = .pending refs ∧
          ∀ q, q ∈ refs ↔ DependsOn old new p q) := by
  have he : evaluate old new s p = attempt old new (s.record p.new false) p
      (old.bodyOfKind? p.kind true p.old) (new.bodyOfKind? p.kind true p.new) := by
    simp [evaluate, h]
  have hfalse : ∀ t : Comparison, t.results = (s.record p.new false).results →
      Judged s p.new false t := by
    intro t ht n
    simp [ht, record, Std.TreeMap.getElem?_insert]
  rw [he]
  cases hb : bodies? old new p with
  | none =>
    obtain ⟨hv, hr⟩ := attempt_of_bodies?_eq_none hb (s.record p.new false)
    refine .inl ⟨?_, hv, hfalse _ hr⟩
    rintro ⟨a, b, hab, -⟩
    rw [hb] at hab
    cases hab
  | some ab =>
    obtain ⟨a, b⟩ := ab
    obtain ⟨t, ht, hj⟩ := attempt_of_bodies?_eq_some hb (s.record p.new false)
    rw [hj]
    rcases judge_cases t p a b with ⟨hne, hv, hr⟩ | ⟨hab, hr, hv⟩
    · refine .inl ⟨?_, hv, hfalse _ (hr.trans ht)⟩
      rintro ⟨a', b', hab', h'⟩
      rw [hb] at hab'
      cases hab'
      exact hne h'
    · refine .inr ⟨⟨a, b, hb, hab⟩, fun n => ?_, _, hv, fun q => ?_⟩
      · rw [hr, ht]
        by_cases hn : p.new = n <;> simp [record, Std.TreeMap.getElem?_insert, hn]
      · rw [mem_references_iff]
        constructor
        · exact fun hq => ⟨a, b, hb, hab, hq⟩
        · rintro ⟨a', b', hab', -, hq⟩
          rw [hb] at hab'
          cases hab'
          exact hq

theorem of_evaluate_final {s : Comparison} {p : Pairing} {e : Bool}
    (he : (evaluate old new s p).1 = .final e) :
    (s.results[p.new]? = some e ∧ (evaluate old new s p).2 = s) ∨
      (s.results[p.new]? = none ∧ e = false ∧ ¬ FlatEqual old new p ∧
        Judged s p.new e (evaluate old new s p).2) := by
  cases hp : s.results[p.new]? with
  | some d =>
    rw [evaluate_cached hp] at he ⊢
    cases he
    exact .inl ⟨rfl, rfl⟩
  | none =>
    rcases @evaluate_fresh old new s p hp with ⟨hne, hv, hj⟩ | ⟨-, -, refs, hv, -⟩
    · rw [hv] at he
      cases he
      exact .inr ⟨rfl, rfl, hne, hj⟩
    · rw [hv] at he
      cases he

theorem of_evaluate_pending {s : Comparison} {p : Pairing} {refs : List Pairing}
    (he : (evaluate old new s p).1 = .pending refs) :
    s.results[p.new]? = none ∧ FlatEqual old new p ∧ Judged s p.new true (evaluate old new s p).2 ∧
      ∀ q, q ∈ refs ↔ DependsOn old new p q := by
  cases hp : s.results[p.new]? with
  | some d =>
    rw [evaluate_cached hp] at he
    cases he
  | none =>
    rcases @evaluate_fresh old new s p hp with ⟨-, hv, -⟩ | ⟨hf, hj, refs', hv, hrefs⟩
    · rw [hv] at he
      cases he
    · rw [hv] at he
      cases he
      exact ⟨rfl, hf, hj, hrefs⟩

namespace Judged
variable {s s' : Comparison} {name : String} {e : Bool}

theorem self (h : Judged s name e s') : s'.results[name]? = some e := by
  rw [h name, if_pos rfl]

theorem keeps (h : Judged s name e s') (hnone : s.results[name]? = none) {n : String} {d : Bool}
    (hn : s.results[n]? = some d) : s'.results[n]? = some d := by
  have hne : name ≠ n := by rintro rfl; rw [hnone] at hn; cases hn
  rw [h n, if_neg hne, hn]

theorem eq_or_none (h : Judged s name e s') {n : String} (hn : s.results[n]? = none) :
    n = name ∨ s'.results[n]? = none := by
  by_cases hne : name = n
  · exact .inl hne.symm
  · rw [h n, if_neg hne]
    exact .inr hn

theorem none_of_none (h : Judged s name e s') {n : String} (hn : s'.results[n]? = none) :
    s.results[n]? = none := by
  rw [h n] at hn
  split at hn
  · cases hn
  · exact hn

end Judged

theorem results_of_evaluate_final {s : Comparison} {p : Pairing} {e : Bool}
    (he : (evaluate old new s p).1 = .final e) :
    (evaluate old new s p).2.results[p.new]? = some e := by
  rcases of_evaluate_final he with ⟨hp, hs⟩ | ⟨-, -, -, hj⟩
  · rw [hs, hp]
  · exact hj.self

theorem evaluate_keeps {s : Comparison} (p : Pairing) {n : String} {e : Bool}
    (h : s.results[n]? = some e) : (evaluate old new s p).2.results[n]? = some e := by
  cases he : (evaluate old new s p).1 with
  | final d =>
    rcases of_evaluate_final he with ⟨-, hs⟩ | ⟨hp, -, -, hj⟩
    · rw [hs, h]
    · exact hj.keeps hp h
  | pending refs =>
    obtain ⟨hp, -, hj, -⟩ := of_evaluate_pending he
    exact hj.keeps hp h

namespace Visits
variable {s s' : Comparison} {ps : List Pairing} {cs : List Chain}

/-- A verdict is never taken back. -/
theorem keeps (h : Visits old new s ps cs s') {n : String} {e : Bool}
    (hn : s.results[n]? = some e) : s'.results[n]? = some e := by
  induction h with
  | nil s => exact hn
  | final _ _ ih => exact ih (evaluate_keeps _ hn)
  | pending _ _ _ ihrefs ihrest => exact ihrest (ihrefs (evaluate_keeps _ hn))

/-- Every pairing of the list gets a verdict, a positive one if the whole visit finds no change. -/
theorem judged (h : Visits old new s ps cs s') {p : Pairing} (hp : p ∈ ps) :
    ∃ e, s'.results[p.new]? = some e ∧ (cs.all Chain.deepEqual = true → e = true) := by
  induction h with
  | nil s => cases hp
  | @final s s' q ps cs e he hrest ih =>
    rcases List.mem_cons.mp hp with rfl | hp
    · refine ⟨e, hrest.keeps (results_of_evaluate_final he), ?_⟩
      simp only [List.all_cons, Bool.and_eq_true]
      exact fun hall => hall.1
    · obtain ⟨d, hd, hall⟩ := ih hp
      refine ⟨d, hd, ?_⟩
      simp only [List.all_cons, Bool.and_eq_true]
      exact fun h => hall h.2
  | @pending s mid s' q refs ps ds cs he hrefs hrest _ ih =>
    rcases List.mem_cons.mp hp with rfl | hp
    · obtain ⟨-, -, hj, -⟩ := of_evaluate_pending he
      exact ⟨true, hrest.keeps (hrefs.keeps hj.self), fun _ => rfl⟩
    · obtain ⟨d, hd, hall⟩ := ih hp
      refine ⟨d, hd, ?_⟩
      simp only [List.all_cons, Bool.and_eq_true]
      exact fun h => hall h.2

theorem none_of_none (h : Visits old new s ps cs s') {n : String} (hn : s'.results[n]? = none) :
    s.results[n]? = none := by
  cases hs : s.results[n]? with
  | none => rfl
  | some e => rw [h.keeps hs] at hn; cases hn

end Visits

theorem follows_mono {s t : Comparison}
    (h : ∀ n : String, t.results[n]? = none → s.results[n]? = none) {p q : Pairing}
    (hpq : ReflTransGen (Follows old new t) p q) : ReflTransGen (Follows old new s) p q :=
  ReflTransGen.mono (fun _ _ hab => ⟨h _ hab.1, hab.2⟩) p q hpq

variable (old new) in
/-- Why a visit of `ps` from `s` to `s'` gave the verdict `e`: it is that of `q`, which was reached
without passing a name that had its verdict before, and the dependencies of `q` have their verdicts
at the end. If the visit finds no change, all these verdicts are positive. -/
structure Explains (s s' : Comparison) (ps : List Pairing) (unchanged e : Bool) (q : Pairing) :
    Prop where
  reached : ∃ p ∈ ps, ReflTransGen (Follows old new s) p q
  verdict : e = true ↔ FlatEqual old new q
  positive : unchanged = true → e = true
  closed : ∀ r, DependsOn old new q r →
    ∃ d, s'.results[r.new]? = some d ∧ (unchanged = true → d = true)

theorem Explains.weaken {s t s' t' : Comparison} {ps qs : List Pairing} {u v e : Bool} {q : Pairing}
    (h : Explains old new t t' qs v e q)
    (hr : ∀ p ∈ qs, ReflTransGen (Follows old new t) p q →
      ∃ p' ∈ ps, ReflTransGen (Follows old new s) p' q)
    (hk : ∀ {n : String} {d : Bool}, t'.results[n]? = some d → s'.results[n]? = some d)
    (hu : u = true → v = true) : Explains old new s s' ps u e q := by
  obtain ⟨p, hp, hpq⟩ := h.reached
  refine ⟨hr p hp hpq, h.verdict, fun hu' => h.positive (hu hu'), ?_⟩
  intro r hqr
  obtain ⟨d, hd, hd'⟩ := h.closed r hqr
  exact ⟨d, hk hd, fun hu' => hd' (hu hu')⟩

namespace Visits
variable {s s' : Comparison} {ps : List Pairing} {cs : List Chain}

/-- Every new verdict of a visit is that of a pairing which the visit reached. -/
theorem exists_explains (h : Visits old new s ps cs s') {n : String} {e : Bool}
    (hn : s.results[n]? = none) (hn' : s'.results[n]? = some e) :
    ∃ q, q.new = n ∧ Explains old new s s' ps (cs.all Chain.deepEqual) e q := by
  induction h with
  | nil s => rw [hn] at hn'; cases hn'
  | @final s s' p ps cs d he hrest ih =>
    -- Whatever explains a verdict of the rest of the list explains it for the whole list.
    have hlift :
        (∀ m : String, (evaluate old new s p).2.results[m]? = none → s.results[m]? = none) →
        (evaluate old new s p).2.results[n]? = none →
        ∃ q, q.new = n ∧
          Explains old new s s' (p :: ps) ((Chain.leaf p d :: cs).all Chain.deepEqual) e q := by
      intro hmono h1
      obtain ⟨q, hq, hx⟩ := ih h1 hn'
      refine ⟨q, hq, hx.weaken (fun p' hp' hpq => ?_) id fun hu => ?_⟩
      · exact ⟨p', List.mem_cons_of_mem p hp', follows_mono hmono hpq⟩
      · exact (Bool.and_eq_true_iff.mp hu).2
    rcases of_evaluate_final he with ⟨-, hs⟩ | ⟨-, rfl, hne, hj⟩
    · exact hlift (fun m hm => by rwa [hs] at hm) (by rwa [hs])
    · rcases hj.eq_or_none hn with rfl | h1
      · rw [hrest.keeps hj.self] at hn'
        cases hn'
        refine ⟨p, rfl, ⟨p, List.mem_cons_self, .refl⟩, by simpa using hne, ?_, ?_⟩
        · exact fun hu => (Bool.and_eq_true_iff.mp hu).1
        · exact fun r hr => absurd hr.flatEqual hne
      · exact hlift (fun _ => hj.none_of_none) h1
  | @pending s mid s' p refs ps ds cs he hrefs hrest ihrefs ihrest =>
    obtain ⟨hp, hf, hj, hmem⟩ := of_evaluate_pending he
    rcases hj.eq_or_none hn with rfl | h1
    · rw [hrest.keeps (hrefs.keeps hj.self)] at hn'
      cases hn'
      refine ⟨p, rfl, ⟨p, List.mem_cons_self, .refl⟩, by simpa using hf, fun _ => rfl, ?_⟩
      intro r hr
      obtain ⟨d, hd, hd'⟩ := hrefs.judged ((hmem r).mpr hr)
      exact ⟨d, hrest.keeps hd, fun hu => hd' (Bool.and_eq_true_iff.mp hu).1⟩
    · cases hm : mid.results[n]? with
      | some d =>
        rw [hrest.keeps hm] at hn'
        cases hn'
        obtain ⟨q, hq, hx⟩ := ihrefs h1 hm
        refine ⟨q, hq, hx.weaken (fun r hr hrq => ?_) hrest.keeps fun hu => ?_⟩
        · have hpr : Follows old new s p r := ⟨hp, (hmem r).mp hr⟩
          have hrq' := follows_mono (fun _ => hj.none_of_none) hrq
          exact ⟨p, List.mem_cons_self, .head hpr hrq'⟩
        · exact (Bool.and_eq_true_iff.mp hu).1
      | none =>
        obtain ⟨q, hq, hx⟩ := ihrest hm hn'
        refine ⟨q, hq, hx.weaken (fun p' hp' hpq => ?_) id fun hu => ?_⟩
        · have hpq' := follows_mono (fun _ h => hj.none_of_none (hrefs.none_of_none h)) hpq
          exact ⟨p', List.mem_cons_of_mem p hp', hpq'⟩
        · exact (Bool.and_eq_true_iff.mp hu).2

/-- A change that a visit finds shows in a negative verdict on something it reached. -/
theorem exists_false (h : Visits old new s ps cs s') (hc : cs.all Chain.deepEqual = false) :
    ∃ q, (∃ p ∈ ps, ReflTransGen (Follows old new s) p q) ∧ s'.results[q.new]? = some false := by
  induction h with
  | nil s => cases hc
  | @final s s' p ps cs d he hrest ih =>
    rcases Bool.and_eq_false_iff.mp hc with hd | hc
    · have hd : d = false := hd
      subst hd
      exact ⟨p, ⟨p, List.mem_cons_self, .refl⟩, hrest.keeps (results_of_evaluate_final he)⟩
    · obtain ⟨q, ⟨p', hp', hq⟩, hf⟩ := ih hc
      refine ⟨q, ⟨p', List.mem_cons_of_mem p hp', ?_⟩, hf⟩
      rcases of_evaluate_final he with ⟨-, hs⟩ | ⟨-, -, -, hj⟩
      · rwa [hs] at hq
      · exact follows_mono (fun _ => hj.none_of_none) hq
  | @pending s mid s' p refs ps ds cs he hrefs hrest ihrefs ihrest =>
    obtain ⟨hp, -, hj, hmem⟩ := of_evaluate_pending he
    rcases Bool.and_eq_false_iff.mp hc with hd | hc
    · obtain ⟨q, ⟨r, hr, hq⟩, hf⟩ := ihrefs hd
      have hstep : Follows old new s p r := ⟨hp, (hmem r).mp hr⟩
      have hq' := ReflTransGen.head hstep (follows_mono (fun _ => hj.none_of_none) hq)
      exact ⟨q, ⟨p, List.mem_cons_self, hq'⟩, hrest.keeps hf⟩
    · obtain ⟨q, ⟨p', hp', hq⟩, hf⟩ := ihrest hc
      have hq' := follows_mono (fun _ h => hj.none_of_none (hrefs.none_of_none h)) hq
      exact ⟨q, ⟨p', List.mem_cons_of_mem p hp', hq'⟩, hf⟩

end Visits

end AsmCompare.Comparison
