import AsmCompare.Proofs.Comparison.FileRun

/-! # Symbols that share what they refer to

A pairing that an earlier symbol reached is not followed again: its own verdict stands for all that
it depends on. A symbol therefore has its status alone if it meets nothing that was reached before,
and else exactly if a change is found without passing such a pairing, or if there is none at all.
-/
namespace AsmCompare
open Relation

namespace Comparison
variable {old new : Listing}

def SameOn (names : String → Prop) (s t : Comparison) : Prop :=
  ∀ n, names n → s.results[n]? = t.results[n]?

theorem attempt_fst_congr (s t : Comparison) (p : Pairing) (a b : Option Body) :
    (attempt old new s p a b).1 = (attempt old new t p a b).1 := by
  unfold attempt
  split
  · simp only [judge]
    split <;> rfl
  · rfl

variable (old new) in
theorem evaluate_fst_congr {s t : Comparison} {p : Pairing}
    (h : s.results[p.new]? = t.results[p.new]?) :
    (evaluate old new s p).1 = (evaluate old new t p).1 := by
  unfold evaluate
  rw [h]
  split
  · rfl
  · exact attempt_fst_congr _ _ p _ _

theorem SameOn.evaluate {names : String → Prop} {s t : Comparison} (h : SameOn names s t)
    {p : Pairing} (hp : names p.new) :
    SameOn names (evaluate old new s p).2 (evaluate old new t p).2 := by
  intro n hn
  have hst := h _ hp
  cases hs : s.results[p.new]? with
  | some e =>
    rw [evaluate_cached hs, evaluate_cached (hst.symm.trans hs)]
    exact h n hn
  | none =>
    have ht : t.results[p.new]? = none := hst.symm.trans hs
    rcases @evaluate_fresh old new s p hs with ⟨hf, -, hj⟩ | ⟨hf, hj, -⟩
    · rcases @evaluate_fresh old new t p ht with ⟨-, -, hj'⟩ | ⟨hf', -⟩
      · rw [hj n, hj' n, h n hn]
      · exact absurd hf' hf
    · rcases @evaluate_fresh old new t p ht with ⟨hf', -⟩ | ⟨-, hj', -⟩
      · exact absurd hf hf'
      · rw [hj n, hj' n, h n hn]

namespace Visits
variable {s s' t t' : Comparison} {ps : List Pairing} {cs ds : List Chain}

/-- A visit reads the verdicts on the names that it reaches, and no others. -/
theorem congr {names : String → Prop} (h : Visits old new s ps cs s')
    (hn : ∀ p ∈ ps, ∀ q, Reaches old new p q → names q.new) (hst : SameOn names s t)
    (h' : Visits old new t ps ds t') : cs = ds ∧ SameOn names s' t' := by
  induction h generalizing t ds t' with
  | nil s =>
    cases h'
    exact ⟨rfl, hst⟩
  | @final s _ p _ _ _ he _ ih =>
    have hp := hn p List.mem_cons_self p .refl
    have hsame := evaluate_fst_congr old new (hst _ hp)
    have hrest := fun q hq => hn q (List.mem_cons_of_mem p hq)
    cases h' with
    | final he' h' =>
      rw [← hsame, he] at he'
      cases he'
      obtain ⟨rfl, hst'⟩ := ih hrest (hst.evaluate hp) h'
      exact ⟨rfl, hst'⟩
    | pending he' =>
      rw [← hsame, he] at he'
      cases he'
  | @pending s _ _ p _ _ _ _ he _ _ ihrefs ihrest =>
    have hp := hn p List.mem_cons_self p .refl
    have hsame := evaluate_fst_congr old new (hst _ hp)
    obtain ⟨-, -, -, hmem⟩ := of_evaluate_pending he
    have hrefs := fun r hr q hq => hn p List.mem_cons_self q (.head ((hmem r).mp hr) hq)
    have hrest := fun q hq => hn q (List.mem_cons_of_mem p hq)
    cases h' with
    | final he' =>
      rw [← hsame, he] at he'
      cases he'
    | pending he' hrefs' hrest' =>
      rw [← hsame, he] at he'
      cases he'
      obtain ⟨rfl, hmid⟩ := ihrefs hrefs (hst.evaluate hp) hrefs'
      obtain ⟨rfl, hst'⟩ := ihrest hrest hmid hrest'
      exact ⟨rfl, hst'⟩

/-- A name that was not judged before gets its own verdict, and no change is overlooked in it. -/
theorem flatEqual_iff {p : Pairing} {c : Chain} (h : Visits old new s [p] [c] s')
    (hnone : s.results[p.new]? = none) :
    (c.flatEqual = true ↔ FlatEqual old new p) ∧ (c.deepEqual = true → c.flatEqual = true) := by
  cases h with
  | final he _ =>
    rcases of_evaluate_final he with ⟨hsome, -⟩ | ⟨-, rfl, hne, -⟩
    · rw [hnone] at hsome
      cases hsome
    · exact ⟨by simpa [Chain.leaf] using hne, id⟩
  | pending he _ _ =>
    obtain ⟨-, hf, -, -⟩ := of_evaluate_pending he
    exact ⟨by simpa using hf, fun _ => rfl⟩

end Visits

theorem compare_flatEqual_iff {p : Pairing} :
    (compare old new {} p).1.flatEqual = true ↔ FlatEqual old new p :=
  ((visits_compare old new {} p).flatEqual_iff (results_empty _)).1

end Comparison

namespace Change
open Comparison

theorem Status.ofChain_eq_changed_iff {c : Chain} :
    Status.ofChain c = .changed ↔ c.flatEqual = false := by
  unfold Status.ofChain
  cases c.flatEqual <;> cases c.deepEqual <;> simp

theorem Status.ofChain_ne_new (c : Chain) : Status.ofChain c ≠ .new := by
  unfold Status.ofChain
  cases c.flatEqual <;> cases c.deepEqual <;> simp

theorem Status.ofChain_ne_removed (c : Chain) : Status.ofChain c ≠ .removed := by
  unfold Status.ofChain
  cases c.flatEqual <;> cases c.deepEqual <;> simp

theorem Status.ofChain_eq_unchanged_iff {c : Chain} :
    Status.ofChain c = .unchanged ↔ c.flatEqual = true ∧ c.deepEqual = true := by
  unfold Status.ofChain
  cases c.flatEqual <;> cases c.deepEqual <;> simp

theorem Status.ofChain_eq_iff {c d : Chain} (hflat : c.flatEqual = d.flatEqual)
    (hc : c.deepEqual = true → c.flatEqual = true) (hd : d.deepEqual = true → d.flatEqual = true) :
    Status.ofChain c = Status.ofChain d ↔ c.deepEqual = d.deepEqual := by
  rw [hflat] at hc
  unfold Status.ofChain
  rw [hflat]
  revert hc hd
  cases d.flatEqual <;> cases c.deepEqual <;> cases d.deepEqual <;> simp

/-- Where two chains with one flat verdict differ, a change is overlooked in the first. -/
theorem Status.ofChain_of_ne {c d : Chain} (hflat : c.flatEqual = d.flatEqual)
    (hc : c.deepEqual = true → c.flatEqual = true) (hdc : d.deepEqual = true → c.deepEqual = true)
    (hne : Status.ofChain c ≠ Status.ofChain d) :
    Status.ofChain c = .unchanged ∧ Status.ofChain d = .dependencyChanged := by
  rw [hflat] at hc
  unfold Status.ofChain at hne ⊢
  rw [hflat] at hne ⊢
  revert hc hdc hne
  cases d.flatEqual <;> cases c.deepEqual <;> cases d.deepEqual <;> simp

section
variable (old new : Listing)

/-- A symbol with a name of its own that has this kind in both files. -/
def Common (name : String) (kind : Symbol.Kind) : Prop :=
  topLevelKind? old name = some kind ∧ topLevelKind? new name = some kind

/-- What a common symbol with a smaller name reaches. -/
def ReachedBefore (name : String) (q : Pairing) : Prop :=
  ∃ m k, m < name ∧ Common old new m k ∧ Reaches old new ⟨k, m, m⟩ q

/-- What is reached without passing a pairing that was reached before. -/
def ReachesFirst (name : String) : Pairing → Pairing → Prop :=
  ReflTransGen fun q r => ¬ ReachedBefore old new name q ∧ DependsOn old new q r

/-- The status of a common symbol that is compared alone. -/
def statusAlone (name : String) (kind : Symbol.Kind) : Status :=
  .ofChain (compare old new {} ⟨kind, name, name⟩).1

end

variable {old new : Listing}

theorem ReachesFirst.reaches {name : String} {p q : Pairing}
    (h : ReachesFirst old new name p q) : Reaches old new p q :=
  ReflTransGen.mono (fun _ _ hab => hab.2) p q h

theorem reachedBefore_iff {before after : List (String × Symbol.Kind)} {name : String}
    {kind : Symbol.Kind} (h : topLevel new = before ++ (name, kind) :: after) {q : Pairing} :
    ReachedBefore old new name q ↔ ∃ p ∈ roots old before, Reaches old new p q := by
  simp only [roots, List.mem_map, List.mem_filter, decide_eq_true_eq]
  constructor
  · rintro ⟨m, k, hlt, ⟨hold, hnew⟩, hq⟩
    exact ⟨⟨k, m, m⟩, ⟨(m, k), ⟨(mem_before_iff h).mpr ⟨hlt, hnew⟩, hold⟩, rfl⟩, hq⟩
  · rintro ⟨p, ⟨⟨m, k⟩, ⟨hmem, hold⟩, rfl⟩, hq⟩
    obtain ⟨hlt, hnew⟩ := (mem_before_iff h).mp hmem
    exact ⟨m, k, hlt, ⟨hold, hnew⟩, hq⟩

theorem not_reachedBefore_self {name : String} {kind : Symbol.Kind}
    (h : Common old new name kind) : ¬ ReachedBefore old new name ⟨kind, name, name⟩ := by
  rintro ⟨m, k, hlt, -, hq⟩
  rcases hq.eq_or_isGenerated with heq | hgen
  · cases heq
    exact String.lt_irrefl _ hlt
  · rw [(topLevelKind?_eq_some_iff.mp h.2).1] at hgen
    cases hgen

section
variable {before after : List (String × Symbol.Kind)} {name : String} {kind : Symbol.Kind}

/-- If no new name has two partners, the names with a verdict are those reached before. -/
theorem results_before_eq_none_iff (h : topLevel new = before ++ (name, kind) :: after)
    {p : Pairing}
    (hone : OnePartner fun q => Reaches old new p q ∨ ReachedBefore old new name q) {q : Pairing}
    (hq : Reaches old new p q) :
    (ofNews old new {} before).2.results[q.new]? = none ↔ ¬ ReachedBefore old new name q := by
  have hexp := @explored_before old new before
  constructor
  · intro hnone hbefore
    obtain ⟨r, hr, hrq⟩ := (reachedBefore_iff h).mp hbefore
    have hW : ∀ p' ∈ roots old before, ∀ t, Reaches old new p' t →
        Reaches old new p t ∨ ReachedBefore old new name t :=
      fun p' hp' t ht => .inr ((reachedBefore_iff h).mpr ⟨p', hp', ht⟩)
    obtain ⟨e, he, -⟩ := hexp.verdict hone hW hr hrq
    rw [hnone] at he
    cases he
  · intro hbefore
    cases hn : (ofNews old new {} before).2.results[q.new]? with
    | none => rfl
    | some e =>
      obtain ⟨r, hr, hreached, -⟩ := hexp.sound _ _ hn
      have hr' := (reachedBefore_iff h).mpr hreached
      obtain rfl := hone _ _ (.inr hr') (.inl hq) hr
      exact absurd hr' hbefore

theorem follows_before_iff (h : topLevel new = before ++ (name, kind) :: after) {p : Pairing}
    (hone : OnePartner fun q => Reaches old new p q ∨ ReachedBefore old new name q) {q : Pairing} :
    ReflTransGen (Follows old new (ofNews old new {} before).2) p q ↔
      ReachesFirst old new name p q := by
  constructor
  · intro hq
    induction hq with
    | refl => exact .refl
    | tail hpq hqr ih =>
      exact ih.tail ⟨(results_before_eq_none_iff h hone (.of_follows hpq)).mp hqr.1, hqr.2⟩
  · intro hq
    induction hq with
    | refl => exact .refl
    | tail _ hqr ih =>
      exact ih.tail ⟨(results_before_eq_none_iff h hone (.of_follows ih)).mpr hqr.1, hqr.2⟩

theorem deepEqual_before_iff (h : topLevel new = before ++ (name, kind) :: after) {p : Pairing}
    (hone : OnePartner fun q => Reaches old new p q ∨ ReachedBefore old new name q) :
    (compare old new (ofNews old new {} before).2 p).1.deepEqual = true ↔
      ∀ q, ReachesFirst old new name p q → FlatEqual old new q := by
  have hv := visits_compare old new (ofNews old new {} before).2 p
  have hone' : OnePartner (ReflTransGen (Follows old new (ofNews old new {} before).2) p) :=
    fun q r hq hr => hone q r (.inl (.of_follows hq)) (.inl (.of_follows hr))
  have hW : ∀ p' ∈ roots old before ++ [p], ∀ q, Reaches old new p' q →
      Reaches old new p q ∨ ReachedBefore old new name q := by
    intro p' hp' q hq
    rcases List.mem_append.mp hp' with hp' | hp'
    · exact .inr ((reachedBefore_iff h).mpr ⟨p', hp', hq⟩)
    · obtain rfl := List.mem_singleton.mp hp'
      exact .inl hq
  rw [hv.deepEqual_iff hone']
  refine forall_congr' fun q => ?_
  rw [follows_before_iff h hone]
  refine imp_congr_right fun hq => ?_
  obtain ⟨e, he, hflat⟩ := ((explored_before before).visits hv).verdict hone hW
    (List.mem_append_right _ List.mem_cons_self) hq.reaches
  rw [he, Option.some.injEq]
  exact hflat

/-- A symbol that meets no name reached before is compared as if it were alone. -/
theorem compare_before_of_disjoint (h : topLevel new = before ++ (name, kind) :: after)
    {p : Pairing} (hdisj : ∀ q r, Reaches old new p q → ReachedBefore old new name r →
      q.new ≠ r.new) :
    (compare old new (ofNews old new {} before).2 p).1 = (compare old new {} p).1 := by
  have hsame : SameOn (fun n => ∃ q, Reaches old new p q ∧ q.new = n)
      (ofNews old new {} before).2 {} := by
    rintro n ⟨q, hq, rfl⟩
    rw [results_empty]
    cases hn : (ofNews old new {} before).2.results[q.new]? with
    | none => rfl
    | some e =>
      obtain ⟨r, hr, hreached, -⟩ := (explored_before before).sound _ _ hn
      exact absurd hr.symm (hdisj q r hq ((reachedBefore_iff h).mpr hreached))
  have hnames : ∀ p' ∈ [p], ∀ q, Reaches old new p' q → ∃ q', Reaches old new p q' ∧
      q'.new = q.new := by
    intro p' hp' q hq
    obtain rfl := List.mem_singleton.mp hp'
    exact ⟨q, hq, rfl⟩
  obtain ⟨heq, -⟩ := (visits_compare old new (ofNews old new {} before).2 p).congr hnames hsame
    (visits_compare old new {} p)
  exact List.singleton_inj.mp heq

end

theorem exists_mem_ofListings_of_common {name : String} {kind : Symbol.Kind}
    (h : Common old new name kind) : ∃ c ∈ (ofListings old new {}).1, c.name = name := by
  have hmem : (name, kind) ∈ topLevel new := mem_topLevel.mpr h.2
  obtain ⟨before, after, hsplit⟩ := List.append_of_mem hmem
  refine ⟨(ofNew old new (ofNews old new {} before).2 name kind).1, ?_, name_ofNew _ _ _⟩
  exact mem_ofListings_iff.mpr (.inl (mem_ofNews_iff.mpr ⟨before, name, kind, after, hsplit, rfl⟩))

/-- The status of a common symbol is found in its turn, with its own flat verdict. -/
theorem exists_before_of_mem {c : Change} (hc : c ∈ (ofListings old new {}).1)
    {kind : Symbol.Kind} (h : Common old new c.name kind) :
    ∃ before after d, topLevel new = before ++ (c.name, kind) :: after ∧
      d = (compare old new (ofNews old new {} before).2 ⟨kind, c.name, c.name⟩).1 ∧
      c.status = .ofChain d ∧ (d.flatEqual = true ↔ FlatEqual old new ⟨kind, c.name, c.name⟩) ∧
      (d.deepEqual = true → d.flatEqual = true) := by
  obtain ⟨before, after, hsplit, hc'⟩ := (mem_ofListings_iff_of_topLevelKind? h.2).mp hc
  rw [ofNew_of_topLevelKind? h.1] at hc'
  have hstatus := congrArg Change.status hc'
  have hv := visits_compare old new (ofNews old new {} before).2 ⟨kind, c.name, c.name⟩
  obtain ⟨hflat, hdeep⟩ := hv.flatEqual_iff (results_before hsplit)
  exact ⟨before, after, _, hsplit, rfl, hstatus, hflat, hdeep⟩

/-- If no new name has two partners, a common symbol is reported as unchanged exactly if all that
it reaches first is flat-equal. -/
theorem status_eq_unchanged_iff {c : Change} (hc : c ∈ (ofListings old new {}).1)
    {kind : Symbol.Kind} (h : Common old new c.name kind)
    (hone : OnePartner fun q =>
      Reaches old new ⟨kind, c.name, c.name⟩ q ∨ ReachedBefore old new c.name q) :
    c.status = .unchanged ↔
      ∀ q, ReachesFirst old new c.name ⟨kind, c.name, c.name⟩ q → FlatEqual old new q := by
  obtain ⟨before, after, d, hsplit, rfl, hstatus, -, hdeep⟩ := exists_before_of_mem hc h
  rw [hstatus, Status.ofChain_eq_unchanged_iff, ← deepEqual_before_iff hsplit hone]
  exact ⟨fun hd => hd.2, fun hd => ⟨hdeep hd, hd⟩⟩

/-- What a common symbol reaches is reached first by one of them. -/
theorem exists_reachesFirst {name : String} {kind : Symbol.Kind} (h : Common old new name kind)
    {q : Pairing} (hq : Reaches old new ⟨kind, name, name⟩ q) :
    ∃ m k, Common old new m k ∧ ReachesFirst old new m ⟨k, m, m⟩ q := by
  classical
  -- The first symbol in the order of names that reaches `q`.
  let reaches : String × Symbol.Kind → Bool := fun symbol =>
    decide (Common old new symbol.1 symbol.2 ∧ Reaches old new (root symbol) q)
  have hfound : ((topLevel new).find? reaches).isSome = true := by
    rw [List.find?_isSome]
    exact ⟨(name, kind), mem_topLevel.mpr h.2, decide_eq_true ⟨h, hq⟩⟩
  obtain ⟨⟨m, k⟩, hm⟩ := Option.isSome_iff_exists.mp hfound
  obtain ⟨hreach, before, after, hsplit, hnone⟩ := List.find?_eq_some_iff_append.mp hm
  obtain ⟨hcommon, hmq⟩ := of_decide_eq_true hreach
  have hfirst : ∀ r, Reaches old new r q → ¬ ReachedBefore old new m r := by
    rintro r hrq ⟨m', k', hlt, hcommon', hr⟩
    have hbefore : (m', k') ∈ before := (mem_before_iff hsplit).mpr ⟨hlt, hcommon'.2⟩
    have hnot := hnone _ hbefore
    have hyes : reaches (m', k') = true := decide_eq_true ⟨hcommon', hr.trans hrq⟩
    rw [hyes] at hnot
    cases hnot
  refine ⟨m, k, hcommon, ?_⟩
  have hpath : ∀ r, Reaches old new r q → ReachesFirst old new m r q := by
    intro r hr
    induction hr using ReflTransGen.head_induction_on with
    | refl => exact .refl
    | head hstep hrest ih => exact .head ⟨hfirst _ (.head hstep hrest), hstep⟩ ih
  exact hpath _ hmq

theorem onePartner_before
    (hone : OnePartner fun q => ∃ m k, Common old new m k ∧ Reaches old new ⟨k, m, m⟩ q)
    {name : String} {kind : Symbol.Kind} (h : Common old new name kind) :
    OnePartner fun q => Reaches old new ⟨kind, name, name⟩ q ∨ ReachedBefore old new name q := by
  have hreached : ∀ q, Reaches old new ⟨kind, name, name⟩ q ∨ ReachedBefore old new name q →
      ∃ m k, Common old new m k ∧ Reaches old new ⟨k, m, m⟩ q := by
    rintro q (hq | ⟨m, k, -, hmk, hq⟩)
    · exact ⟨name, kind, h, hq⟩
    · exact ⟨m, k, hmk, hq⟩
  exact fun q r hq hr => hone q r (hreached q hq) (hreached r hr)

/-- If no new name has two partners, no common symbol is reported as changed exactly if everything
that they reach is flat-equal. -/
theorem forall_status_eq_unchanged_iff
    (hone : OnePartner fun q => ∃ m k, Common old new m k ∧ Reaches old new ⟨k, m, m⟩ q) :
    (∀ c ∈ (ofListings old new {}).1, ∀ kind, Common old new c.name kind →
        c.status = .unchanged) ↔
      ∀ name kind, Common old new name kind →
        ∀ q, Reaches old new ⟨kind, name, name⟩ q → FlatEqual old new q := by
  constructor
  · intro hall name kind h q hq
    obtain ⟨m, k, hmk, hfirst⟩ := exists_reachesFirst h hq
    obtain ⟨c, hc, rfl⟩ := exists_mem_ofListings_of_common hmk
    have hiff := status_eq_unchanged_iff hc hmk (onePartner_before hone hmk)
    exact hiff.mp (hall c hc k hmk) q hfirst
  · intro hall c hc kind h
    rw [status_eq_unchanged_iff hc h (onePartner_before hone h)]
    exact fun q hq => hall _ _ h q hq.reaches

/-- A common symbol is reported with its own flat verdict. Its status is the one it has alone if it
meets no name that was reached before. If no new name has two partners, it is so exactly if nothing
that it reaches changed, or if a change is reached without passing what was reached before; else the
symbol is reported as unchanged, and alone it has a changed dependency. -/
theorem status_eq_statusAlone_iff (old new : Listing) {name : String} {kind : Symbol.Kind}
    (h : Common old new name kind) :
    (∃ c ∈ (ofListings old new {}).1, c.name = name) ∧
    ∀ c ∈ (ofListings old new {}).1, c.name = name →
      (c.status = .changed ↔ statusAlone old new name kind = .changed) ∧
      ((∀ q r, Reaches old new ⟨kind, name, name⟩ q → ReachedBefore old new name r →
          q.new ≠ r.new) → c.status = statusAlone old new name kind) ∧
      (OnePartner (fun q => Reaches old new ⟨kind, name, name⟩ q ∨ ReachedBefore old new name q) →
        (c.status = statusAlone old new name kind ↔
          (∀ q, Reaches old new ⟨kind, name, name⟩ q → FlatEqual old new q) ∨
            ∃ q, ReachesFirst old new name ⟨kind, name, name⟩ q ∧ ¬ FlatEqual old new q) ∧
        (c.status ≠ statusAlone old new name kind →
          c.status = .unchanged ∧ statusAlone old new name kind = .dependencyChanged)) := by
  refine ⟨exists_mem_ofListings_of_common h, ?_⟩
  rintro c hc rfl
  obtain ⟨before, after, d, hsplit, hd, hstatus, hflat, hdeep⟩ := exists_before_of_mem hc h
  have hv := visits_compare old new {} ⟨kind, c.name, c.name⟩
  obtain ⟨hflat', hdeep'⟩ := hv.flatEqual_iff (results_empty _)
  have hsame := Bool.eq_iff_iff.mpr (hflat.trans hflat'.symm)
  rw [hstatus, statusAlone]
  refine ⟨?_, fun hdisj => ?_, fun hone => ?_⟩
  · rw [Status.ofChain_eq_changed_iff, Status.ofChain_eq_changed_iff, hsame]
  · rw [hd, compare_before_of_disjoint hsplit hdisj]
  · have hone' : OnePartner (Reaches old new ⟨kind, c.name, c.name⟩) :=
      fun q r hq hr => hone q r (.inl hq) (.inl hr)
    have hfirst := deepEqual_before_iff hsplit hone
    have hall := hv.deepEqual_iff_of_empty hone'
    rw [← hd] at hfirst
    have hsub : (∀ q, Reaches old new ⟨kind, c.name, c.name⟩ q → FlatEqual old new q) →
        ∀ q, ReachesFirst old new c.name ⟨kind, c.name, c.name⟩ q → FlatEqual old new q :=
      fun hq q hpq => hq q hpq.reaches
    refine ⟨?_, Status.ofChain_of_ne hsame hdeep fun h => hfirst.mpr (hsub (hall.mp h))⟩
    rw [Status.ofChain_eq_iff hsame hdeep hdeep', Bool.eq_iff_iff, hfirst, hall]
    constructor
    · intro hiff
      by_cases hchange : ∃ q, ReachesFirst old new c.name ⟨kind, c.name, c.name⟩ q ∧
          ¬ FlatEqual old new q
      · exact .inr hchange
      · exact .inl (hiff.mp fun q hq => by_contra fun hne => hchange ⟨q, hq, hne⟩)
    · rintro (hequal | ⟨q, hq, hne⟩)
      · exact ⟨fun _ => hequal, hsub⟩
      · exact ⟨fun hx => absurd (hx q hq) hne, hsub⟩

/-- Two objects that refer to a third one. -/
def leafOld : Listing := .load "a.s" "f:.quad x.1;g:.quad x.1;x.1:.byte 1"

def leafNew : Listing := .load "b.s" "f:.quad x.1;g:.quad x.1;x.1:.byte 2"

def leafPairings : List Pairing :=
  [⟨.object, "f", "f"⟩, ⟨.object, "g", "g"⟩, ⟨.object, "x.1", "x.1"⟩]

theorem status_eq_statusAlone_leaf :
    Common leafOld leafNew "g" .object ∧
      OnePartner (fun q => Reaches leafOld leafNew ⟨.object, "g", "g"⟩ q ∨
        ReachedBefore leafOld leafNew "g" q) ∧
      ∃ c ∈ (ofListings leafOld leafNew {}).1, c.name = "g" ∧
        c.status = statusAlone leafOld leafNew "g" .object := by
  have hrun : (∀ p ∈ leafPairings, ∀ q ∈ dependencies leafOld leafNew p, q ∈ leafPairings) ∧
      topLevel leafNew = [("f", .object), ("g", .object)] ∧
      topLevelKind? leafOld "g" = some .object ∧
      ⟨.object, "x.1", "x.1"⟩ ∈ dependencies leafOld leafNew ⟨.object, "g", "g"⟩ ∧
      ¬ FlatEqual leafOld leafNew ⟨.object, "x.1", "x.1"⟩ := by decide +kernel
  obtain ⟨hclosed, htop, hold, hdep, hne⟩ := hrun
  have hcommon : Common leafOld leafNew "g" .object :=
    ⟨hold, mem_topLevel.mp (by rw [htop]; decide)⟩
  have hmem : ∀ q, Reaches leafOld leafNew ⟨.object, "g", "g"⟩ q ∨
      ReachedBefore leafOld leafNew "g" q → q ∈ leafPairings := by
    rintro q (hq | ⟨m, k, -, hmk, hq⟩)
    · exact hq.mem_of_closed (by decide) hclosed
    · have hsymbol := mem_topLevel.mpr hmk.2
      rw [htop] at hsymbol
      refine hq.mem_of_closed ?_ hclosed
      rcases List.mem_pair.mp hsymbol with heq | heq <;> cases heq <;> decide
  have hnames : ∀ p ∈ leafPairings, ∀ q ∈ leafPairings, p.new = q.new → p = q := by decide
  have hone : OnePartner (fun q => Reaches leafOld leafNew ⟨.object, "g", "g"⟩ q ∨
      ReachedBefore leafOld leafNew "g" q) :=
    fun p q hp hq => hnames p (hmem p hp) q (hmem q hq)
  obtain ⟨⟨c, hc, hname⟩, hall⟩ := status_eq_statusAlone_iff leafOld leafNew hcommon
  have hfirst : ReachesFirst leafOld leafNew "g" ⟨.object, "g", "g"⟩ ⟨.object, "x.1", "x.1"⟩ :=
    ReflTransGen.single ⟨not_reachedBefore_self hcommon, mem_dependencies.mp hdep⟩
  have hstatus := ((hall c hc hname).2.2 hone).1.mpr (.inr ⟨_, hfirst, hne⟩)
  exact ⟨hcommon, hone, c, hc, hname, hstatus⟩

/-- Two objects that refer to a third one, and this to a fourth. -/
def sharedOld : Listing := .load "a.s" "f:.quad x.1;g:.quad x.1;x.1:.quad y.1;y.1:.byte 1"

def sharedNew : Listing := .load "b.s" "f:.quad x.1;g:.quad x.1;x.1:.quad y.1;y.1:.byte 2"

/-- The change is reported for the first symbol that reaches it, and not for the second. -/
theorem status_ne_statusAlone_shared :
    Common sharedOld sharedNew "g" .object ∧
      (∃ c ∈ (ofListings sharedOld sharedNew {}).1, c.name = "g" ∧ c.status = .unchanged) ∧
      statusAlone sharedOld sharedNew "g" .object = .dependencyChanged := by
  have hrun : topLevel sharedNew = [("f", .object), ("g", .object)] ∧
      (∀ symbol ∈ [("f", Symbol.Kind.object), ("g", .object)],
        topLevelKind? sharedOld symbol.1 = some symbol.2) ∧
      (visit? sharedOld sharedNew 4 {} ([("f", .object), ("g", .object)].map root)).map
        (fun r => r.1.map Status.ofChain) = some [.dependencyChanged, .unchanged] ∧
      (visit? sharedOld sharedNew 3 {} [⟨.object, "g", "g"⟩]).map
        (fun r => r.1.map Status.ofChain) = some [.dependencyChanged] := by decide +kernel
  obtain ⟨htop, hold, hboth, halone⟩ := hrun
  refine ⟨⟨hold ("g", .object) (by decide), mem_topLevel.mp (by rw [htop]; decide)⟩, ?_, ?_⟩
  · obtain ⟨⟨cs, s⟩, hv, hcs⟩ := Option.map_eq_some_iff.mp hboth
    have hmap := map_status_ofNews (visits_of_visit? hv) hold
    have hmem : ("g", Status.unchanged) ∈
        (ofNews sharedOld sharedNew {} (topLevel sharedNew)).1.map fun c => (c.name, c.status) := by
      rw [htop, hmap, hcs]
      decide
    obtain ⟨c, hc, heq⟩ := List.mem_map.mp hmem
    obtain ⟨hname, hstatus⟩ := Prod.mk.inj heq
    exact ⟨c, mem_ofListings_iff.mpr (.inl hc), hname, hstatus⟩
  · obtain ⟨⟨cs, s⟩, hv, hcs⟩ := Option.map_eq_some_iff.mp halone
    obtain ⟨c, ds, mid, rfl, hc, -⟩ := (visits_of_visit? hv).uncons
    rw [statusAlone, compare_eq_of_visits hc]
    exact (List.cons.inj hcs).1

end Change

end AsmCompare
