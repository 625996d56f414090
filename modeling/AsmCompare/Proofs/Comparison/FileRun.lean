import AsmCompare.Comparison.Change
import AsmCompare.Proofs.Comparison.DeepEqual

/-! # Verdicts over the comparison of two files

The symbols of the new file are compared in the order of their names, all with one cache. After
some of them, the cache holds verdicts of pairings that these reach, and it is closed: whatever a
judged pairing depends on has been judged too. A named symbol is never judged before its turn.
-/
namespace AsmCompare
open Relation

namespace Comparison
variable {old new : Listing}

variable (old new) in
/-- The verdicts are those of pairings reached from the roots, and closed under dependencies. -/
structure Explored (roots : List Pairing) (s : Comparison) : Prop where
  sound : ∀ n e, s.results[n]? = some e → ∃ q, q.new = n ∧ (∃ p ∈ roots, Reaches old new p q) ∧
    (e = true ↔ FlatEqual old new q) ∧
    ∀ r, DependsOn old new q r → ∃ d, s.results[r.new]? = some d
  complete : ∀ p ∈ roots, ∃ e, s.results[p.new]? = some e

theorem explored_empty : Explored old new [] {} := by
  constructor
  · intro n e he
    rw [results_empty] at he
    cases he
  · intro p hp
    cases hp

theorem Reaches.of_follows {s : Comparison} {p q : Pairing}
    (h : ReflTransGen (Follows old new s) p q) : Reaches old new p q :=
  ReflTransGen.mono (fun _ _ hab => hab.2) p q h

theorem Reaches.eq_or_isGenerated {p q : Pairing} (h : Reaches old new p q) :
    q = p ∨ Name.isGenerated q.new = true := by
  cases h with
  | refl => exact .inl rfl
  | tail _ hrq => exact .inr hrq.isGenerated

theorem Explored.congr {roots : List Pairing} {s t : Comparison} (hs : Explored old new roots s)
    (ht : t.results = s.results) : Explored old new roots t := by
  constructor
  · rw [ht]
    exact hs.sound
  · rw [ht]
    exact hs.complete

theorem Explored.visits {roots : List Pairing} {s s' : Comparison} {p : Pairing} {c : Chain}
    (hs : Explored old new roots s) (h : Visits old new s [p] [c] s') :
    Explored old new (roots ++ [p]) s' := by
  constructor
  · intro n e he
    cases hn : s.results[n]? with
    | some d =>
      have hd : d = e := Option.some.inj ((h.keeps hn).symm.trans he)
      subst hd
      obtain ⟨q, hq, ⟨r, hr, hrq⟩, hv, hdep⟩ := hs.sound n d hn
      refine ⟨q, hq, ⟨r, List.mem_append_left _ hr, hrq⟩, hv, fun t ht => ?_⟩
      obtain ⟨e, he⟩ := hdep t ht
      exact ⟨e, h.keeps he⟩
    | none =>
      obtain ⟨q, hq, hx⟩ := h.exists_explains hn he
      obtain ⟨p', hp', hpq⟩ := hx.reached
      refine ⟨q, hq, ⟨p', List.mem_append_right _ hp', .of_follows hpq⟩, hx.verdict, ?_⟩
      intro t ht
      obtain ⟨e, he, -⟩ := hx.closed t ht
      exact ⟨e, he⟩
  · intro q hq
    rcases List.mem_append.mp hq with hq | hq
    · obtain ⟨e, he⟩ := hs.complete q hq
      exact ⟨e, h.keeps he⟩
    · obtain ⟨e, he, -⟩ := h.judged hq
      exact ⟨e, he⟩

/-- If no new name has two partners, the cache decides flat equality of what has been reached. -/
theorem Explored.verdict {roots : List Pairing} {s : Comparison} (hs : Explored old new roots s)
    {W : Pairing → Prop} (hone : OnePartner W)
    (hW : ∀ p ∈ roots, ∀ q, Reaches old new p q → W q) {p q : Pairing} (hp : p ∈ roots)
    (hq : Reaches old new p q) :
    ∃ e, s.results[q.new]? = some e ∧ (e = true ↔ FlatEqual old new q) := by
  have hname : ∀ {t : Pairing} {e : Bool}, Reaches old new p t → s.results[t.new]? = some e →
      (e = true ↔ FlatEqual old new t) ∧
        ∀ r, DependsOn old new t r → ∃ d, s.results[r.new]? = some d := by
    intro t e ht he
    obtain ⟨t', hnew, ⟨p', hp', hpt⟩, hv⟩ := hs.sound _ _ he
    obtain rfl := hone _ _ (hW p' hp' t' hpt) (hW p hp t ht) hnew
    exact hv
  have hjudged : ∃ e, s.results[q.new]? = some e := by
    induction hq with
    | refl => exact hs.complete p hp
    | tail hpt htr ih =>
      obtain ⟨e, he⟩ := ih
      exact (hname hpt he).2 _ htr
  obtain ⟨e, he⟩ := hjudged
  exact ⟨e, he, (hname hq he).1⟩

end Comparison

namespace Change
open Comparison
variable {old new : Listing}

theorem pairwise_names (l : Listing) : l.names.Pairwise (· < ·) := by
  refine l.symbols.ordered_keys.imp fun {a b} hab => ?_
  exact compareOfLessAndEq_eq_lt.mp hab

theorem topLevelKind?_eq_some_iff {l : Listing} {name : String} {kind : Symbol.Kind} :
    topLevelKind? l name = some kind ↔
      Name.isGenerated name = false ∧ kind ≠ .unknown ∧ l.kindOf name = kind := by
  unfold topLevelKind?
  by_cases hg : Name.isGenerated name = true
  · simp [hg]
  · by_cases hk : l.kindOf name = .unknown
    · simp only [hk, decide_true, Bool.or_true, ↓reduceIte, reduceCtorEq, false_iff]
      rintro ⟨-, hne, heq⟩
      exact hne heq.symm
    · simp only [hg, hk, Bool.false_or, decide_false, Bool.false_eq_true, ↓reduceIte,
        Option.some.injEq, true_and]
      constructor
      · rintro rfl
        exact ⟨hk, rfl⟩
      · exact fun h => h.2

theorem mem_names_of_kindOf {l : Listing} {name : String} (h : l.kindOf name ≠ .unknown) :
    name ∈ l.names := by
  rw [Listing.mem_names_iff]
  unfold Listing.kindOf at h
  split at h
  · next hs => rw [hs]; rfl
  · exact absurd rfl h

theorem mem_topLevel {l : Listing} {name : String} {kind : Symbol.Kind} :
    (name, kind) ∈ topLevel l ↔ topLevelKind? l name = some kind := by
  simp only [topLevel, List.mem_filterMap, Option.map_eq_some_iff, Prod.mk.injEq]
  constructor
  · rintro ⟨_, -, _, hk, rfl, rfl⟩
    exact hk
  · intro hk
    obtain ⟨-, hne, hkind⟩ := topLevelKind?_eq_some_iff.mp hk
    exact ⟨name, mem_names_of_kindOf (by rwa [hkind]), kind, hk, rfl, rfl⟩

theorem pairwise_topLevel (l : Listing) : (topLevel l).Pairwise (·.1 < ·.1) := by
  refine List.Pairwise.filterMap _ ?_ (pairwise_names l)
  intro a b hab x hx y hy
  obtain ⟨_, -, rfl⟩ := Option.map_eq_some_iff.mp hx
  obtain ⟨_, -, rfl⟩ := Option.map_eq_some_iff.mp hy
  exact hab

/-- The names of the functions and objects that have a name of their own. -/
def topLevelNames (l : Listing) : List String := (topLevel l).map Prod.fst

theorem pairwise_topLevelNames (l : Listing) : (topLevelNames l).Pairwise (· < ·) := by
  rw [topLevelNames, List.pairwise_map]
  exact pairwise_topLevel l

theorem nodup_topLevelNames (l : Listing) : (topLevelNames l).Nodup := by
  refine (pairwise_topLevelNames l).imp ?_
  rintro a b hab rfl
  exact String.lt_irrefl a hab

theorem mem_topLevelNames {l : Listing} {name : String} :
    name ∈ topLevelNames l ↔ ∃ kind, topLevelKind? l name = some kind := by
  simp only [topLevelNames, List.mem_map, Prod.exists, exists_and_right, exists_eq_right,
    mem_topLevel]

/-- The pairing of a symbol with the one of the same name. -/
def root (symbol : String × Symbol.Kind) : Pairing := ⟨symbol.2, symbol.1, symbol.1⟩

variable (old) in
/-- The pairings that are compared for some symbols of the new file. -/
def roots (symbols : List (String × Symbol.Kind)) : List Pairing :=
  (symbols.filter fun symbol => topLevelKind? old symbol.1 = some symbol.2).map root

theorem ofNew_of_topLevelKind? {name : String} {kind : Symbol.Kind}
    (h : topLevelKind? old name = some kind) (s : Comparison) :
    ofNew old new s name kind =
      (⟨name, kind, .ofChain (compare old new s (root (name, kind))).1,
        some (compare old new s (root (name, kind))).1⟩,
        (compare old new s (root (name, kind))).2) := by
  simp [ofNew, h, root]

theorem name_ofNew (s : Comparison) (name : String) (kind : Symbol.Kind) :
    (ofNew old new s name kind).1.name = name := by
  unfold ofNew
  split
  · rfl
  · split <;> rfl

theorem map_name_ofNews (s : Comparison) (symbols : List (String × Symbol.Kind)) :
    (ofNews old new s symbols).1.map Change.name = symbols.map Prod.fst := by
  induction symbols generalizing s with
  | nil => rfl
  | cons symbol rest ih => simp only [ofNews, List.map_cons, name_ofNew, ih]

theorem results_ofNew_of_ne {name : String} {kind : Symbol.Kind}
    (h : topLevelKind? old name ≠ some kind) (s : Comparison) :
    (ofNew old new s name kind).2.results = s.results := by
  unfold ofNew
  split
  · rfl
  · next oldKind ho =>
    have hne : oldKind ≠ kind := by
      rintro rfl
      exact h ho
    rw [if_pos hne]
    rfl

theorem explored_ofNew {rs : List Pairing} {s : Comparison} (hs : Explored old new rs s)
    (name : String) (kind : Symbol.Kind) :
    Explored old new (rs ++ roots old [(name, kind)]) (ofNew old new s name kind).2 := by
  by_cases h : topLevelKind? old name = some kind
  · have hr : roots old [(name, kind)] = [root (name, kind)] := by simp [roots, h]
    rw [hr, ofNew_of_topLevelKind? h]
    exact hs.visits (visits_compare old new s _)
  · have hr : roots old [(name, kind)] = [] := by simp [roots, h]
    rw [hr, List.append_nil]
    exact hs.congr (results_ofNew_of_ne h s)

theorem explored_ofNews (symbols : List (String × Symbol.Kind)) {rs : List Pairing}
    {s : Comparison} (hs : Explored old new rs s) :
    Explored old new (rs ++ roots old symbols) (ofNews old new s symbols).2 := by
  induction symbols generalizing rs s with
  | nil => simpa [roots, ofNews] using hs
  | cons symbol rest ih =>
    obtain ⟨name, kind⟩ := symbol
    have hstep := ih (explored_ofNew hs name kind)
    have hr : roots old ((name, kind) :: rest) = roots old [(name, kind)] ++ roots old rest := by
      rw [roots, roots, roots, ← List.map_append, ← List.filter_append]
      rfl
    rw [List.append_assoc, ← hr] at hstep
    exact hstep

theorem explored_before (before : List (String × Symbol.Kind)) :
    Explored old new (roots old before) (ofNews old new {} before).2 :=
  explored_ofNews before explored_empty

theorem map_status_ofNews {symbols : List (String × Symbol.Kind)} {s s' : Comparison}
    {cs : List Chain} (h : Visits old new s (symbols.map root) cs s')
    (hold : ∀ symbol ∈ symbols, topLevelKind? old symbol.1 = some symbol.2) :
    (ofNews old new s symbols).1.map (fun c => (c.name, c.status)) =
      (symbols.map Prod.fst).zip (cs.map Status.ofChain) := by
  induction symbols generalizing s cs with
  | nil => rfl
  | cons symbol rest ih =>
    obtain ⟨name, kind⟩ := symbol
    obtain ⟨c, ds, mid, rfl, hc, hrest⟩ := h.uncons
    have hnew := @ofNew_of_topLevelKind? old new name kind (hold _ List.mem_cons_self) s
    rw [compare_eq_of_visits hc] at hnew
    have htail := ih hrest fun symbol hs => hold symbol (List.mem_cons_of_mem _ hs)
    simp only [ofNews, hnew, List.map_cons, List.zip_cons_cons, htail]

/-- The change of each symbol is found with the verdicts of those before it. -/
theorem mem_ofNews_iff {s : Comparison} {symbols : List (String × Symbol.Kind)} {c : Change} :
    c ∈ (ofNews old new s symbols).1 ↔
      ∃ before name kind after, symbols = before ++ (name, kind) :: after ∧
        c = (ofNew old new (ofNews old new s before).2 name kind).1 := by
  induction symbols generalizing s with
  | nil => simp [ofNews]
  | cons symbol rest ih =>
    obtain ⟨name, kind⟩ := symbol
    simp only [ofNews, List.mem_cons, ih]
    constructor
    · rintro (rfl | ⟨before, m, k, after, rfl, rfl⟩)
      · exact ⟨[], name, kind, rest, rfl, rfl⟩
      · exact ⟨(name, kind) :: before, m, k, after, rfl, rfl⟩
    · rintro ⟨before, m, k, after, hsplit, rfl⟩
      cases before with
      | nil =>
        cases hsplit
        exact .inl rfl
      | cons first before =>
        cases hsplit
        exact .inr ⟨before, m, k, after, rfl, rfl⟩

theorem mem_ofListings_iff {s : Comparison} {c : Change} :
    c ∈ (ofListings old new s).1 ↔
      c ∈ (ofNews old new s (topLevel new)).1 ∨ c ∈ removals old new := by
  simp [ofListings]

/-- The lines of a file comparison that speak of a symbol of the new file. -/
theorem mem_ofListings_iff_of_topLevelKind? {c : Change} {kind : Symbol.Kind}
    (h : topLevelKind? new c.name = some kind) :
    c ∈ (ofListings old new {}).1 ↔ ∃ before after,
      topLevel new = before ++ (c.name, kind) :: after ∧
        c = (ofNew old new (ofNews old new {} before).2 c.name kind).1 := by
  have hremoved : c ∉ removals old new := by
    simp only [removals, List.mem_filterMap]
    rintro ⟨⟨m, k⟩, -, hm⟩
    split at hm
    · cases hm
    · next hnone =>
      cases hm
      rw [h] at hnone
      exact hnone rfl
  simp only [mem_ofListings_iff, hremoved, or_false, mem_ofNews_iff]
  constructor
  · rintro ⟨before, m, k, after, hsplit, hc⟩
    have hm : m = c.name := by rw [hc, name_ofNew]
    subst hm
    have hk : topLevelKind? new c.name = some k := by
      rw [← mem_topLevel, hsplit]
      simp
    rw [h] at hk
    cases hk
    exact ⟨before, after, hsplit, hc⟩
  · rintro ⟨before, after, hsplit, hc⟩
    exact ⟨before, c.name, kind, after, hsplit, hc⟩

/-- The symbols compared before one are those with a smaller name. -/
theorem mem_before_iff {before after : List (String × Symbol.Kind)} {name : String}
    {kind : Symbol.Kind} (h : topLevel new = before ++ (name, kind) :: after)
    {m : String} {k : Symbol.Kind} :
    (m, k) ∈ before ↔ m < name ∧ topLevelKind? new m = some k := by
  have hpw := pairwise_topLevel new
  rw [h, List.pairwise_append] at hpw
  obtain ⟨-, hafter, hlt⟩ := hpw
  rw [← mem_topLevel, h]
  constructor
  · intro hb
    exact ⟨hlt _ hb _ List.mem_cons_self, List.mem_append_left _ hb⟩
  · rintro ⟨hname, hmem⟩
    rcases List.mem_append.mp hmem with hb | ha
    · exact hb
    · rcases List.mem_cons.mp ha with heq | ha
      · cases heq
        exact absurd hname (String.lt_irrefl _)
      · have hgt := (List.pairwise_cons.mp hafter).1 _ ha
        exact absurd (String.lt_trans hname hgt) (String.lt_irrefl _)

/-- A symbol with a name of its own has no verdict before its turn. -/
theorem results_before {before after : List (String × Symbol.Kind)} {name : String}
    {kind : Symbol.Kind} (h : topLevel new = before ++ (name, kind) :: after) :
    (ofNews old new {} before).2.results[name]? = none := by
  cases hn : (ofNews old new {} before).2.results[name]? with
  | none => rfl
  | some e =>
    exfalso
    have hkind : topLevelKind? new name = some kind := by
      rw [← mem_topLevel, h]
      simp
    obtain ⟨q, hq, ⟨p, hp, hpq⟩, -⟩ := (explored_before before).sound name e hn
    rcases hpq.eq_or_isGenerated with rfl | hgen
    · simp only [roots, List.mem_map, List.mem_filter] at hp
      obtain ⟨⟨m, k⟩, ⟨hmem, -⟩, rfl⟩ := hp
      obtain rfl : m = name := hq
      exact String.lt_irrefl _ ((mem_before_iff h).mp hmem).1
    · rw [hq, (topLevelKind?_eq_some_iff.mp hkind).1] at hgen
      cases hgen

end Change

end AsmCompare
