import AsmCompare.Proofs.Comparison.Recorded
import AsmCompare.Proofs.Comparison.SharedCache
import AsmCompare.Proofs.Edit.Shortest
import AsmCompare.Proofs.Listing.Entries
import AsmCompare.Proofs.Report.DiffLines

/-! # The lines of a file comparison

Every symbol with a name of its own has one line, those of the new file first. What a line says of
new, removed and changed symbols depends on the two files alone: no dependency is entered into the
cache under a name that is not generated, so each common symbol is judged in its own turn, and its
bodies are kept for the report.
-/
namespace AsmCompare.Change
open Comparison
variable {old new : Listing} {name : String} {kind : Symbol.Kind} {c : Change}

theorem not_mem_topLevelNames {l : Listing} :
    name ∉ topLevelNames l ↔ topLevelKind? l name = none := by
  rw [mem_topLevelNames, ← Option.isSome_iff_exists, Bool.not_eq_true, Option.isSome_eq_false_iff,
    Option.isNone_iff_eq_none]

variable (old new) in
theorem map_name_removals :
    (removals old new).map Change.name = (topLevelNames old).filter (· ∉ topLevelNames new) := by
  have hold : topLevelNames old = (topLevel old).map Prod.fst := rfl
  rw [removals, List.map_filterMap, hold, List.filter_map, ← List.filterMap_eq_filter,
    List.map_filterMap]
  refine List.filterMap_congr ?_
  rintro ⟨m, k⟩ -
  cases hm : topLevelKind? new m with
  | none => simp [hm, not_mem_topLevelNames.mpr hm]
  | some k' => simp [hm, mem_topLevelNames.mpr ⟨k', hm⟩]

variable (old new) in
theorem map_name_ofListings :
    (ofListings old new {}).1.map Change.name =
      topLevelNames new ++ (topLevelNames old).filter (· ∉ topLevelNames new) := by
  rw [← map_name_removals, ofListings, List.map_append, map_name_ofNews]
  rfl

theorem nodup_append_filter {α : Type} [DecidableEq α] {xs ys : List α} (hx : xs.Nodup)
    (hy : ys.Nodup) : (xs ++ ys.filter (· ∉ xs)).Nodup := by
  refine List.nodup_append.mpr ⟨hx, hy.filter _, ?_⟩
  rintro a ha b hb rfl
  exact of_decide_eq_true (List.mem_filter.mp hb).2 ha

theorem status_of_mem_removals (hc : c ∈ removals old new) :
    c.status = .removed ∧ c.name ∈ topLevelNames old ∧ c.name ∉ topLevelNames new := by
  simp only [removals, List.mem_filterMap] at hc
  obtain ⟨⟨m, k⟩, hmem, hgone⟩ := hc
  split at hgone
  · cases hgone
  · next hnone =>
    cases hgone
    rw [Bool.not_eq_true, Option.isSome_eq_false_iff, Option.isNone_iff_eq_none] at hnone
    exact ⟨rfl, mem_topLevelNames.mpr ⟨k, mem_topLevel.mp hmem⟩, not_mem_topLevelNames.mpr hnone⟩

/-- What a line can be, and when. -/
theorem line_cases (hc : c ∈ (ofListings old new {}).1) :
    (c.status = .removed ∧ c.name ∈ topLevelNames old ∧ c.name ∉ topLevelNames new) ∨
      (c.status = .new ∧ c.name ∈ topLevelNames new ∧ c.name ∉ topLevelNames old) ∨
      (c.status = .changed ∧ ∃ k k', topLevelKind? old c.name = some k ∧
        topLevelKind? new c.name = some k' ∧ k ≠ k') ∨
      ∃ kind, Common old new c.name kind ∧ c.status ≠ .new ∧ c.status ≠ .removed ∧
        (c.status = .changed ↔ ¬ FlatEqual old new ⟨kind, c.name, c.name⟩) := by
  rcases mem_ofListings_iff.mp hc with hnews | hremoved
  · obtain ⟨before, m, k, after, hsplit, heq⟩ := mem_ofNews_iff.mp hnews
    obtain rfl : m = c.name := by rw [heq, name_ofNew]
    have hnew : topLevelKind? new c.name = some k := by
      rw [← mem_topLevel, hsplit]
      simp
    cases hold : topLevelKind? old c.name with
    | none =>
      refine .inr (.inl ⟨?_, mem_topLevelNames.mpr ⟨k, hnew⟩, not_mem_topLevelNames.mpr hold⟩)
      rw [heq]
      simp [ofNew, hold]
    | some oldKind =>
      by_cases hk : oldKind = k
      · subst hk
        obtain ⟨_, _, d, -, -, hstatus, hflat, -⟩ := exists_before_of_mem hc ⟨hold, hnew⟩
        refine .inr (.inr (.inr ⟨oldKind, ⟨hold, hnew⟩, ?_, ?_, ?_⟩))
        · exact hstatus ▸ Status.ofChain_ne_new d
        · exact hstatus ▸ Status.ofChain_ne_removed d
        · rw [hstatus, Status.ofChain_eq_changed_iff, ← Bool.not_eq_true, hflat]
      · refine .inr (.inr (.inl ⟨?_, oldKind, k, rfl, hnew, hk⟩))
        rw [heq]
        simp [ofNew, hold, hk]
  · exact .inl (status_of_mem_removals hremoved)

theorem Common.exists_bodies? (h : Common old new name kind) :
    ∃ a b, bodies? old new ⟨kind, name, name⟩ = some (a, b) := by
  obtain ⟨-, hne, hold⟩ := topLevelKind?_eq_some_iff.mp h.1
  obtain ⟨-, -, hnew⟩ := topLevelKind?_eq_some_iff.mp h.2
  obtain ⟨f, hf⟩ := Listing.exists_bodyOfKind?_of_kindOf hne hold true
  obtain ⟨g, hg⟩ := Listing.exists_bodyOfKind?_of_kindOf hne hnew true
  exact ⟨f.normalize, g.normalize, by rw [bodies?, hf, hg]⟩

theorem Common.not_flatEqual_iff (h : Common old new name kind) :
    ¬ FlatEqual old new ⟨kind, name, name⟩ ↔
      ∃ a b, bodies? old new ⟨kind, name, name⟩ = some (a, b) ∧ ¬ Agree a b := by
  obtain ⟨a, b, hb⟩ := h.exists_bodies?
  simp [FlatEqual, hb]

theorem status_eq_new_iff (hc : c ∈ (ofListings old new {}).1) :
    c.status = .new ↔ c.name ∈ topLevelNames new ∧ c.name ∉ topLevelNames old := by
  rcases line_cases hc with ⟨hs, -, hn⟩ | ⟨hs, hn, ho⟩ | ⟨hs, k, -, ho, -⟩ | ⟨k, hcommon, hne, -⟩
  · simp [hs, hn]
  · exact iff_of_true hs ⟨hn, ho⟩
  · have hmem : c.name ∈ topLevelNames old := mem_topLevelNames.mpr ⟨k, ho⟩
    simp [hs, hmem]
  · have hmem : c.name ∈ topLevelNames old := mem_topLevelNames.mpr ⟨k, hcommon.1⟩
    simp [hne, hmem]

theorem status_eq_removed_iff (hc : c ∈ (ofListings old new {}).1) :
    c.status = .removed ↔ c.name ∈ topLevelNames old ∧ c.name ∉ topLevelNames new := by
  rcases line_cases hc with ⟨hs, ho, hn⟩ | ⟨hs, hn, -⟩ | ⟨hs, -, k, -, hn, -⟩ |
    ⟨k, hcommon, -, hne, -⟩
  · exact iff_of_true hs ⟨ho, hn⟩
  · simp [hs, hn]
  · have hmem : c.name ∈ topLevelNames new := mem_topLevelNames.mpr ⟨k, hn⟩
    simp [hs, hmem]
  · have hmem : c.name ∈ topLevelNames new := mem_topLevelNames.mpr ⟨k, hcommon.2⟩
    simp [hne, hmem]

theorem status_eq_changed_iff (hc : c ∈ (ofListings old new {}).1) :
    c.status = .changed ↔ ∃ k k', topLevelKind? old c.name = some k ∧
      topLevelKind? new c.name = some k' ∧ (k ≠ k' ∨
        ∃ a b, bodies? old new ⟨k', c.name, c.name⟩ = some (a, b) ∧ ¬ Agree a b) := by
  rcases line_cases hc with ⟨hs, -, hn⟩ | ⟨hs, -, ho⟩ | ⟨hs, k, k', ho, hn, hne⟩ |
    ⟨k, hcommon, -, -, hiff⟩
  · simp [hs, not_mem_topLevelNames.mp hn]
  · simp [hs, not_mem_topLevelNames.mp ho]
  · exact iff_of_true hs ⟨k, k', ho, hn, .inl hne⟩
  · rw [hiff, hcommon.not_flatEqual_iff]
    simp [hcommon.1, hcommon.2]

/-- The bodies of a common symbol are among the pairs at the end of the run. -/
theorem Common.exists_pair? (h : Common old new name kind) :
    ∃ q, (ofListings old new {}).2.pair? name name = some q ∧
      bodies? old new ⟨kind, name, name⟩ = some (q.old, q.new) := by
  obtain ⟨a, b, hb⟩ := h.exists_bodies?
  obtain ⟨before, after, hsplit⟩ := List.append_of_mem (mem_topLevel.mpr h.2)
  have hpair : pairOf? old new ⟨kind, name, name⟩ = some ⟨name, name, a, b⟩ := by
    rw [pairOf?, hb]
    rfl
  -- The pair is kept in the turn of the symbol and stays there to the end.
  have hturn := (visits_compare old new (ofNews old new {} before).2
    ⟨kind, name, name⟩).mem_pairs (results_before hsplit) hpair
  have hstate : (ofListings old new {}).2 =
      (ofNews old new (compare old new (ofNews old new {} before).2 ⟨kind, name, name⟩).2
        after).2 := by
    have hnew := @ofNew_of_topLevelKind? old new name kind h.1 (ofNews old new {} before).2
    have hrun : (ofListings old new {}).2 = (ofNews old new {} (topLevel new)).2 := rfl
    rw [hrun, hsplit, ofNews_append]
    simp only [ofNews, hnew]
    rfl
  have hmem : (⟨name, name, a, b⟩ : ComparedPair) ∈ (ofListings old new {}).2.pairs := by
    rw [hstate]
    exact (pairs_prefix_ofNews after _).subset hturn
  have hrecorded : Recorded (ofListings old new {}).2 := recorded_ofNews (topLevel new)
  exact ⟨_, hrecorded.pair?_eq_some hmem, hb⟩

theorem pairLines_ne_nil {q : ComparedPair} (h : q.isDifferent = true) {style : Report.DiffStyle}
    (hcontext : 0 ≤ style.context) : Report.pairLines q style ≠ [] := by
  obtain ⟨e, he, hchange⟩ := Edit.exists_isChange_script h
  exact Report.diffLines_ne_nil q.old q.new hcontext he hchange

/-- A file comparison lists the named symbols of both files once, those of the new file by name and
then those that are gone by name. A symbol is new or removed exactly if one file has it alone, and
changed exactly if its kind changed or its bodies differ, whatever was compared before it. The
bodies of a changed symbol are kept, and their difference never shows as nothing. -/
theorem ofListings_lines (old new : Listing) :
    (ofListings old new {}).1.map Change.name =
        topLevelNames new ++ (topLevelNames old).filter (· ∉ topLevelNames new) ∧
      (topLevelNames new).Pairwise (· < ·) ∧ (topLevelNames old).Pairwise (· < ·) ∧
      ((ofListings old new {}).1.map Change.name).Nodup ∧
      (∀ name, (∃ c ∈ (ofListings old new {}).1, c.name = name) ↔
        name ∈ topLevelNames old ∨ name ∈ topLevelNames new) ∧
      ∀ c ∈ (ofListings old new {}).1,
        (c.status = .new ↔ c.name ∈ topLevelNames new ∧ c.name ∉ topLevelNames old) ∧
        (c.status = .removed ↔ c.name ∈ topLevelNames old ∧ c.name ∉ topLevelNames new) ∧
        (c.status = .changed ↔ ∃ k k', topLevelKind? old c.name = some k ∧
          topLevelKind? new c.name = some k' ∧ (k ≠ k' ∨
            ∃ a b, bodies? old new ⟨k', c.name, c.name⟩ = some (a, b) ∧ ¬ Agree a b)) ∧
        (c.status = .changed → ∀ k, Common old new c.name k →
          ∃ q, (ofListings old new {}).2.pair? c.name c.name = some q ∧ q.isDifferent = true ∧
            bodies? old new ⟨k, c.name, c.name⟩ = some (q.old, q.new) ∧
            ∀ style : Report.DiffStyle, 0 ≤ style.context → Report.pairLines q style ≠ []) := by
  have hnames := map_name_ofListings old new
  refine ⟨hnames, pairwise_topLevelNames new, pairwise_topLevelNames old, ?_, ?_, ?_⟩
  · rw [hnames]
    exact nodup_append_filter (nodup_topLevelNames new) (nodup_topLevelNames old)
  · intro name
    rw [← List.mem_map, hnames, List.mem_append, List.mem_filter]
    by_cases h : name ∈ topLevelNames new <;> simp [h]
  · intro c hc
    refine ⟨status_eq_new_iff hc, status_eq_removed_iff hc, status_eq_changed_iff hc, ?_⟩
    intro hchanged k hcommon
    obtain ⟨q, hq, hbodies⟩ := hcommon.exists_pair?
    have hdifferent : q.isDifferent = true := by
      obtain ⟨m, m', hm, hm', hcase⟩ := (status_eq_changed_iff hc).mp hchanged
      obtain rfl := Option.some.inj (hcommon.1.symm.trans hm)
      obtain rfl := Option.some.inj (hcommon.2.symm.trans hm')
      obtain ⟨a, b, hab, hne⟩ := hcase.resolve_left fun h => h rfl
      rw [hbodies] at hab
      cases hab
      rwa [← Bool.not_eq_false, isDifferent_eq_false_iff]
    exact ⟨q, hq, hdifferent, hbodies, fun style => pairLines_ne_nil hdifferent⟩

end AsmCompare.Change
