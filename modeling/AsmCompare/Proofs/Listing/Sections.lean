import AsmCompare.Proofs.Listing.Bookmarks
import Mathlib.Data.List.Forall2

/-! # Saved sections nest like brackets

Each `.popsection` takes the nearest `.pushsection` in front of it that no earlier one took. The
pass goes back to the section that was in force there, whatever stands between the two, and it
warns of the ones that find none. The first selection of a section name stands for all of them.
-/
namespace AsmCompare.Listing

/-- Pairs every `.popsection` with the nearest `.pushsection` in front of it that is still free. -/
def IsMatching (ss : List Statement) (pairs : Nat → Nat → Prop) : Prop :=
  ∀ i j, pairs i j ↔ j ∈ positions (·.kind = .popSection) ss ∧
    IsGreatest {k | k ∈ positions (·.kind = .pushSection) ss ∧ k < j ∧ ∀ m < j, ¬ pairs k m} i

/-- Selects the section of this name. -/
def SelectsNamed (name : String) (s : Statement) : Prop :=
  (s.kind = .namedSection ∨ s.kind = .pushSection) ∧ sectionName s = name

instance (name : String) (s : Statement) : Decidable (SelectsNamed name s) :=
  inferInstanceAs (Decidable (_ ∧ _))

/-- What is said of a `.popsection` that takes nothing. -/
def popWarning (file : String) (s : Statement) : String :=
  (s.location.map Location.render).getD file ++ ": .popsection without matching .pushsection"

/-- The sections of a list of statements. -/
structure Nested (file : String) (ss : List Statement) (pairs : Nat → Nat → Prop) : Prop where
  matching : ∀ other, IsMatching ss other ↔ other = pairs
  restored : ∀ i j, pairs i j → inForceAt file ss (j + 1) = inForceAt file ss i
  kept : ∀ j ∈ positions (·.kind = .popSection) ss, (∀ i, ¬ pairs i j) →
    inForceAt file ss (j + 1) = inForceAt file ss j
  warned : ∃ unmatched : List Nat, unmatched.Pairwise (· < ·) ∧
    (∀ j, j ∈ unmatched ↔ j ∈ positions (·.kind = .popSection) ss ∧ ∀ i, ¬ pairs i j) ∧
    List.Forall₂ (fun j text => ∃ s, ss[j]? = some s ∧ text = popWarning file s) unmatched
      (ofStatements file ss).warnings
  shared : ∀ name, name ≠ "" → ∀ i ∈ positions (SelectsNamed name) ss,
    ∃ first, IsLeast (positions (SelectsNamed name) ss) first ∧
      inForceAt file ss (i + 1) = some first
  labelled : ∀ name symbol, (ofStatements file ss).symbol? name = some symbol →
    symbol.sectionAt = symbol.definedAt.bind (inForceAt file ss)

namespace Scan
variable (scan : Scan) (index : Nat) (s : Statement) (file : String)

theorem saved_push : (scan.push index s).saved = scan.inForce :: scan.saved := by
  simp only [push]
  split
  · rfl
  · obtain ⟨_, _, h⟩ := exists_select { scan with saved := scan.inForce :: scan.saved } index s
    rw [h]

theorem saved_pop : (scan.pop file s).saved = scan.saved.tail := by
  unfold pop
  cases h : scan.saved <;> simp

theorem saved_step : (scan.step file index s).saved =
    if s.kind = .pushSection then scan.inForce :: scan.saved
    else if s.kind = .popSection then scan.saved.tail else scan.saved := by
  cases hk : s.kind with
  | pushSection => simp only [step, hk, saved_push, if_true]
  | popSection => simp [step, hk, saved_pop]
  | namedSection =>
    obtain ⟨_, _, h⟩ := exists_select scan index s
    simp [step, hk, h]
  | text | data | bss => simp [step, hk]
  | _ =>
    have hsection : s.kind.isSection = false := by
      rw [hk]
      rfl
    have hpop : s.kind ≠ .popSection := by
      rw [hk]
      decide
    obtain ⟨_, _, _, _, h⟩ := exists_step_of_kind scan index s hsection hpop file
    rw [h]
    rfl

theorem inForce_step_of_pop (hk : s.kind = .popSection) :
    (scan.step file index s).inForce = scan.saved.head?.getD scan.inForce := by
  simp only [step, hk, pop]
  cases h : scan.saved <;> simp

theorem inForce_select {name : String} (hs : sectionName s = name) (hname : name ≠ "") :
    (scan.select index s).inForce = some (scan.anchors[name]?.getD index) := by
  subst hs
  simp only [select, if_neg hname]
  cases h : scan.anchors[sectionName s]? <;> simp

theorem anchors_select (name : String) (hname : name ≠ "") :
    (scan.select index s).anchors[name]? =
      (scan.anchors[name]? <|> if sectionName s = name then some index else none) := by
  by_cases hs : sectionName s = name
  · subst hs
    simp only [select, if_neg hname]
    cases h : scan.anchors[sectionName s]? <;> simp [h]
  · simp only [select, if_neg hs]
    split
    · simp
    · split
      · simp
      · simp [Std.TreeMap.getElem?_insert, hs]

variable {name : String} (hname : name ≠ "")
include hname

theorem inForce_step_of_selectsNamed (hs : SelectsNamed name s) :
    (scan.step file index s).inForce = some (scan.anchors[name]?.getD index) := by
  obtain ⟨hk | hk, hsection⟩ := hs
  · simp only [step, hk]
    exact inForce_select scan index s hsection hname
  · simp only [step, hk, push, hsection, if_neg hname]
    exact inForce_select { scan with saved := scan.inForce :: scan.saved } index s hsection hname

theorem anchors_step : (scan.step file index s).anchors[name]? =
    (scan.anchors[name]? <|> if SelectsNamed name s then some index else none) := by
  cases hk : s.kind with
  | namedSection =>
    simp only [step, hk, anchors_select scan index s name hname, SelectsNamed]
    simp
  | pushSection =>
    simp only [step, hk, push, SelectsNamed]
    by_cases hs : sectionName s = ""
    · simp [hs, Ne.symm hname]
    · rw [if_neg hs, anchors_select { scan with saved := scan.inForce :: scan.saved } index s name hname]
      simp
  | popSection =>
    obtain ⟨_, _, _, h⟩ := exists_pop scan s file
    simp [step, hk, h, SelectsNamed]
  | text | data | bss => simp [step, hk, SelectsNamed]
  | _ =>
    have hsection : s.kind.isSection = false := by
      rw [hk]
      rfl
    have hpop : s.kind ≠ .popSection := by
      rw [hk]
      decide
    obtain ⟨_, _, _, _, h⟩ := exists_step_of_kind scan index s hsection hpop file
    simp [h, SelectsNamed, hk]

omit hname

theorem warnings_other :
    Message.warnings (scan.other file s).messages = Message.warnings scan.messages := by
  simp only [other]
  split
  · simp [Message.warnings]
  · rfl

theorem warnings_pop : Message.warnings (scan.pop file s).messages =
    Message.warnings scan.messages ++ if scan.saved = [] then [popWarning file s] else [] := by
  unfold pop
  cases h : scan.saved <;> simp [Message.warnings, popWarning]

theorem warnings_step : Message.warnings (scan.step file index s).messages =
    Message.warnings scan.messages ++
      if s.kind = .popSection ∧ scan.saved = [] then [popWarning file s] else [] := by
  cases hk : s.kind with
  | popSection => simp only [step, hk, warnings_pop, true_and]
  | namedSection =>
    obtain ⟨_, _, h⟩ := exists_select scan index s
    simp [step, hk, h]
  | pushSection =>
    obtain ⟨_, _, _, h⟩ := exists_push scan index s
    simp [step, hk, h]
  | label =>
    obtain ⟨_, h⟩ := exists_label scan index s
    simp [step, hk, h]
  | common | localCommon =>
    obtain ⟨_, h⟩ := exists_common scan index s
    simp [step, hk, h]
  | type =>
    obtain ⟨_, h⟩ := exists_type scan index s
    simp [step, hk, h]
  | size =>
    obtain ⟨_, h⟩ := exists_size scan index s
    simp [step, hk, h]
  | localNames =>
    obtain ⟨_, h⟩ := exists_setScope scan s .file
    simp [step, hk, h]
  | globalNames =>
    obtain ⟨_, h⟩ := exists_setScope scan s .global
    simp [step, hk, h]
  | text | data | bss | align | p2align | balign => simp [step, hk]
  | _ => simp [step, hk, warnings_other]

end Scan

/-- The `.pushsection` statements that are still free at the end, the last one first. -/
def pending (ss : List Statement) : List Nat :=
  ss.zipIdx.foldl
    (fun free p =>
      if p.1.kind = .pushSection then p.2 :: free
      else if p.1.kind = .popSection then free.tail else free) []

/-- The `.popsection` at `j` takes the `.pushsection` at `i`. -/
def Takes (ss : List Statement) (i j : Nat) : Prop :=
  j ∈ positions (·.kind = .popSection) ss ∧ (pending (ss.take j)).head? = some i

section Pending
variable {ss : List Statement} {s : Statement} {i j : Nat}

theorem pending_concat (ss : List Statement) (s : Statement) : pending (ss ++ [s]) =
    if s.kind = .pushSection then ss.length :: pending ss
    else if s.kind = .popSection then (pending ss).tail else pending ss := by
  simp [pending, List.zipIdx_append]

theorem lt_of_mem_pending (h : i ∈ pending ss) : i < ss.length := by
  induction ss using List.reverseRecOn with
  | nil => cases h
  | append_singleton ss s ih =>
    have hkept : i ∈ pending ss → i < (ss ++ [s]).length := by
      intro hi
      have := ih hi
      rw [List.length_append]
      omega
    rw [pending_concat] at h
    split at h
    · rcases List.mem_cons.mp h with rfl | h
      · simp
      · exact hkept h
    · split at h
      · exact hkept (List.mem_of_mem_tail h)
      · exact hkept h

theorem pairwise_pending (ss : List Statement) : (pending ss).Pairwise (· > ·) := by
  induction ss using List.reverseRecOn with
  | nil => exact .nil
  | append_singleton ss s ih =>
    rw [pending_concat]
    split
    · exact ih.cons fun i hi => lt_of_mem_pending hi
    · split
      · exact ih.tail
      · exact ih

theorem takes_concat : Takes (ss ++ [s]) i j ↔
    Takes ss i j ∨ j = ss.length ∧ s.kind = .popSection ∧ (pending ss).head? = some i := by
  unfold Takes
  rw [mem_positions_concat]
  constructor
  · rintro ⟨hj | ⟨rfl, hpop⟩, hhead⟩
    · rw [List.take_append_of_le_length (lt_of_mem_positions hj).le] at hhead
      exact .inl ⟨hj, hhead⟩
    · rw [List.take_left] at hhead
      exact .inr ⟨rfl, hpop, hhead⟩
  · rintro (⟨hj, hhead⟩ | ⟨rfl, hpop, hhead⟩)
    · rw [List.take_append_of_le_length (lt_of_mem_positions hj).le]
      exact ⟨.inl hj, hhead⟩
    · rw [List.take_left]
      exact ⟨.inr ⟨rfl, hpop⟩, hhead⟩

theorem takes_take : Takes (ss.take j) i k ↔ k < j ∧ Takes ss i k := by
  unfold Takes
  rw [mem_positions_take, List.take_take, and_assoc]
  refine and_congr_right fun hk => ?_
  rw [Nat.min_eq_left hk.le]

theorem lt_of_takes (h : Takes ss i j) : i < j := by
  have hi := lt_of_mem_pending (List.mem_of_mem_head? h.2)
  rw [List.length_take] at hi
  omega

theorem mem_tail_pending_iff :
    i ∈ (pending ss).tail ↔ i ∈ pending ss ∧ (pending ss).head? ≠ some i := by
  have hsorted := pairwise_pending ss
  cases h : pending ss with
  | nil => simp
  | cons first rest =>
    rw [h] at hsorted
    have hfirst : first ∉ rest := by
      intro hmem
      exact Nat.lt_irrefl first (List.rel_of_pairwise_cons hsorted hmem)
    simp only [List.tail_cons, List.mem_cons, List.head?_cons, ne_eq, Option.some.injEq]
    constructor
    · intro hi
      exact ⟨.inr hi, fun heq => hfirst (heq ▸ hi)⟩
    · rintro ⟨rfl | hi, hne⟩
      · exact absurd rfl hne
      · exact hi

/-- A `.pushsection` is free as long as nothing took it. -/
theorem mem_pending_iff : i ∈ pending ss ↔
    i ∈ positions (·.kind = .pushSection) ss ∧ ∀ k, ¬ Takes ss i k := by
  induction ss using List.reverseRecOn with
  | nil => exact ⟨nofun, fun h => absurd (lt_of_mem_positions h.1) (Nat.not_lt_zero i)⟩
  | append_singleton ss s ih =>
    have hfree : (∀ k, ¬ Takes (ss ++ [s]) i k) ↔
        (∀ k, ¬ Takes ss i k) ∧ ¬ (s.kind = .popSection ∧ (pending ss).head? = some i) := by
      simp only [takes_concat, not_or, forall_and]
      simp
    rw [pending_concat, mem_positions_concat, hfree]
    by_cases hpush : s.kind = .pushSection
    · have hnew : i = ss.length → ∀ k, ¬ Takes ss i k := by
        rintro rfl k hk
        exact absurd (lt_of_takes hk) (Nat.lt_asymm (lt_of_mem_positions hk.1))
      simp only [hpush, if_true, List.mem_cons, ih, reduceCtorEq, false_and, not_false_eq_true,
        and_true]
      constructor
      · rintro (hi | ⟨hi, hk⟩)
        · exact ⟨.inr hi, hnew hi⟩
        · exact ⟨.inl hi, hk⟩
      · rintro ⟨hi | hi, hk⟩
        · exact .inr ⟨hi, hk⟩
        · exact .inl hi
    · by_cases hpop : s.kind = .popSection
      · simp [hpop, mem_tail_pending_iff, ih, and_assoc]
      · simp [hpush, hpop, ih]

theorem isGreatest_iff_head?_pending :
    IsGreatest {k | k ∈ pending ss} i ↔ (pending ss).head? = some i := by
  have hsorted := pairwise_pending ss
  constructor
  · rintro ⟨hmem, hmax⟩
    cases h : pending ss with
    | nil =>
      rw [Set.mem_ofPred_eq, h] at hmem
      cases hmem
    | cons first rest =>
      have hle : first ≤ i := hmax (by rw [Set.mem_ofPred_eq, h]; exact List.mem_cons_self)
      rw [Set.mem_ofPred_eq, h] at hmem
      rcases List.mem_cons.mp hmem with rfl | hmem
      · rfl
      · rw [h] at hsorted
        exact absurd (List.rel_of_pairwise_cons hsorted hmem) (Nat.not_lt.mpr hle)
  · intro hhead
    refine ⟨List.mem_of_mem_head? hhead, ?_⟩
    intro k hk
    obtain ⟨rest, hrest⟩ := List.head?_eq_some_iff.mp hhead
    rw [Set.mem_ofPred_eq, hrest] at hk
    rw [hrest] at hsorted
    rcases List.mem_cons.mp hk with rfl | hk
    · exact Nat.le_refl k
    · exact (List.rel_of_pairwise_cons hsorted hk).le

theorem isMatching_takes (ss : List Statement) : IsMatching ss (Takes ss) := by
  intro i j
  have hfree : {k | k ∈ positions (·.kind = .pushSection) ss ∧ k < j ∧ ∀ m < j, ¬ Takes ss k m} =
      {k | k ∈ pending (ss.take j)} := by
    ext k
    simp only [Set.mem_ofPred_eq, mem_pending_iff, mem_positions_take, takes_take, not_and]
    tauto
  rw [hfree, isGreatest_iff_head?_pending]
  rfl

/-- The partner of a `.popsection` depends on those in front of it only, so there is one matching. -/
theorem IsMatching.eq_takes {pairs : Nat → Nat → Prop} (h : IsMatching ss pairs) :
    pairs = Takes ss := by
  funext i j
  induction j using Nat.strong_induction_on generalizing i with
  | _ j ih =>
    have hfree : {k | k ∈ positions (·.kind = .pushSection) ss ∧ k < j ∧ ∀ m < j, ¬ pairs k m} =
        {k | k ∈ positions (·.kind = .pushSection) ss ∧ k < j ∧ ∀ m < j, ¬ Takes ss k m} := by
      ext k
      refine and_congr_right fun _ => and_congr_right fun _ => forall₂_congr fun m hm => ?_
      rw [ih m hm k]
    rw [eq_iff_iff, h i j, isMatching_takes ss i j, hfree]

end Pending

variable {file : String} {ss : List Statement} {s : Statement} {i j : Nat}

theorem inForceAt_succ (h : ss[j]? = some s) : inForceAt file ss (j + 1) =
    ((Scan.run file (ss.take j)).step file j s).inForce := by
  have hj := (List.getElem?_eq_some_iff.mp h).1
  rw [inForceAt, List.take_add_one, h, Option.toList_some, Scan.run_concat, List.length_take,
    Nat.min_eq_left hj.le]

/-- The pass saves the sections in force at the free `.pushsection` statements. -/
theorem saved_run (file : String) (ss : List Statement) :
    (Scan.run file ss).saved = (pending ss).map (inForceAt file ss) := by
  induction ss using List.reverseRecOn with
  | nil => rfl
  | append_singleton ss s ih =>
    have hkept : (pending ss).map (inForceAt file (ss ++ [s])) =
        (pending ss).map (inForceAt file ss) :=
      List.map_congr_left fun i hi => inForceAt_concat (lt_of_mem_pending hi).le
    rw [Scan.run_concat, Scan.saved_step, pending_concat, ih]
    by_cases hpush : s.kind = .pushSection
    · rw [if_pos hpush, if_pos hpush, List.map_cons, hkept, inForceAt_concat (Nat.le_refl _),
        inForceAt_length]
    · by_cases hpop : s.kind = .popSection
      · rw [if_neg hpush, if_neg hpush, if_pos hpop, if_pos hpop, List.map_tail, hkept]
      · rw [if_neg hpush, if_neg hpush, if_neg hpop, if_neg hpop, hkept]

/-- After a `.popsection`, the section of its partner is in force again. -/
theorem inForceAt_succ_of_pop (h : j ∈ positions (·.kind = .popSection) ss) :
    inForceAt file ss (j + 1) =
      ((pending (ss.take j)).head?.map (inForceAt file ss)).getD (inForceAt file ss j) := by
  obtain ⟨s, hs, hk⟩ := h
  have hsame : (pending (ss.take j)).map (inForceAt file (ss.take j)) =
      (pending (ss.take j)).map (inForceAt file ss) := by
    refine List.map_congr_left fun i hi => ?_
    have hlt := lt_of_mem_pending hi
    rw [List.length_take] at hlt
    rw [inForceAt, inForceAt, List.take_take, Nat.min_eq_left (by omega)]
  rw [inForceAt_succ hs, Scan.inForce_step_of_pop _ _ _ _ hk, saved_run, hsame, List.head?_map]
  rfl

theorem anchors_run (file : String) (ss : List Statement) {name : String} (hname : name ≠ "") :
    IsFirst (Scan.run file ss).anchors[name]? (positions (SelectsNamed name) ss) := by
  induction ss using List.reverseRecOn with
  | nil =>
    have hempty : (Scan.run file []).anchors[name]? = none := by simp [Scan.run]
    rw [hempty]
    exact isFirst_nil _
  | append_singleton ss s ih =>
    rw [Scan.run_concat, Scan.anchors_step _ _ _ _ hname]
    exact ih.concat

theorem isLeast_positions_take {p : Statement → Prop} {first : Nat}
    (h : IsLeast (positions p (ss.take j)) first) : IsLeast (positions p ss) first := by
  have hfirst := mem_positions_take.mp h.1
  refine ⟨hfirst.2, ?_⟩
  intro k hk
  by_cases hkj : k < j
  · exact h.2 (mem_positions_take.mpr ⟨hkj, hk⟩)
  · omega

/-- All selections of a name put the first of them in force. -/
theorem exists_inForceAt_of_selectsNamed (file : String) {name : String} (hname : name ≠ "")
    (h : i ∈ positions (SelectsNamed name) ss) :
    ∃ first, IsLeast (positions (SelectsNamed name) ss) first ∧
      inForceAt file ss (i + 1) = some first := by
  obtain ⟨s, hs, hsel⟩ := id h
  have hanchors := anchors_run file (ss.take i) hname
  refine ⟨_, ?_, (inForceAt_succ hs).trans (Scan.inForce_step_of_selectsNamed _ _ _ _ hname hsel)⟩
  cases hfirst : (Scan.run file (ss.take i)).anchors[name]? with
  | some first => exact isLeast_positions_take ((hanchors first).mp hfirst)
  | none =>
    -- Nothing in front of it selects the name, so it is the first one itself.
    rw [hfirst] at hanchors
    refine ⟨h, ?_⟩
    intro k hk
    by_contra hlt
    have hmem : k ∈ positions (SelectsNamed name) (ss.take i) :=
      mem_positions_take.mpr ⟨Nat.not_le.mp hlt, hk⟩
    rw [hanchors.eq_empty] at hmem
    exact hmem

/-- The pass warns of the `.popsection` statements that find nothing to take. -/
theorem exists_warned (file : String) (ss : List Statement) :
    ∃ unmatched : List Nat, unmatched.Pairwise (· < ·) ∧
      (∀ j, j ∈ unmatched ↔ j ∈ positions (·.kind = .popSection) ss ∧ pending (ss.take j) = []) ∧
      List.Forall₂ (fun j text => ∃ s, ss[j]? = some s ∧ text = popWarning file s) unmatched
        (Message.warnings (Scan.run file ss).messages) := by
  induction ss using List.reverseRecOn with
  | nil =>
    refine ⟨[], .nil, ?_, .nil⟩
    intro j
    exact ⟨nofun, fun h => absurd (lt_of_mem_positions h.1) (Nat.not_lt_zero j)⟩
  | append_singleton ss s ih =>
    obtain ⟨unmatched, hsorted, hmem, htexts⟩ := ih
    have hfree : (Scan.run file ss).saved = [] ↔ pending ss = [] := by
      rw [saved_run, List.map_eq_nil_iff]
    have hkept : List.Forall₂ (fun j text => ∃ t, (ss ++ [s])[j]? = some t ∧ text = popWarning file t)
        unmatched (Message.warnings (Scan.run file ss).messages) := by
      refine htexts.imp ?_
      rintro j text ⟨t, ht, htext⟩
      exact ⟨t, List.getElem?_append_left (List.getElem?_eq_some_iff.mp ht).1 ▸ ht, htext⟩
    have hnew : ∀ j, j ∈ positions (·.kind = .popSection) (ss ++ [s]) ∧
          pending ((ss ++ [s]).take j) = [] ↔
        j ∈ unmatched ∨ j = ss.length ∧ s.kind = .popSection ∧ pending ss = [] := by
      intro j
      rw [mem_positions_concat, or_and_right, hmem]
      refine or_congr (and_congr_right fun hj => ?_) ?_
      · rw [List.take_append_of_le_length (lt_of_mem_positions hj).le]
      · rw [and_assoc]
        refine and_congr_right ?_
        rintro rfl
        rw [List.take_left]
    rw [Scan.run_concat, Scan.warnings_step]
    simp only [hnew, hfree]
    by_cases hpop : s.kind = .popSection ∧ pending ss = []
    · refine ⟨unmatched ++ [ss.length], ?_, ?_, ?_⟩
      · rw [List.pairwise_append]
        refine ⟨hsorted, List.pairwise_singleton _ _, ?_⟩
        intro j hj k hk
        obtain rfl := List.mem_singleton.mp hk
        exact lt_of_mem_positions ((hmem j).mp hj).1
      · intro j
        simp [hpop]
      · rw [if_pos hpop]
        exact List.rel_append hkept (.cons ⟨s, by simp, rfl⟩ .nil)
    · refine ⟨unmatched, hsorted, ?_, ?_⟩
      · intro j
        simp [hpop]
      · rw [if_neg hpop, List.append_nil]
        exact hkept

/-- The matching of `.pushsection` and `.popsection` decides which section is in force. -/
theorem exists_nested (file : String) (ss : List Statement) : ∃ pairs, Nested file ss pairs := by
  have hfree : ∀ j, j ∈ positions (·.kind = .popSection) ss →
      ((∀ i, ¬ Takes ss i j) ↔ pending (ss.take j) = []) := by
    intro j hj
    simp [Takes, hj, ← List.head?_eq_none_iff, Option.eq_none_iff_forall_ne_some]
  refine ⟨Takes ss, ?_, ?_, ?_, ?_, ?_, ?_⟩
  · intro other
    constructor
    · intro h
      exact h.eq_takes
    · rintro rfl
      exact isMatching_takes ss
  · intro i j h
    rw [inForceAt_succ_of_pop h.1, h.2]
    rfl
  · intro j hj h
    rw [inForceAt_succ_of_pop hj, (hfree j hj).mp h]
    rfl
  · obtain ⟨unmatched, hsorted, hmem, htexts⟩ := exists_warned file ss
    refine ⟨unmatched, hsorted, ?_, ?_⟩
    · intro j
      rw [hmem]
      exact and_congr_right fun hj => (hfree j hj).symm
    · have hsame : (ofStatements file ss).warnings =
          Message.warnings (Scan.run file ss).messages := by
        simp [warnings, ofStatements, Message.warnings]
      rw [hsame]
      exact htexts
  · intro name hname i hi
    exact exists_inForceAt_of_selectsNamed file hname hi
  · intro name symbol h
    have hget : (Scan.run file ss).symbols[name]? = some symbol := h
    have hsymbol : (Scan.run file ss).symbols.symbolOf name = symbol := by
      rw [SymbolTable.symbolOf, Std.TreeMap.getD_eq_getD_getElem?, hget, Option.getD_some]
    rw [← hsymbol]
    exact sectionAt_run file name ss

end AsmCompare.Listing
