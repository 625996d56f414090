import AsmCompare.Proofs.Source.Regions

/-! # Cutting a source loses nothing

The statements of a line hold, in order, all its characters but the comment, the separators and
blanks.
-/
namespace AsmCompare.Source
open Text

/-- The characters of a text that are not blank. -/
def solid (s : List Char) : List Char := s.filter fun c => !isBlank c

/-- What a line holds besides its comment, its separators and blanks. -/
def content (ms : List Marked) : List Char :=
  solid (((ms.takeWhile fun m => !(m.char = '#' && !m.quoted)).filter fun m =>
    !(m.char = ';' && !m.quoted)).map Marked.char)

theorem solid_append (s t : List Char) : solid (s ++ t) = solid s ++ solid t := List.filter_append ..

theorem solid_of_forall {s : List Char} (h : ∀ c ∈ s, isBlank c = true) : solid s = [] := by
  rw [solid, List.filter_eq_nil_iff]
  intro c hc
  simp [h c hc]

theorem solid_trim (s : List Char) : solid (trim s) = solid s := by
  obtain ⟨before, after, hs, hbefore, hafter⟩ := exists_eq_append_trim s
  have hsolid := congrArg solid hs
  rw [solid_append, solid_append, solid_of_forall hbefore, solid_of_forall hafter] at hsolid
  rw [hsolid, List.nil_append, List.append_nil]

theorem solid_flatten_map {f : List Char → List Char} (h : ∀ s, solid (f s) = solid s)
    (texts : List (List Char)) : solid (texts.map f).flatten = solid texts.flatten := by
  induction texts with
  | nil => rfl
  | cons text texts ih =>
    rw [List.map_cons, List.flatten_cons, List.flatten_cons, solid_append, solid_append, h, ih]

section Splitting

variable (separates : Char → Bool)

/-- The characters that no split removes. -/
def joining (ms : List Marked) : List Char :=
  (ms.filter fun m => !(separates m.char && !m.quoted)).map Marked.char

theorem flatten_splitMarked (line : List Char) :
    (splitMarked separates none (mark line)).flatten = joining separates (mark line) := by
  have hitems : ∀ items : List (List Char), (items.flatMap mark).map Marked.char = items.flatten := by
    intro items
    rw [List.map_flatMap, List.flatMap_def]
    simp
  rw [← hitems, flatMap_mark_splitMarked]
  rfl

theorem joining_trim (s : List Char) :
    solid (joining separates (mark (trim s))) = solid (joining separates (mark s)) := by
  have hblank : ∀ ms : List Marked, (∀ m ∈ ms, isBlank m.char = true) →
      solid (joining separates ms) = [] := by
    intro ms hms
    apply solid_of_forall
    intro c hc
    obtain ⟨m, hm, rfl⟩ := List.mem_map.mp hc
    exact hms m (List.mem_filter.mp hm).1
  obtain ⟨before, after, hs, hbefore, hafter⟩ := exists_mark_eq_append s
  have happend : joining separates (mark s) =
      joining separates before ++ joining separates (mark (trim s)) ++ joining separates after := by
    rw [hs]
    simp [joining]
  rw [happend, solid_append, solid_append, hblank before hbefore, hblank after hafter,
    List.nil_append, List.append_nil]

theorem solid_splitTrim (line : List Char) :
    solid (splitTrim separates none line).flatten = solid (joining separates (mark line)) := by
  rw [← joining_trim, ← flatten_splitMarked, splitTrim]
  split
  · next hnil =>
    rw [hnil]
    rfl
  · next c rest hcons => rw [hcons, solid_flatten_map solid_trim]

end Splitting

theorem solid_splitStatements (line : List Char) :
    solid (splitStatements line).flatten = solid (joining (· = ';') (mark line)) := by
  rw [splitStatements, List.flatten_filter_not_isEmpty, solid_splitTrim]

theorem mark_stripComment (line : List Char) :
    mark (stripComment line) = (mark line).takeWhile fun m => !(m.char = '#' && !m.quoted) :=
  mark_map_char (List.takeWhile_prefix _)

theorem leadingLabel?_eq_some_iff {statement label rest : List Char} :
    leadingLabel? statement = some (label, rest) ↔
      ∃ name, name ≠ [] ∧ (∀ c ∈ name, isLabelChar c = true) ∧ label = name ++ [':'] ∧
        statement = label ++ rest := by
  constructor
  · intro h
    unfold leadingLabel? at h
    split at h
    · next more hmore =>
      split at h
      · cases h
      · next hne =>
        cases h
        refine ⟨_, by simpa using hne, List.all_eq_true.mp List.all_takeWhile, rfl, ?_⟩
        rw [List.append_assoc, List.singleton_append, ← hmore, List.takeWhile_append_dropWhile]
    · cases h
  · rintro ⟨name, hne, hname, rfl, rfl⟩
    have hdrop : (name ++ [':'] ++ rest).dropWhile isLabelChar = ':' :: rest := by
      rw [List.append_assoc, List.dropWhile_append_of_pos hname]
      rfl
    have htake : (name ++ [':'] ++ rest).takeWhile isLabelChar = name := by
      rw [List.append_assoc, List.takeWhile_append_of_pos hname]
      exact List.append_nil name
    unfold leadingLabel?
    rw [hdrop, htake]
    simp [hne]

/-- A label that is taken off a statement is a name with its colon. -/
theorem exists_name_of_splitLabel {statement label rest : List Char}
    (h : splitLabel statement = (some label, rest)) :
    ∃ name more, name ≠ [] ∧ (∀ c ∈ name, isLabelChar c = true) ∧ label = name ++ [':'] ∧
      statement = label ++ more ∧ rest = trim more := by
  obtain ⟨more, hmore, hrest⟩ := exists_of_splitLabel h
  obtain ⟨name, hne, hname, hlabel, hstatement⟩ := leadingLabel?_eq_some_iff.mp hmore
  exact ⟨name, more, hne, hname, hlabel, hstatement, hrest⟩

theorem solid_peelLabels (statement : List Char) :
    solid (peelLabels statement).flatten = solid statement := by
  fun_induction peelLabels statement with
  | case1 statement label rest h _ ih =>
    obtain ⟨name, more, -, -, -, rfl, rfl⟩ := exists_name_of_splitLabel h
    rw [List.flatten_cons, solid_append, ih, solid_trim, solid_append]
  | case2 statement rest h hempty =>
    obtain ⟨-, rfl⟩ := of_splitLabel_eq_none h
    rw [List.isEmpty_iff.mp hempty]
    rfl
  | case3 statement rest h hempty =>
    obtain ⟨-, rfl⟩ := of_splitLabel_eq_none h
    rw [List.flatten_singleton]

theorem solid_lineStatements (line : List Char) :
    solid (lineStatements line).flatten = content (mark line) := by
  rw [lineStatements, List.flatMap_def]
  calc solid ((splitStatements (trim (stripComment line))).map peelLabels).flatten.flatten
      = solid (splitStatements (trim (stripComment line))).flatten := by
        rw [List.flatten_flatten, List.map_map]
        exact solid_flatten_map solid_peelLabels _
    _ = content (mark line) := by
        rw [solid_splitStatements, joining_trim, mark_stripComment]
        rfl

theorem ne_nil_of_mem_peelLabels {statement text : List Char} (h : text ∈ peelLabels statement) :
    text ≠ [] := by
  fun_induction peelLabels statement with
  | case1 statement label rest hlabel _ ih =>
    rcases List.mem_cons.mp h with rfl | h
    · obtain ⟨name, more, -, -, rfl, -, -⟩ := exists_name_of_splitLabel hlabel
      simp
    · exact ih h
  | case2 => cases h
  | case3 statement rest _ hempty =>
    obtain rfl := List.mem_singleton.mp h
    simpa using hempty

/-- The line with a number. Lines are counted from one, and there is nothing past the last. -/
def lineAt (source : String) (number : Nat) : List Char :=
  ([] :: splitLines source.toList).getD number []

/-- The statements of a line, one after the other. -/
def textAt (source : String) (number : Nat) : List Char :=
  ((statements source).filter fun p => p.2 = number).flatMap fun p => p.1.toList

/-- The statements of lines that are counted from a number. -/
def numbered (lines : List (List Char)) (first : Nat) : List (String × Nat) :=
  (lines.zipIdx first).flatMap fun (line, number) =>
    (lineStatements line).map fun text => (String.ofList text, number)

theorem lineStatements_nil : lineStatements [] = [] := rfl

theorem numbered_cons (line : List Char) (lines : List (List Char)) (first : Nat) :
    numbered (line :: lines) first =
      ((lineStatements line).map fun text => (String.ofList text, first)) ++
        numbered lines (first + 1) := rfl

theorem textAt_numbered (lines : List (List Char)) (first number : Nat) :
    (((numbered lines first).filter fun p => p.2 = number).flatMap fun p => p.1.toList) =
      if first ≤ number then (lineStatements (lines.getD (number - first) [])).flatten else [] := by
  induction lines generalizing first with
  | nil =>
    rw [List.getD_nil, lineStatements_nil, List.flatten_nil, ite_self]
    rfl
  | cons line lines ih =>
    rw [numbered_cons, List.filter_append, List.flatMap_append, ih]
    by_cases hfirst : first = number
    · have hline : ((lineStatements line).map fun text => (String.ofList text, first)).filter
          (fun p => p.2 = number) =
            (lineStatements line).map fun text => (String.ofList text, first) :=
        List.filter_eq_self.mpr (by simp [hfirst])
      have hpast : ¬ first + 1 ≤ number := by omega
      have hindex : number - first = 0 := by omega
      rw [hline, if_neg hpast, if_pos (Nat.le_of_eq hfirst), hindex, List.append_nil,
        List.flatMap_map]
      simp [List.flatMap_def]
    · have hline : ((lineStatements line).map fun text => (String.ofList text, first)).filter
          (fun p => p.2 = number) = [] :=
        List.filter_eq_nil_iff.mpr (by simp [hfirst])
      rw [hline, List.flatMap_nil, List.nil_append]
      by_cases hle : first ≤ number
      · obtain ⟨k, hk⟩ : ∃ k, number - first = k + 1 := ⟨number - (first + 1), by omega⟩
        have hindex : number - (first + 1) = k := by omega
        have hnext : first + 1 ≤ number := by omega
        rw [if_pos hle, if_pos hnext, hk, hindex, List.getD_cons_succ]
      · have hnext : ¬ first + 1 ≤ number := by omega
        rw [if_neg hle, if_neg hnext]

theorem textAt_eq (source : String) (number : Nat) :
    textAt source number = (lineStatements (lineAt source number)).flatten := by
  have h := textAt_numbered (splitLines source.toList) 1 number
  cases number with
  | zero =>
    rw [lineAt, List.getD_cons_zero, lineStatements_nil]
    exact h
  | succ number =>
    rw [lineAt, List.getD_cons_succ]
    exact h.trans (if_pos (Nat.le_add_left 1 number))

theorem pairwise_numbered (lines : List (List Char)) (first : Nat) :
    ((numbered lines first).map Prod.snd).Pairwise (· ≤ ·) := by
  have hnumbers : (lines.zipIdx first).Pairwise fun p q => p.2 < q.2 := by
    rw [← List.pairwise_map (f := Prod.snd) (R := (· < ·)), List.zipIdx_map_snd]
    exact List.pairwise_lt_range'
  rw [numbered, List.map_flatMap, List.pairwise_flatMap]
  constructor
  · intro p _
    rw [List.map_map, List.pairwise_map]
    exact List.pairwise_of_forall fun _ _ => Nat.le_refl p.2
  · apply hnumbers.imp
    intro p q hlt i hi j hj
    obtain ⟨u, hu, rfl⟩ := List.mem_map.mp hi
    obtain ⟨v, hv, rfl⟩ := List.mem_map.mp hj
    obtain ⟨_, -, rfl⟩ := List.mem_map.mp hu
    obtain ⟨_, -, rfl⟩ := List.mem_map.mp hv
    exact Nat.le_of_lt hlt

/-- The statements of each line hold what the line holds, and they come line after line. -/
theorem statements_complete (source : String) :
    (∀ number, ∃ ms, (∀ other, Regions (lineAt source number) other ↔ other = ms) ∧
        solid (textAt source number) = content ms) ∧
      ((statements source).map Prod.snd).Pairwise (· ≤ ·) ∧
      "" ∉ (statements source).map Prod.fst := by
  refine ⟨?_, ?_, ?_⟩
  · intro number
    refine ⟨mark (lineAt source number), fun _ => regions_iff, ?_⟩
    rw [textAt_eq, solid_lineStatements]
  · exact pairwise_numbered (splitLines source.toList) 1
  · intro hempty
    obtain ⟨p, hp, hnil⟩ := List.mem_map.mp hempty
    obtain ⟨line, -, hp⟩ := List.mem_flatMap.mp hp
    obtain ⟨text, htext, rfl⟩ := List.mem_map.mp hp
    obtain ⟨statement, -, htext⟩ := List.mem_flatMap.mp htext
    exact ne_nil_of_mem_peelLabels htext (by simpa using hnil)

end AsmCompare.Source
