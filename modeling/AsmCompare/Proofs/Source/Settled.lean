import AsmCompare.Proofs.Source.Kept

/-! # Statements are not cut again

A statement text has no comment, separator or label left to take off, so a source with one
statement on each line has these statements.
-/
namespace AsmCompare.Source
open Text

/-- A text that holds one statement and nothing else. -/
structure Settled (s : List Char) : Prop where
  nonempty : s ≠ []
  trimmed : trim s = s
  uncut : ∀ m ∈ mark s, m.quoted = false → m.char ≠ '#' ∧ m.char ≠ ';'
  unlabeled : peelLabels s = [s]

theorem mark_trim_subset (s : List Char) : mark (trim s) ⊆ mark s := by
  obtain ⟨before, after, hs, -, -⟩ := exists_mark_eq_append s
  intro m hm
  rw [hs]
  exact List.mem_append_left _ (List.mem_append_right _ hm)

theorem exists_of_mem_splitStatements {line item : List Char} (h : item ∈ splitStatements line) :
    ∃ raw ∈ splitMarked (· = ';') none (mark (trim line)), item = trim raw := by
  have hitem := (List.mem_filter.mp h).1
  rw [splitTrim] at hitem
  split at hitem
  · cases hitem
  · next c rest hline =>
    rw [← hline] at hitem
    obtain ⟨raw, hraw, rfl⟩ := List.mem_map.mp hitem
    exact ⟨raw, hraw, rfl⟩

theorem mark_subset_of_mem_splitStatements {line item : List Char}
    (h : item ∈ splitStatements line) :
    mark item ⊆ (mark line).filter fun m => !(m.char = ';' && !m.quoted) := by
  obtain ⟨raw, hraw, rfl⟩ := exists_of_mem_splitStatements h
  intro m hm
  have hkept : m ∈ (mark (trim line)).filter fun m => !(m.char = ';' && !m.quoted) := by
    rw [← flatMap_mark_splitMarked (· = ';')]
    exact List.mem_flatMap.mpr ⟨raw, hraw, mark_trim_subset raw hm⟩
  obtain ⟨hmem, hsep⟩ := List.mem_filter.mp hkept
  exact List.mem_filter.mpr ⟨mark_trim_subset line hmem, hsep⟩

theorem isQuote_of_mem_label {name : List Char} (h : ∀ c ∈ name, isLabelChar c = true) {c : Char}
    (hc : c ∈ name ++ [':']) : isQuote c = false := by
  rw [Bool.eq_false_iff]
  intro hquote
  rw [isQuote, Bool.or_eq_true, decide_eq_true_eq, decide_eq_true_eq] at hquote
  rcases List.mem_append.mp hc with hc | hc
  · have hlabel := h c hc
    rcases hquote with rfl | rfl
    · cases hlabel
    · cases hlabel
  · obtain rfl := List.mem_singleton.mp hc
    revert hquote
    decide

theorem isBlank_of_isLabelChar {c : Char} (h : isLabelChar c = true) : isBlank c = false := by
  rw [isLabelChar, Bool.or_eq_true, Bool.or_eq_true, decide_eq_true_eq, decide_eq_true_eq] at h
  rcases h with (hword | rfl) | rfl
  · have hcase : (c.isAlpha || c.isDigit) = true := hword
    rcases Bool.or_eq_true _ _ ▸ hcase with hletter | hdigit
    · have := toNat_of_isAlpha hletter
      apply isBlank_of_visible <;> omega
    · have := toNat_of_isDigit hdigit
      apply isBlank_of_visible <;> omega
  · decide
  · decide

theorem peelLabels_of_some {statement label rest : List Char}
    (h : leadingLabel? statement = some (label, rest)) :
    peelLabels statement = label :: peelLabels (trim rest) := by
  have hsplit := splitLabel_of_some h
  rw [peelLabels]
  split
  · next heq =>
    cases hsplit.symm.trans heq
    rfl
  · next heq => cases hsplit.symm.trans heq

theorem peelLabels_of_none {statement : List Char} (h : leadingLabel? statement = none) :
    peelLabels statement = if statement.isEmpty then [] else [statement] := by
  have hsplit := splitLabel_of_none h
  rw [peelLabels]
  split
  · next heq => cases hsplit.symm.trans heq
  · next heq =>
    cases hsplit.symm.trans heq
    rfl

theorem mark_subset_of_mem_peelLabels {statement text : List Char}
    (h : text ∈ peelLabels statement) : mark text ⊆ mark statement := by
  fun_induction peelLabels statement with
  | case1 statement label rest hlabel _ ih =>
    obtain ⟨name, more, -, hname, rfl, rfl, rfl⟩ := exists_name_of_splitLabel hlabel
    rcases List.mem_cons.mp h with rfl | h
    · exact (markFrom_isPrefixOf none _ more).subset
    · intro m hm
      rw [mark_append_of_forall fun c hc => isQuote_of_mem_label hname hc]
      exact List.mem_append_right _ (mark_trim_subset more (ih h hm))
  | case2 => cases h
  | case3 statement rest hlabel =>
    obtain ⟨-, rfl⟩ := of_splitLabel_eq_none hlabel
    obtain rfl := List.mem_singleton.mp h
    exact fun _ hm => hm

/-- A statement has marks of its line only, and none of a comment or a separator. -/
theorem mark_subset_of_mem_lineStatements {line text : List Char} (h : text ∈ lineStatements line) :
    mark text ⊆ ((mark line).takeWhile fun m => !(m.char = '#' && !m.quoted)).filter fun m =>
      !(m.char = ';' && !m.quoted) := by
  obtain ⟨statement, hstatement, htext⟩ := List.mem_flatMap.mp h
  intro m hm
  have hitem := mark_subset_of_mem_splitStatements hstatement (mark_subset_of_mem_peelLabels htext hm)
  obtain ⟨hmem, hsep⟩ := List.mem_filter.mp hitem
  have hline := mark_trim_subset _ hmem
  rw [mark_stripComment] at hline
  exact List.mem_filter.mpr ⟨hline, hsep⟩

theorem trim_label {name : List Char} (hne : name ≠ []) (h : ∀ c ∈ name, isLabelChar c = true) :
    trim (name ++ [':']) = name ++ [':'] := by
  apply trim_eq_self
  · intro c hc
    cases name with
    | nil => exact absurd rfl hne
    | cons d name =>
      obtain rfl := Option.some.inj hc
      exact isBlank_of_isLabelChar (h d List.mem_cons_self)
  · intro c hc
    rw [List.getLast?_concat] at hc
    obtain rfl := Option.some.inj hc
    decide

theorem trim_of_mem_peelLabels {statement text : List Char} (htrim : trim statement = statement)
    (h : text ∈ peelLabels statement) : trim text = text := by
  fun_induction peelLabels statement with
  | case1 statement label rest hlabel _ ih =>
    obtain ⟨name, more, hne, hname, rfl, -, rfl⟩ := exists_name_of_splitLabel hlabel
    rcases List.mem_cons.mp h with rfl | h
    · exact trim_label hne hname
    · exact ih (trim_trim more) h
  | case2 => cases h
  | case3 statement rest hlabel =>
    obtain ⟨-, rfl⟩ := of_splitLabel_eq_none hlabel
    obtain rfl := List.mem_singleton.mp h
    exact htrim

/-- A label has nothing but itself to take off. -/
theorem peelLabels_label {name : List Char} (hne : name ≠ [])
    (h : ∀ c ∈ name, isLabelChar c = true) : peelLabels (name ++ [':']) = [name ++ [':']] := by
  have halone : leadingLabel? (name ++ [':']) = some (name ++ [':'], []) :=
    leadingLabel?_eq_some_iff.mpr ⟨name, hne, h, rfl, (List.append_nil _).symm⟩
  have hempty : peelLabels [] = [] := peelLabels_of_none rfl
  rw [peelLabels_of_some halone, trim, trimEnds_nil, hempty]

theorem peelLabels_of_mem_peelLabels {statement text : List Char}
    (h : text ∈ peelLabels statement) : peelLabels text = [text] := by
  fun_induction peelLabels statement with
  | case1 statement label rest hlabel _ ih =>
    rcases List.mem_cons.mp h with rfl | h
    · obtain ⟨name, more, hne, hname, rfl, -, -⟩ := exists_name_of_splitLabel hlabel
      exact peelLabels_label hne hname
    · exact ih h
  | case2 => cases h
  | case3 statement rest hlabel hempty =>
    obtain ⟨hnone, rfl⟩ := of_splitLabel_eq_none hlabel
    obtain rfl := List.mem_singleton.mp h
    rw [peelLabels_of_none hnone, if_neg hempty]

theorem settled_of_mem_lineStatements {line text : List Char} (h : text ∈ lineStatements line) :
    Settled text := by
  obtain ⟨statement, hstatement, htext⟩ := List.mem_flatMap.mp h
  have htrim : trim statement = statement := by
    obtain ⟨raw, -, rfl⟩ := exists_of_mem_splitStatements hstatement
    exact trim_trim raw
  refine ⟨ne_nil_of_mem_peelLabels htext, trim_of_mem_peelLabels htrim htext, ?_,
    peelLabels_of_mem_peelLabels htext⟩
  intro m hm hplain
  obtain ⟨hkept, hsep⟩ := List.mem_filter.mp (mark_subset_of_mem_lineStatements h hm)
  have hcomment := List.all_eq_true.mp List.all_takeWhile m hkept
  constructor
  · simpa [hplain] using hcomment
  · simpa [hplain] using hsep

theorem mem_of_mem_lineStatements {line text : List Char} (h : text ∈ lineStatements line)
    {c : Char} (hc : c ∈ text) : c ∈ line := by
  rw [← map_char_mark text] at hc
  obtain ⟨m, hm, rfl⟩ := List.mem_map.mp hc
  have hkept := (List.mem_filter.mp (mark_subset_of_mem_lineStatements h hm)).1
  have hline := (List.takeWhile_prefix _).subset hkept
  rw [← map_char_mark line]
  exact List.mem_map_of_mem hline

theorem splitMarked_of_forall {separates : Char → Bool} {limit : Option Nat} {ms : List Marked}
    (h : ∀ m ∈ ms, (separates m.char && !m.quoted) = false) :
    splitMarked separates limit ms = [ms.map Marked.char] := by
  fun_induction splitMarked separates limit ms with
  | case1 => rfl
  | case2 => rfl
  | case3 limit m ms _ hsep =>
    rw [h m List.mem_cons_self] at hsep
    cases hsep
  | case4 limit m ms _ _ hnil ih =>
    have hrest := ih fun n hn => h n (List.mem_cons_of_mem m hn)
    cases hnil.symm.trans hrest
  | case5 limit m ms _ _ item items hcons ih =>
    have hrest := ih fun n hn => h n (List.mem_cons_of_mem m hn)
    cases hcons.symm.trans hrest
    rfl

theorem splitTrim_of_trimmed (separates : Char → Bool) (limit : Option Nat) {s : List Char}
    (hne : s ≠ []) (h : trim s = s) :
    splitTrim separates limit s = (splitMarked separates limit (mark s)).map trim := by
  rw [splitTrim]
  split
  · next hnil => exact absurd (h.symm.trans hnil) hne
  · next hcons => rw [← hcons, h]

theorem Settled.stripComment_eq {s : List Char} (h : Settled s) : stripComment s = s := by
  have hall : ∀ m ∈ mark s, (!(m.char = '#' && !m.quoted)) = true := by
    intro m hm
    cases hquoted : m.quoted with
    | true => simp
    | false => simp [(h.uncut m hm hquoted).1]
  rw [stripComment, ← List.append_nil (mark s), List.takeWhile_append_of_pos hall,
    List.takeWhile_nil, List.append_nil, map_char_mark]

theorem Settled.splitStatements_eq {s : List Char} (h : Settled s) : splitStatements s = [s] := by
  have hsplit : splitMarked (· = ';') none (mark s) = [s] := by
    rw [splitMarked_of_forall, map_char_mark]
    intro m hm
    cases hquoted : m.quoted with
    | true => simp
    | false => simp [(h.uncut m hm hquoted).2]
  rw [splitStatements, splitTrim_of_trimmed _ _ h.nonempty h.trimmed, hsplit, List.map_singleton,
    h.trimmed]
  simp [h.nonempty]

theorem Settled.lineStatements_eq {s : List Char} (h : Settled s) : lineStatements s = [s] := by
  rw [lineStatements, h.stripComment_eq, h.trimmed, h.splitStatements_eq, List.flatMap_singleton,
    h.unlabeled]

theorem statements_eq_numbered (source : String) :
    statements source = numbered (splitLines source.toList) 1 := rfl

theorem numbered_of_settled {texts : List String} (h : ∀ text ∈ texts, Settled text.toList)
    (first : Nat) : numbered (texts.map String.toList) first = texts.zipIdx first := by
  induction texts generalizing first with
  | nil => rfl
  | cons text texts ih =>
    have htext := (h text List.mem_cons_self).lineStatements_eq
    have hrest := ih (fun other hother => h other (List.mem_cons_of_mem text hother)) (first + 1)
    rw [List.map_cons, numbered_cons, htext, hrest, List.zipIdx_cons]
    simp

/-- A source with one statement on each line has these statements. -/
theorem statements_joined (source : String) :
    statements ("\n".intercalate ((statements source).map Prod.fst)) =
      ((statements source).map Prod.fst).zipIdx 1 := by
  have htexts : ∀ text ∈ (statements source).map Prod.fst,
      Settled text.toList ∧ ∀ c ∈ text.toList, isLineBreak c = false := by
    intro text htext
    obtain ⟨p, hp, rfl⟩ := List.mem_map.mp htext
    obtain ⟨⟨line, number⟩, hline, hp⟩ := List.mem_flatMap.mp hp
    obtain ⟨chars, hchars, rfl⟩ := List.mem_map.mp hp
    rw [String.toList_ofList]
    refine ⟨settled_of_mem_lineStatements hchars, ?_⟩
    intro c hc
    have hmem := mem_of_mem_lineStatements hchars hc
    exact isLineBreak_of_mem_splitLines (List.fst_mem_of_mem_zipIdx hline) hmem
  have hlines : splitLines ("\n".intercalate ((statements source).map Prod.fst)).toList =
      ((statements source).map Prod.fst).map String.toList := by
    rw [String.toList_intercalate]
    apply splitLines_intercalate
    intro line hline
    obtain ⟨text, htext, rfl⟩ := List.mem_map.mp hline
    obtain ⟨hsettled, hbreak⟩ := htexts text htext
    exact ⟨hsettled.nonempty, hbreak⟩
  rw [statements_eq_numbered, hlines]
  exact numbered_of_settled (fun text htext => (htexts text htext).1) 1

end AsmCompare.Source
