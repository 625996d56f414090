import AsmCompare.Source.Statements

/-! # Quoted regions

What the marks of a line mean: a quoted region runs from a quote to the next quote of its sort that
no backslash escapes, or to the end of the line. Marks do not depend on what follows, and after an
unquoted character they are made as at the start of a line.
-/
namespace AsmCompare.Source
open Text

/-- A text between quotes `q`: every backslash comes with the character it escapes, and no other
character is a `q`. -/
inductive Inside (q : Char) : List Char → Prop where
  | nil : Inside q []
  | plain {c : Char} {rest : List Char} (hquote : c ≠ q) (hescape : c ≠ '\\')
      (h : Inside q rest) : Inside q (c :: rest)
  | escaped {c : Char} {rest : List Char} (h : Inside q rest) : Inside q ('\\' :: c :: rest)

/-- The characters of a line, each with a note whether it stands in a quoted region. -/
inductive Regions : List Char → List Marked → Prop where
  | nil : Regions [] []
  | plain {c : Char} {rest : List Char} {ms : List Marked} (hc : isQuote c = false)
      (h : Regions rest ms) : Regions (c :: rest) (⟨c, false⟩ :: ms)
  | closed {q : Char} {content rest : List Char} {ms : List Marked} (hq : isQuote q = true)
      (hin : Inside q content) (h : Regions rest ms) :
      Regions (q :: content ++ q :: rest) ((q :: content ++ [q]).map (⟨·, true⟩) ++ ms)
  | unclosed {q : Char} {content last : List Char} (hq : isQuote q = true)
      (hin : Inside q content) (hlast : last = [] ∨ last = ['\\']) :
      Regions (q :: content ++ last) ((q :: content ++ last).map (⟨·, true⟩))

theorem ne_backslash_of_isQuote {q : Char} (h : isQuote q = true) : q ≠ '\\' := by
  rintro rfl
  cases h

theorem markFrom_cons_of_ne {q c : Char} (h : c ≠ '\\') (rest : List Char) :
    markFrom (some q) (c :: rest) =
      ⟨c, true⟩ :: markFrom (if c = q then none else some q) rest :=
  markFrom.eq_4 q c rest fun _ _ hc _ => h hc

theorem Inside.markFrom_append {q : Char} {content : List Char} (h : Inside q content)
    (rest : List Char) : markFrom (some q) (content ++ rest) =
      content.map (⟨·, true⟩) ++ markFrom (some q) rest := by
  induction h with
  | nil => rfl
  | plain hquote hescape _ ih =>
    rw [List.cons_append, markFrom_cons_of_ne hescape, if_neg hquote, ih]
    rfl
  | escaped _ ih =>
    rw [List.cons_append, List.cons_append, markFrom, ih]
    rfl

theorem mark_cons_of_isQuote {q : Char} (h : isQuote q = true) (rest : List Char) :
    mark (q :: rest) = ⟨q, true⟩ :: markFrom (some q) rest := by
  rw [mark, markFrom, if_pos h]

theorem Regions.eq_mark {line : List Char} {ms : List Marked} (h : Regions line ms) :
    ms = mark line := by
  induction h with
  | nil => rfl
  | plain hc _ ih => rw [ih, mark, mark, markFrom, if_neg (Bool.eq_false_iff.mp hc)]
  | @closed q content rest ms hq hin _ ih =>
    have hclose := markFrom_cons_of_ne (q := q) (ne_backslash_of_isQuote hq) rest
    rw [if_pos rfl] at hclose
    rw [List.cons_append, List.cons_append, mark_cons_of_isQuote hq, hin.markFrom_append, hclose, ih]
    simp [mark]
  | unclosed hq hin hlast =>
    rw [List.cons_append, mark_cons_of_isQuote hq, hin.markFrom_append]
    rcases hlast with rfl | rfl <;> simp [markFrom]

/-- What follows an open quote: a text that the quote closes, or one that runs to the end. -/
theorem exists_inside (q : Char) (s : List Char) :
    (∃ content rest, s = content ++ q :: rest ∧ Inside q content) ∨
      ∃ content last, s = content ++ last ∧ Inside q content ∧ (last = [] ∨ last = ['\\']) := by
  match s with
  | [] => exact .inr ⟨[], [], rfl, .nil, .inl rfl⟩
  | c :: rest =>
    by_cases hescape : c = '\\'
    · subst hescape
      match rest with
      | [] => exact .inr ⟨[], ['\\'], rfl, .nil, .inr rfl⟩
      | d :: rest =>
        rcases exists_inside q rest with ⟨content, more, rfl, hin⟩ | ⟨content, last, rfl, hin, hlast⟩
        · exact .inl ⟨'\\' :: d :: content, more, rfl, .escaped hin⟩
        · exact .inr ⟨'\\' :: d :: content, last, rfl, .escaped hin, hlast⟩
    · by_cases hquote : c = q
      · subst hquote
        exact .inl ⟨[], rest, rfl, .nil⟩
      · rcases exists_inside q rest with ⟨content, more, rfl, hin⟩ | ⟨content, last, rfl, hin, hlast⟩
        · exact .inl ⟨c :: content, more, rfl, .plain hquote hescape hin⟩
        · exact .inr ⟨c :: content, last, rfl, .plain hquote hescape hin, hlast⟩
termination_by s.length

theorem exists_regions (line : List Char) : ∃ ms, Regions line ms := by
  match line with
  | [] => exact ⟨[], .nil⟩
  | c :: rest =>
    by_cases hc : isQuote c = true
    · rcases exists_inside c rest with ⟨content, more, hrest, hin⟩ | ⟨content, last, rfl, hin, hlast⟩
      · obtain ⟨ms, h⟩ := exists_regions more
        rw [hrest]
        exact ⟨_, .closed hc hin h⟩
      · exact ⟨_, .unclosed hc hin hlast⟩
    · obtain ⟨ms, h⟩ := exists_regions rest
      exact ⟨_, .plain (Bool.eq_false_iff.mpr hc) h⟩
termination_by line.length
decreasing_by
  · rw [hrest, List.length_cons, List.length_append, List.length_cons]
    omega
  · exact Nat.lt_succ_self _

/-- The marks of a line are its quoted regions. -/
theorem regions_iff {line : List Char} {ms : List Marked} : Regions line ms ↔ ms = mark line := by
  constructor
  · intro h
    exact h.eq_mark
  · rintro rfl
    obtain ⟨ms, h⟩ := exists_regions line
    rw [← h.eq_mark]
    exact h

theorem markFrom_isPrefixOf (q : Option Char) (s t : List Char) :
    markFrom q s <+: markFrom q (s ++ t) := by
  fun_induction markFrom q s with
  | case1 q => exact List.nil_prefix
  | case2 c rest hc ih =>
    rw [List.cons_append, markFrom, if_pos hc]
    exact List.cons_prefix_cons.mpr ⟨rfl, ih⟩
  | case3 c rest hc ih =>
    rw [List.cons_append, markFrom, if_neg hc]
    exact List.cons_prefix_cons.mpr ⟨rfl, ih⟩
  | case4 q c rest ih =>
    exact List.cons_prefix_cons.mpr ⟨rfl, List.cons_prefix_cons.mpr ⟨rfl, ih⟩⟩
  | case5 q c rest hescape ih =>
    by_cases hc : c = '\\'
    · -- a backslash at the end of the shorter text escapes what follows it in the longer one
      subst hc
      cases rest with
      | cons d rest => exact absurd rfl (hescape d rest rfl)
      | nil =>
        cases t with
        | nil => exact List.prefix_refl _
        | cons d t => exact List.cons_prefix_cons.mpr ⟨rfl, List.nil_prefix⟩
    · rw [List.cons_append, markFrom_cons_of_ne hc]
      exact List.cons_prefix_cons.mpr ⟨rfl, ih⟩

/-- The marks up to some place are the marks of the text up to there. -/
theorem mark_map_char {line : List Char} {ms : List Marked} (h : ms <+: mark line) :
    mark (ms.map Marked.char) = ms := by
  obtain ⟨more, hmore⟩ := h
  have hline : line = ms.map Marked.char ++ more.map Marked.char := by
    rw [← List.map_append, hmore, map_char_mark]
  have hinitial : mark (ms.map Marked.char) <+: mark line := by
    rw [hline]
    exact markFrom_isPrefixOf none _ _
  have hlength : (mark (ms.map Marked.char)).length = ms.length := by
    rw [← List.length_map Marked.char, map_char_mark, List.length_map]
  have hle := List.prefix_of_prefix_length_le hinitial ⟨more, hmore⟩ (Nat.le_of_eq hlength)
  exact hle.eq_of_length hlength

theorem mark_append_of_forall {before : List Char} (h : ∀ c ∈ before, isQuote c = false)
    (rest : List Char) : mark (before ++ rest) = before.map (⟨·, false⟩) ++ mark rest := by
  induction before with
  | nil => rfl
  | cons c before ih =>
    have hc := Bool.eq_false_iff.mp (h c List.mem_cons_self)
    have hrest := ih fun d hd => h d (List.mem_cons_of_mem c hd)
    rw [List.cons_append, mark, markFrom, if_neg hc]
    exact congrArg (⟨c, false⟩ :: ·) hrest

theorem isQuote_of_isBlank {c : Char} (h : isBlank c = true) : isQuote c = false := by
  rw [Bool.eq_false_iff]
  intro hq
  rw [isQuote, Bool.or_eq_true, decide_eq_true_eq, decide_eq_true_eq] at hq
  rcases hq with rfl | rfl
  · revert h
    decide
  · revert h
    decide

/-- Trimming a text trims its marks. -/
theorem exists_mark_eq_append (s : List Char) :
    ∃ before after, mark s = before ++ mark (trim s) ++ after ∧
      (∀ m ∈ before, isBlank m.char = true) ∧ ∀ m ∈ after, isBlank m.char = true := by
  obtain ⟨before, after, hs, hbefore, hafter⟩ := exists_eq_append_trim s
  obtain ⟨ms, hms⟩ := markFrom_isPrefixOf none (trim s) after
  have hchars : ms.map Marked.char = after := by
    have := congrArg (List.map Marked.char) hms
    rw [List.map_append, map_char_markFrom, map_char_markFrom] at this
    exact List.append_cancel_left this
  refine ⟨before.map (⟨·, false⟩), ms, ?_, ?_, ?_⟩
  · calc mark s = mark (before ++ (trim s ++ after)) := by rw [← List.append_assoc, ← hs]
      _ = before.map (⟨·, false⟩) ++ mark (trim s ++ after) :=
        mark_append_of_forall (fun c hc => isQuote_of_isBlank (hbefore c hc)) _
      _ = before.map (⟨·, false⟩) ++ mark (trim s) ++ ms := by
        rw [List.append_assoc, mark, ← hms]
        rfl
  · intro m hm
    obtain ⟨c, hc, rfl⟩ := List.mem_map.mp hm
    exact hbefore c hc
  · intro m hm
    apply hafter
    rw [← hchars]
    exact List.mem_map_of_mem hm

theorem splitMarked_cons (separates : Char → Bool) (m : Marked) (ms : List Marked) :
    splitMarked separates none (m :: ms) =
      if separates m.char && !m.quoted then [] :: splitMarked separates none ms
      else consFirst m.char (splitMarked separates none ms) := by
  rw [splitMarked, Option.map_none]
  · cases splitMarked separates none ms <;> rfl
  · rintro ⟨⟩

theorem exists_splitMarked_markFrom (separates : Char → Bool) (q : Option Char) (s : List Char) :
    ∃ first others, splitMarked separates none (markFrom q s) = first :: others ∧
      markFrom q first ++ others.flatMap mark =
        (markFrom q s).filter fun m => !(separates m.char && !m.quoted) := by
  -- a quoted character is never cut off
  have hkept : ∀ (c : Char) (ms : List Marked),
      (⟨c, true⟩ :: ms).filter (fun m => !(separates m.char && !m.quoted)) =
        ⟨c, true⟩ :: ms.filter fun m => !(separates m.char && !m.quoted) := by
    intro c ms
    rw [List.filter_cons_of_pos (by simp)]
  fun_induction markFrom q s with
  | case1 q => exact ⟨[], [], rfl, by simp [markFrom]⟩
  | case2 c rest hc ih =>
    obtain ⟨first, others, hsplit, hmarks⟩ := ih
    refine ⟨c :: first, others, ?_, ?_⟩
    · rw [splitMarked_cons, hsplit, if_neg (by simp)]
      rfl
    · rw [markFrom, if_pos hc, hkept, ← hmarks, List.cons_append]
  | case3 c rest hc ih =>
    obtain ⟨first, others, hsplit, hmarks⟩ := ih
    by_cases hsep : separates c = true
    · refine ⟨[], first :: others, ?_, ?_⟩
      · rw [splitMarked_cons, hsplit, if_pos (by simpa using hsep)]
      · rw [List.filter_cons_of_neg (by simpa using hsep), ← hmarks]
        rfl
    · refine ⟨c :: first, others, ?_, ?_⟩
      · rw [splitMarked_cons, hsplit, if_neg (by simpa using hsep)]
        rfl
      · rw [markFrom, if_neg hc, List.filter_cons_of_pos (by simpa using hsep), ← hmarks,
          List.cons_append]
  | case4 q c rest ih =>
    obtain ⟨first, others, hsplit, hmarks⟩ := ih
    refine ⟨'\\' :: c :: first, others, ?_, ?_⟩
    · rw [splitMarked_cons, splitMarked_cons, hsplit, if_neg (by simp), if_neg (by simp)]
      rfl
    · rw [hkept, hkept, ← hmarks]
      rfl
  | case5 q c rest hescape ih =>
    obtain ⟨first, others, hsplit, hmarks⟩ := ih
    have hfirst : markFrom (some q) (c :: first) =
        ⟨c, true⟩ :: markFrom (if c = q then none else some q) first := by
      by_cases hc : c = '\\'
      · -- then the text ends here, and so does the item
        subst hc
        cases rest with
        | cons d rest => exact absurd rfl (hescape d rest rfl)
        | nil =>
          have hnil : markFrom (if '\\' = q then none else some q) [] = [] := by rw [markFrom]
          rw [hnil] at hsplit
          obtain ⟨rfl, -⟩ := List.cons.inj hsplit
          rw [hnil]
          rfl
      · exact markFrom_cons_of_ne hc first
    refine ⟨c :: first, others, ?_, ?_⟩
    · rw [splitMarked_cons, hsplit, if_neg (by simp)]
      rfl
    · rw [hfirst, hkept, ← hmarks, List.cons_append]

/-- Every item starts outside of quotes, so its marks are those that it has in the line. -/
theorem flatMap_mark_splitMarked (separates : Char → Bool) (line : List Char) :
    (splitMarked separates none (mark line)).flatMap mark =
      (mark line).filter fun m => !(separates m.char && !m.quoted) := by
  obtain ⟨first, others, hsplit, hmarks⟩ := exists_splitMarked_markFrom separates none line
  rw [mark, hsplit, List.flatMap_cons]
  exact hmarks

end AsmCompare.Source
