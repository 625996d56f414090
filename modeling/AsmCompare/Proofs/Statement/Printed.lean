import AsmCompare.Proofs.Edit.Hunks
import AsmCompare.Proofs.Statement.Agreement
import AsmCompare.Proofs.Statement.Labels
import AsmCompare.Proofs.Token.Compact

/-! # What the printed form of a statement tells

The first word of a printed statement is the first word of the one that was read, so the printed
form tells its kind. It tells the operands as well if all of them are printed, which a label does
not do, and if their tokens stay apart. Two statements of a run of changes that are printed alike
would then have been kept.
-/
namespace AsmCompare.Source
open Text

theorem Inside.append {q : Char} {s t : List Char} (hs : Inside q s) (ht : Inside q t) :
    Inside q (s ++ t) := by
  induction hs with
  | nil => exact ht
  | plain hquote hescape _ ih => exact .plain hquote hescape ih
  | escaped _ ih => exact .escaped ih

theorem inside_of_isBlank {q : Char} (hq : isQuote q = true) {s : List Char}
    (h : ∀ c ∈ s, isBlank c = true) : Inside q s := by
  induction s with
  | nil => exact .nil
  | cons c s ih =>
    have hc := h c List.mem_cons_self
    refine .plain ?_ ?_ (ih fun d hd => h d (List.mem_cons_of_mem c hd))
    · rintro rfl
      rw [isQuote_of_isBlank hc] at hq
      cases hq
    · rintro rfl
      revert hc
      decide

/-- After a text a line goes on as at its start, or inside of quotes. -/
theorem mark_append_cases (s : List Char) :
    (∀ rest, mark (s ++ rest) = mark s ++ mark rest) ∨
      ∀ blanks, (∀ c ∈ blanks, isBlank c = true) →
        mark (s ++ blanks) = mark s ++ blanks.map (⟨·, true⟩) := by
  obtain ⟨ms, h⟩ := exists_regions s
  induction h with
  | nil => exact .inl fun rest => rfl
  | @plain c rest _ hc _ ih =>
    have hcons : ∀ more, mark (c :: more) = ⟨c, false⟩ :: mark more := fun more =>
      mark_append_of_forall (List.forall_mem_singleton.mpr hc) more
    refine ih.imp ?_ ?_
    · intro hmark more
      rw [List.cons_append, hcons, hcons, hmark, List.cons_append]
    · intro hmark blanks hblanks
      rw [List.cons_append, hcons, hcons, hmark blanks hblanks, List.cons_append]
  | @closed q content rest _ hq hin _ ih =>
    have hclosed : ∀ more, mark (q :: content ++ q :: more) =
        (q :: content ++ [q]).map (⟨·, true⟩) ++ mark more := fun more =>
      (Regions.closed hq hin (regions_iff.mpr rfl)).eq_mark.symm
    have hgoes : ∀ more, q :: content ++ q :: rest ++ more = q :: content ++ q :: (rest ++ more) :=
      fun more => List.append_assoc ..
    refine ih.imp ?_ ?_
    · intro hmark more
      rw [hgoes, hclosed, hclosed, hmark, List.append_assoc]
    · intro hmark blanks hblanks
      rw [hgoes, hclosed, hclosed, hmark blanks hblanks, List.append_assoc]
  | @unclosed q content last hq hin hlast =>
    right
    intro blanks hblanks
    have hgoes : Regions (q :: content ++ last ++ blanks)
        ((q :: content ++ last ++ blanks).map (⟨·, true⟩)) := by
      rcases hlast with rfl | rfl
      · have hmore := Regions.unclosed hq (hin.append (inside_of_isBlank hq hblanks)) (.inl rfl)
        simpa using hmore
      · cases blanks with
        | nil => simpa using Regions.unclosed hq hin (.inr rfl)
        | cons c blanks =>
          -- the backslash at the end escapes a blank
          have hrest : Inside q blanks :=
            inside_of_isBlank hq fun d hd => hblanks d (List.mem_cons_of_mem c hd)
          have hmore := Regions.unclosed hq (hin.append (.escaped (c := c) hrest)) (.inl rfl)
          simpa using hmore
    rw [← hgoes.eq_mark, ← (Regions.unclosed hq hin hlast).eq_mark, List.map_append]

/-- What follows the first word of a statement is not quoted, whatever it is. -/
theorem mark_word_append {s word rest : List Char} (hs : Settled s)
    (h : splitMnemonic s = (word, rest)) (hrest : rest ≠ []) (more : List Char) :
    mark (word ++ more) = mark word ++ mark more := by
  rcases splitMnemonic_cases hs.nonempty hs.trimmed with hone | ⟨c, after, hc, hmarks, hsplit, -⟩
  · rw [hone] at h
    cases h
    exact absurd rfl hrest
  · rw [hsplit] at h
    obtain ⟨hword, -⟩ := Prod.mk.inj h
    rcases mark_append_cases word with hgoes | hquoted
    · exact hgoes more
    · -- then the blanks behind the word and the space that ends it would be quoted
      have hinitial : wordMarks s ++ [⟨c, false⟩] <+: mark s := ⟨after, by rw [hmarks]; simp⟩
      obtain ⟨blanks, hraw, hblanks⟩ :=
        exists_eq_trim_append (isBlank_of_head?_wordMarks hs.trimmed)
      rw [hword] at hraw
      have hspaces : ∀ d ∈ blanks ++ [c], isBlank d = true := by
        intro d hd
        rcases List.mem_append.mp hd with hd | hd
        · exact hblanks d hd
        · rw [List.mem_singleton.mp hd]
          rcases hc with rfl | rfl <;> decide
      have hmark := mark_map_char hinitial
      rw [List.map_append, hraw, List.append_assoc, List.map_singleton, hquoted _ hspaces,
        List.map_append, ← List.append_assoc] at hmark
      cases (List.append_inj' hmark rfl).2

theorem wordMarks_eq_mark {w : List Char} (htrim : trim w = w) (h : splitMnemonic w = (w, [])) :
    wordMarks w = mark w := by
  have hword := splitMnemonic_fst htrim
  rw [h] at hword
  have hlength : w.length ≤ ((wordMarks w).map Marked.char).length :=
    le_of_eq_of_le (congrArg List.length hword) (length_trimEnds_le isBlank _)
  have hmarks : (mark w).length = w.length := by
    rw [← List.length_map Marked.char, map_char_mark]
  rw [List.length_map, ← hmarks] at hlength
  have hinitial : wordMarks w <+: mark w := List.takeWhile_prefix _
  exact hinitial.eq_of_length_le hlength

theorem wordMarks_append_tab {w : List Char} (hw : wordMarks w = mark w) {rest : List Char}
    (h : mark (w ++ '\t' :: rest) = mark w ++ mark ('\t' :: rest)) :
    wordMarks (w ++ '\t' :: rest) = mark w := by
  have hall : ∀ m ∈ mark w, (!((m.char = ' ' || m.char = '\t') && !m.quoted)) = true := by
    rw [← hw]
    exact List.all_eq_true.mp List.all_takeWhile
  rw [wordMarks, h, List.takeWhile_append_of_pos hall]
  exact List.append_nil _

end AsmCompare.Source

namespace AsmCompare.Statement
open Source Token

theorem toList_renderNext {operand : Operand} (h : ∀ t ∈ operand, t.lexeme ≠ []) :
    (renderNext operand).toList = lexemes (further operand) := by
  cases operand with
  | nil => rfl
  | cons t operand =>
    have hne : Operand.render (t :: operand) ≠ "" := by
      rw [ne_eq, ← String.toList_eq_nil_iff, Token.toList_render, lexemes_compact_cons]
      intro hnil
      exact h t List.mem_cons_self (List.append_eq_nil_iff.mp hnil).1
    rw [renderNext, if_neg hne, String.toList_append, Token.toList_render, further,
      if_neg (List.cons_ne_nil _ _), lexemes_cons, lexemes_append]
    rfl

theorem toList_classify_snd {word : List Char} {kind : Kind} {name : String}
    (h : classify word = (kind, name)) (hkind : kind ≠ .label) : name.toList = word := by
  unfold classify at h
  split at h
  · cases h
    exact String.toList_ofList
  · split at h
    · cases h
      exact absurd rfl hkind
    · split at h
      · cases h
        exact String.toList_ofList
      · cases h
        exact String.toList_ofList

theorem toList_render_of_label {s : Statement} (h : s.kind = .label) :
    s.render.toList = s.mnemonic.toList ++ [':'] := by
  have hlabel : s.isLabel = true := decide_eq_true h
  rw [render, if_pos hlabel, String.toList_append]
  rfl

theorem toList_render_of_ne_label {s : Statement} (h : s.kind ≠ .label)
    (hsolid : ∀ operand ∈ s.operands, ∀ t ∈ operand, t.lexeme ≠ []) :
    s.render.toList = s.mnemonic.toList ++
      if s.operands = [] then [] else '\t' :: lexemes (printed s.operands) := by
  have hnot : ¬ s.isLabel = true := fun hlabel => h (of_decide_eq_true hlabel)
  rw [render, if_neg hnot]
  cases ho : s.operands with
  | nil => exact (List.append_nil _).symm
  | cons first rest =>
    rw [ho] at hsolid
    have hrest : (String.join (rest.map renderNext)).toList = lexemes (rest.flatMap further) := by
      have hnext : ∀ operand ∈ rest, (renderNext operand).toList = lexemes (further operand) :=
        fun operand hmem => toList_renderNext (hsolid operand (List.mem_cons_of_mem first hmem))
      clear ho hsolid
      induction rest with
      | nil => rfl
      | cons second rest ih =>
        obtain ⟨hsecond, hothers⟩ := List.forall_mem_cons.mp hnext
        rw [List.map_cons, String.join_cons, String.toList_append, hsecond, ih hothers,
          List.flatMap_cons, lexemes_append]
    rw [if_neg (List.cons_ne_nil _ _), String.toList_append, String.toList_append,
      String.toList_append, Token.toList_render, hrest, printed, lexemes_append]
    simp

/-- A statement that was read from some source. -/
def IsRead (s : Statement) : Prop := ∃ file source, s ∈ ofSource file source

/-- The printed form leaves nothing out: a label has nothing behind it, and the tokens of every
operand stay apart. -/
def PrintsFully (s : Statement) : Prop :=
  (s.kind = .label → s.operands = []) ∧ ∀ operand ∈ s.operands, Apart operand

instance : DecidablePred PrintsFully := fun _ => inferInstanceAs (Decidable (_ ∧ _))

/-- What the printed form of a statement consists of. -/
structure Shown (s : Statement) (word text : List Char) : Prop where
  class_eq : classify word = (s.kind, s.mnemonic)
  word_eq : (wordMarks s.render.toList).map Marked.char = word
  operands_eq : s.operands = Operand.ofText text
  render_eq : s.render.toList = word ++
    if s.kind = .label ∨ s.operands = [] then [] else '\t' :: lexemes (printed s.operands)

theorem IsRead.exists_shown {s : Statement} (h : s.IsRead) : ∃ word text, Shown s word text := by
  obtain ⟨file, source, hs⟩ := h
  obtain ⟨place, hread, hsettled, -⟩ := exists_read hs
  obtain ⟨word, rest, hsplit, hne, hclass⟩ := exists_word_of_ofText? hread
  have hoperands : s.operands = Operand.ofText rest := by rw [operands_of_ofText? hread, hsplit]
  obtain ⟨-, hword, halone⟩ := hsettled.word hsplit hne
  have hmarks := wordMarks_eq_mark hword.trimmed halone
  have hshown : s.render.toList = word ++
      if s.kind = .label ∨ s.operands = [] then [] else '\t' :: lexemes (printed s.operands) := by
    by_cases hlabel : s.kind = .label
    · rw [toList_render_of_label hlabel, if_pos (.inl hlabel), List.append_nil]
      rw [hlabel, classify_eq_label_iff] at hclass
      exact hclass.symm
    · have hsolid : ∀ operand ∈ s.operands, ∀ t ∈ operand, t.lexeme ≠ [] := by
        intro operand ho t ht
        rw [hoperands] at ho
        obtain ⟨c, more, rfl⟩ := Operand.exists_scan_of_mem_ofText ho ht
        exact lexeme_scan_ne_nil c more
      rw [toList_render_of_ne_label hlabel hsolid, toList_classify_snd hclass hlabel]
      simp only [hlabel, false_or]
  refine ⟨word, rest, hclass, ?_, hoperands, hshown⟩
  rw [hshown]
  split
  · rw [List.append_nil, hmarks, map_char_mark]
  · next hmore =>
    have hrest : rest ≠ [] := by
      rintro rfl
      exact hmore (.inr (hoperands.trans Operand.ofText_nil))
    rw [wordMarks_append_tab hmarks (mark_word_append hsettled hsplit hrest _), map_char_mark]

section Pair
variable {s t : Statement} (hs : s.IsRead) (ht : t.IsRead) (h : s.render = t.render)
include hs ht h

/-- The printed form tells the kind and the mnemonic. -/
theorem kind_and_mnemonic_eq_of_render_eq : s.kind = t.kind ∧ s.mnemonic = t.mnemonic := by
  obtain ⟨word, _, hs⟩ := hs.exists_shown
  obtain ⟨other, _, ht⟩ := ht.exists_shown
  have hword : word = other := by rw [← hs.word_eq, h, ht.word_eq]
  have hclass := hs.class_eq
  rw [hword, ht.class_eq] at hclass
  exact Prod.mk.inj hclass.symm

/-- The printed form tells the operands if it leaves nothing out. -/
theorem operands_eq_of_render_eq (hfull : s.PrintsFully) (hfull' : t.PrintsFully) :
    s.operands = t.operands := by
  obtain ⟨hkind, -⟩ := kind_and_mnemonic_eq_of_render_eq hs ht h
  by_cases hlabel : s.kind = .label
  · rw [hfull.1 hlabel, hfull'.1 (hkind ▸ hlabel)]
  · obtain ⟨word, text, hs⟩ := hs.exists_shown
    obtain ⟨other, text', ht⟩ := ht.exists_shown
    have hword : word = other := by rw [← hs.word_eq, h, ht.word_eq]
    have hprinted := hs.render_eq
    rw [h, ht.render_eq, ← hword, List.append_cancel_left_eq, ← hkind] at hprinted
    simp only [hlabel, false_or] at hprinted
    by_cases hnone : s.operands = []
    · rw [if_pos hnone] at hprinted
      split at hprinted
      · next hnone' => rw [hnone, hnone']
      · cases hprinted
    · rw [if_neg hnone] at hprinted
      split at hprinted
      · cases hprinted
      · next hsome =>
        have hlexemes := (List.cons.inj hprinted).2
        have hapart := hfull.2
        have hapart' := hfull'.2
        rw [hs.operands_eq] at hnone hapart hlexemes ⊢
        rw [ht.operands_eq] at hsome hapart' hlexemes ⊢
        exact Operand.eq_of_lexemes_printed hnone hsome hapart hapart' hlexemes.symm

theorem agrees_of_printsFully (hfull : s.PrintsFully) (hfull' : t.PrintsFully) :
    s.agrees t = true := by
  obtain ⟨hkind, hmnemonic⟩ := kind_and_mnemonic_eq_of_render_eq hs ht h
  have hoperands := operands_eq_of_render_eq hs ht h hfull hfull'
  refine agrees_iff.mpr ⟨hkind, hmnemonic, ?_⟩
  rw [hoperands]
  exact List.forall₂_same.mpr fun o _ => List.forall₂_same.mpr fun u _ => tokensAgree_self _ u

end Pair

/-- Statements that are printed alike have the same kind and mnemonic. If the printed forms leave
nothing out, they have the same operands and agree, and no run of changes removes the one and adds
the other. -/
theorem agrees_of_render_eq :
    (∀ s t : Statement, s.IsRead → t.IsRead → s.render = t.render →
      s.kind = t.kind ∧ s.mnemonic = t.mnemonic ∧
        (s.PrintsFully → t.PrintsFully → s.operands = t.operands ∧ s.agrees t = true)) ∧
    ∀ old new : List Statement, (∀ s ∈ old ++ new, s.IsRead) →
      ∀ run, run <:+: Edit.script agrees old new → (∀ e ∈ run, e.isChange = true) →
        ∀ i j s t, Edit.remove i ∈ run → Edit.add j ∈ run → old[i]? = some s → new[j]? = some t →
          s.PrintsFully → t.PrintsFully → s.render ≠ t.render := by
  constructor
  · intro s t hs ht h
    obtain ⟨hkind, hmnemonic⟩ := kind_and_mnemonic_eq_of_render_eq hs ht h
    exact ⟨hkind, hmnemonic, fun hfull hfull' =>
      ⟨operands_eq_of_render_eq hs ht h hfull hfull', agrees_of_printsFully hs ht h hfull hfull'⟩⟩
  · rintro old new hread run ⟨before, after, hscript⟩ hchange i j s t hi hj hs ht hfull hfull' h
    have hagrees : s.agrees t = true :=
      agrees_of_printsFully (hread s (List.mem_append_left _ (List.mem_of_getElem? hs)))
        (hread t (List.mem_append_right _ (List.mem_of_getElem? ht))) h hfull hfull'
    have hrelated : Edit.Related agrees old new i j := by
      obtain ⟨hlt, rfl⟩ := List.getElem?_eq_some_iff.mp hs
      obtain ⟨hlt', rfl⟩ := List.getElem?_eq_some_iff.mp ht
      exact ⟨hlt, hlt', hagrees⟩
    have hcomplete := Edit.isScript_script agrees old new
    have hmost := Edit.keptCount_script agrees old new
    rw [← hscript, List.append_assoc] at hcomplete hmost
    exact hcomplete.not_related_of_run hmost hchange hi hj hrelated

/-- What `incl 8(%rax)` is read as. -/
def increment : Statement :=
  { text := "incl 8(%rax)", mnemonic := "incl", kind := .instruction
    operands := [[⟨"8", .number, false⟩, ⟨"(", .operator, false⟩, ⟨"%rax", .register, false⟩,
      ⟨")", .operator, false⟩]]
    location := some ⟨"a.s", 1⟩ }

/-- The same with blanks between its tokens. -/
def incrementSpaced : Statement :=
  { increment with text := "incl  8 ( %rax )", location := some ⟨"b.s", 1⟩ }

theorem agrees_of_render_eq_increment :
    (increment.IsRead ∧ incrementSpaced.IsRead ∧ increment.render = incrementSpaced.render ∧
      increment.PrintsFully ∧ incrementSpaced.PrintsFully) ∧
    increment.operands = incrementSpaced.operands ∧ increment.agrees incrementSpaced = true := by
  have hone : increment.IsRead := ⟨"a.s", "incl 8(%rax)", by decide +kernel⟩
  have htwo : incrementSpaced.IsRead := ⟨"b.s", "incl  8 ( %rax )", by decide +kernel⟩
  have hfull : increment.PrintsFully := by decide +kernel
  exact ⟨⟨hone, htwo, rfl, hfull, hfull⟩, (agrees_of_render_eq.1 _ _ hone htwo rfl).2.2 hfull hfull⟩

/-- The two sources hold one statement each, which are printed alike and do not agree. -/
def collide (source other : String) : Bool :=
  match ofSource "a.s" source, ofSource "b.s" other with
  | [s], [t] => s.render = t.render && !s.agrees t
  | _, _ => false

theorem collide_label_flag_dollar :
    collide "x$y: ret" "x$y: nop" = true ∧ collide "jmp a@b c" "jmp a@bc" = true ∧
      collide "movl $ 5,%eax" "movl $5,%eax" = true ∧
      Edit.script agrees (ofSource "a.s" "nop;ret") (ofSource "b.s" "ret;nop") =
        [Edit.remove 0, Edit.keep 1 0, Edit.add 1] ∧
      (ofSource "a.s" "nop;ret")[0]?.map render = (ofSource "b.s" "ret;nop")[1]?.map render := by
  decide +kernel

end AsmCompare.Statement
