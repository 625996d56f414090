import AsmCompare.Proofs.Statement.Lines
import AsmCompare.Proofs.Token.Printed

/-! # Labels with operands

Two rules tell labels. A line gives up a leading label only if its name is a run of label
characters, while a statement is a label as soon as its first word ends in a colon. Between the two
lie the labels whose names have other characters, or none at all: what follows them on their line
becomes their operands.
-/
namespace AsmCompare.Source
open Text

theorem splitMarked_one {separates : Char → Bool} {before : List Marked} {m : Marked}
    (hbefore : ∀ n ∈ before, (separates n.char && !n.quoted) = false)
    (hm : (separates m.char && !m.quoted) = true) (after : List Marked) :
    splitMarked separates (some 1) (before ++ m :: after) =
      [before.map Marked.char, after.map Marked.char] := by
  induction before with
  | nil =>
    have hlast : splitMarked separates (some 0) after = [after.map Marked.char] := by
      cases after <;> rfl
    simp only [List.nil_append, splitMarked, hm, ↓reduceIte, Option.map_some, Nat.sub_self, hlast,
      List.map_nil]
  | cons n before ih =>
    have hn := hbefore n List.mem_cons_self
    have hrest := ih fun k hk => hbefore k (List.mem_cons_of_mem n hk)
    simp only [List.cons_append, splitMarked, hn, Bool.false_eq_true, ↓reduceIte, hrest,
      List.map_cons]

/-- A trimmed text does not end in blanks. -/
theorem trim_ne_nil_of_append {before after : List Char} {c : Char} (hc : isBlank c = true)
    (h : trim (before ++ c :: after) = before ++ c :: after) : trim after ≠ [] := by
  intro hnil
  obtain ⟨front, back, hafter, hfront, hback⟩ := exists_eq_append_trim after
  rw [hnil, List.append_nil] at hafter
  have hblank : ∀ d ∈ c :: after, isBlank d = true := by
    intro d hd
    rw [hafter] at hd
    rcases List.mem_cons.mp hd with rfl | hd
    · exact hc
    · rcases List.mem_append.mp hd with hd | hd
      · exact hfront d hd
      · exact hback d hd
  have hlast := List.getLast?_eq_some_getLast (List.cons_ne_nil c after)
  have hsolid : isBlank ((c :: after).getLast (List.cons_ne_nil c after)) = false := by
    apply isBlank_of_getLast?_trim (s := before ++ c :: after)
    rw [h, List.getLast?_append_of_ne_nil _ (List.cons_ne_nil c after), hlast]
    rfl
  rw [hblank _ (List.getLast_mem _)] at hsolid
  cases hsolid

/-- A trimmed text is one word, or a word, a space and more that is not blank. -/
theorem splitMnemonic_cases {s : List Char} (hne : s ≠ []) (h : trim s = s) :
    splitMnemonic s = (s, []) ∨
      ∃ c after, (c = ' ' ∨ c = '\t') ∧ mark s = wordMarks s ++ ⟨c, false⟩ :: after ∧
        splitMnemonic s = (trim ((wordMarks s).map Marked.char), trim (after.map Marked.char)) ∧
        trim (after.map Marked.char) ≠ [] := by
  have hmarks : mark s = wordMarks s ++ (mark s).dropWhile _ :=
    List.takeWhile_append_dropWhile.symm
  have hword : ∀ m ∈ wordMarks s, ((m.char = ' ' || m.char = '\t') && !m.quoted) = false :=
    fun _ => not_space_of_mem_wordMarks
  cases hrest : (mark s).dropWhile fun m => !((m.char = ' ' || m.char = '\t') && !m.quoted) with
  | nil =>
    rw [hrest, List.append_nil] at hmarks
    exact .inl (splitMnemonic_of_forall hne h (hmarks ▸ hword))
  | cons m after =>
    rw [hrest] at hmarks
    have hm : ((m.char = ' ' || m.char = '\t') && !m.quoted) = true := by
      have hhead := List.head?_dropWhile_not
        (fun m : Marked => !((m.char = ' ' || m.char = '\t') && !m.quoted)) (mark s)
      simp only [hrest, List.head?_cons, Bool.not_eq_false'] at hhead
      exact hhead
    have hsplit : splitMnemonic s =
        (trim ((wordMarks s).map Marked.char), trim (after.map Marked.char)) := by
      have hitems := splitTrim_of_trimmed (fun c => c = ' ' || c = '\t') (some 1) hne h
      rw [hmarks, splitMarked_one hword hm] at hitems
      rw [splitMnemonic, hitems]
      rfl
    obtain ⟨c, quoted⟩ := m
    obtain ⟨hspace, rfl⟩ : (c = ' ' ∨ c = '\t') ∧ quoted = false := by simpa using hm
    have hblank : isBlank c = true := by
      rcases hspace with rfl | rfl <;> decide
    have hchars : (wordMarks s).map Marked.char ++ c :: after.map Marked.char = s := by
      have hmap := congrArg (List.map Marked.char) hmarks
      rw [map_char_mark, List.map_append, List.map_cons] at hmap
      exact hmap.symm
    rw [← hchars] at h
    exact .inr ⟨c, after, hspace, hmarks, hsplit, trim_ne_nil_of_append hblank h⟩

theorem splitMnemonic_snd_eq_nil_iff {s : List Char} (hne : s ≠ []) (h : trim s = s) :
    (splitMnemonic s).2 = [] ↔ (splitMnemonic s).1 = s := by
  rcases splitMnemonic_cases hne h with hone | ⟨c, after, -, hmarks, hsplit, hrest⟩
  · rw [hone]
    exact iff_of_true rfl rfl
  · rw [hsplit]
    refine iff_of_false hrest ?_
    intro hword
    have hshort : s.length ≤ ((wordMarks s).map Marked.char).length :=
      le_of_eq_of_le (congrArg List.length hword.symm) (length_trimEnds_le isBlank _)
    have htotal := congrArg List.length hmarks
    rw [← List.length_map Marked.char, map_char_mark, List.length_append, List.length_cons] at htotal
    rw [List.length_map] at hshort
    omega

end AsmCompare.Source

namespace AsmCompare

theorem Operand.ofText_eq_nil_iff {text : List Char} :
    ofText text = [] ↔ Token.group (Token.pieces 0 text) = [[]] := by
  obtain ⟨operands, final, hgroups, htext⟩ := exists_group_eq text
  rw [hgroups, htext]
  by_cases hfinal : final = []
  · simp [hfinal]
  · simp [hfinal, List.append_eq_singleton_iff]

theorem Operand.ofText_nil : ofText [] = [] := by
  rw [ofText_eq_nil_iff, Token.pieces]
  rfl

theorem Operand.ofText_ne_nil {c : Char} (h : ¬ (c = ' ' ∨ c = '\t')) (rest : List Char) :
    ofText (c :: rest) ≠ [] := by
  rw [ne_eq, ofText_eq_nil_iff, Token.pieces, if_neg (by simpa using h)]
  split
  · intro hgroup
    exact Token.group_ne_nil _ (List.cons.inj hgroup).2
  · simp only [Token.group]
    split <;> simp

namespace Statement
open Source

section
variable {text : String} {s : Statement}

theorem operands_of_ofText? {place : Option Location} (h : ofText? text place = some s) :
    s.operands = Operand.ofText (splitMnemonic text.toList).2 := by
  unfold ofText? at h
  simp only at h
  split at h
  · cases h
  · cases h
    rfl

/-- A statement without operands is its first word. -/
theorem operands_eq_nil_iff_of_settled {place : Option Location} (h : ofText? text place = some s)
    (hsettled : Settled text.toList) :
    s.operands = [] ↔ (splitMnemonic text.toList).1 = text.toList := by
  rw [operands_of_ofText? h, ← splitMnemonic_snd_eq_nil_iff hsettled.nonempty hsettled.trimmed]
  constructor
  · intro hnil
    rcases splitMnemonic_cases hsettled.nonempty hsettled.trimmed with hone | ⟨c, after, -, -, hsplit, hne⟩
    · rw [hone]
    · rw [hsplit] at hnil
      obtain ⟨d, rest, hcons⟩ := List.exists_cons_of_ne_nil hne
      simp only [hcons] at hnil
      refine absurd hnil (Operand.ofText_ne_nil ?_ rest)
      have hsolid : Text.isBlank d = false := by
        apply Text.isBlank_of_head?_trim (s := after.map Marked.char)
        rw [hcons]
        rfl
      rintro (rfl | rfl)
      · revert hsolid
        decide
      · revert hsolid
        decide
  · intro hnil
    rw [hnil, Operand.ofText_nil]

end

/-- A label has no operands exactly if its name is one that lines give up, or if nothing follows
it. -/
theorem operands_eq_nil_iff_of_label {file source : String} {s : Statement}
    (hs : s ∈ ofSource file source) (hlabel : s.kind = .label) :
    s.operands = [] ↔
      (s.mnemonic ≠ "" ∧ ∀ c ∈ s.mnemonic.toList, isLabelChar c = true) ∨
        s.text = s.mnemonic ++ ":" := by
  obtain ⟨place, hread, hsettled, -⟩ := exists_read hs
  obtain ⟨word, rest, hsplit, hne, hclass⟩ := exists_word_of_ofText? hread
  rw [hlabel, classify_eq_label_iff] at hclass
  have hcolon : (s.mnemonic ++ ":").toList = s.mnemonic.toList ++ [':'] := String.toList_append ..
  have halone : s.operands = [] ↔ s.text = s.mnemonic ++ ":" := by
    rw [operands_eq_nil_iff_of_settled hread hsettled, hsplit, hclass, ← hcolon, String.toList_inj]
    exact eq_comm
  rw [halone]
  constructor
  · exact .inr
  · rintro (⟨hname, hchars⟩ | htext)
    · have hword : leadingLabel? word = some (word, []) := by
        rw [hclass]
        refine leadingLabel?_eq_some_iff.mpr ⟨_, ?_, hchars, rfl, (List.append_nil _).symm⟩
        rwa [ne_eq, String.toList_eq_nil_iff]
      obtain ⟨more, hmore⟩ := leadingLabel?_of_isPrefixOf (hsettled.word hsplit hne).1 hword
      have hall := eq_of_leadingLabel? hsettled.unlabeled hmore
      rw [hclass, ← hcolon, String.toList_inj] at hall
      exact hall
    · exact htext

/-- What `a$b: ret` is read as. -/
def labelBeforeReturn : Statement :=
  { text := "a$b: ret", mnemonic := "a$b", kind := .label
    operands := [[⟨"ret", .identifier, false⟩]], detail := some (.label "a$b")
    location := some ⟨"a.s", 1⟩ }

theorem operands_labelBeforeReturn :
    labelBeforeReturn ∈ ofSource "a.s" "a$b: ret" ∧ labelBeforeReturn.kind = .label ∧
      ¬ ((labelBeforeReturn.mnemonic ≠ "" ∧
          ∀ c ∈ labelBeforeReturn.mnemonic.toList, isLabelChar c = true) ∨
        labelBeforeReturn.text = labelBeforeReturn.mnemonic ++ ":") := by
  have hs : labelBeforeReturn ∈ ofSource "a.s" "a$b: ret" := by decide +kernel
  refine ⟨hs, rfl, ?_⟩
  rw [← operands_eq_nil_iff_of_label hs rfl]
  exact List.cons_ne_nil _ _

end Statement

end AsmCompare
