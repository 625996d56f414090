import AsmCompare.Proofs.Token.Printed
import Mathlib.Data.List.Chain

/-! # Operands printed without spare blanks

A statement is printed with a blank between two words and none between other tokens. The text that
comes out has the tokens of the operands and no others, unless a flag or a `$` stands in front of a
token that would have been part of it. A string that the source does not close gets a quote, which
closes it or, behind a backslash, becomes a part of it; either way it can be taken off again.
-/
namespace AsmCompare

namespace Token

/-- Printed side by side, the first token goes on into the second one. -/
def RunsInto (t u : Token) : Prop :=
  t.kind = .typeFlag ∧ u.lexeme.head?.any Char.isAlphanum = true ∨
    t.lexeme = ['$'] ∧ u.lexeme.head?.any Char.isDigit = true

instance : DecidableRel RunsInto := fun _ _ => inferInstanceAs (Decidable (_ ∨ _))

/-- Side by side, the tokens of an operand stay apart. -/
def Apart (operand : Operand) : Prop := operand.IsChain fun t u => ¬ RunsInto t u

instance : DecidablePred Apart := fun operand =>
  inferInstanceAs (Decidable (operand.IsChain fun t u => ¬ RunsInto t u))

theorem isNameChar_of_not_isWord {kind : Kind} {c : Char} {w : List Char}
    (h : kind.accepts (c :: w) = true) (hword : kind.isWord = false) : isNameChar c = false := by
  rw [Bool.eq_false_iff]
  intro hname
  cases kind with
  | operator =>
    have hop : isOperator c = false := isOperator_eq_false (by decide) hname
    rw [Kind.accepts, hop] at h
    cases h
  | typeFlag =>
    rw [Kind.accepts, Bool.and_eq_true, decide_eq_true_eq] at h
    rw [h.1] at hname
    cases hname
  | unknown =>
    rw [Kind.accepts, Bool.and_eq_true] at h
    have hstray := h.1
    simp only [isStray, Bool.not_eq_true', Bool.or_eq_false_iff] at hstray
    have hstart : isNameStart c = false := hstray.1.1.1.1.2
    have hdigit : c.isDigit = false := by
      rw [Bool.eq_false_iff]
      intro hd
      rw [Text.isDigitValued_of_isDigit hd] at hstray
      cases hstray.1.1.2
    simp only [isNameStart, Bool.or_eq_false_iff] at hstart
    simp [isNameChar, Char.isAlphanum, hstart, hdigit] at hname
  | _ => cases hword

/-- A token that is no word ends where the next one does not go on with it. -/
theorem longest_of_not_runsInto {t u : Token} {rest : List Char}
    (h : t.kind.accepts t.lexeme = true) (hword : t.kind.isWord = false) (hruns : ¬ RunsInto t u)
    (hrest : rest.head? = u.lexeme.head?) : t.Longest rest where
  accepted := h
  maximal := by
    intro d hd kind
    rw [Bool.eq_false_iff]
    intro hkind
    rw [hrest] at hd
    obtain ⟨c, w, hw⟩ := exists_lexeme_eq_cons h
    rw [hw] at h hkind
    by_cases hc : c = '$'
    · subst hc
      have hop : t.kind = .operator := by
        rcases kind_of_accepts h with hk | ⟨-, hk⟩
        · exact hk
        · rw [hk] at hword
          cases hword
      rw [hop, Kind.accepts, Bool.and_eq_true, List.isEmpty_iff] at h
      rw [h.2] at hw hkind
      -- only a number goes on after a `$`
      rcases kind_of_accepts hkind with rfl | ⟨-, rfl⟩
      · cases hkind
      · simp only [List.singleton_append, Kind.accepts, isImmediateTail, if_true, Bool.and_eq_true]
          at hkind
        exact hruns (.inr ⟨hw, by rw [Option.mem_def.mp hd]; exact hkind.1⟩)
    · have hsame : kind = t.kind := by
        rw [(kind_of_accepts hkind).resolve_right fun hr => hc hr.1,
          (kind_of_accepts h).resolve_right fun hr => hc hr.1]
      subst hsame
      cases hk : t.kind with
      | operator | unknown => simp [hk, Kind.accepts] at hkind
      | typeFlag =>
        rw [hk, List.cons_append, Kind.accepts, Bool.and_eq_true, List.all_append] at hkind
        refine hruns (.inl ⟨hk, ?_⟩)
        rw [Option.mem_def.mp hd]
        exact List.all_eq_true.mp (Bool.and_eq_true_iff.mp hkind.2).2 d (List.mem_singleton_self d)
      | _ =>
        rw [hk] at hword
        cases hword

theorem lexeme_scan_ne_nil (c : Char) (rest : List Char) : (scan c rest).1.lexeme ≠ [] := by
  fun_cases scan c rest with
  | case5 =>
    rw [lexeme_immediate]
    exact List.cons_ne_nil _ _
  | case6 | case7 =>
    rw [lexeme_dollar]
    exact List.cons_ne_nil _ _
  | case8 =>
    rw [lexeme_string]
    exact List.cons_ne_nil _ _
  | _ =>
    rw [lexeme_ofList (by decide)]
    exact List.cons_ne_nil _ _

/-- The blank behind a token. -/
def gap (t : Token) : Operand → List Piece
  | [] => []
  | u :: _ => if t.kind.isWord && u.kind.isWord then [.blank ' '] else []

/-- The pieces of an operand that is printed with blanks between its words only. -/
def compact : Operand → List Piece
  | [] => []
  | t :: rest => .token t :: (gap t rest ++ compact rest)

/-- The pieces of an operand behind a comma. -/
def further (operand : Operand) : List Piece :=
  .separator :: ((if operand = [] then [] else [.blank ' ']) ++ compact operand)

/-- The pieces of printed operands. -/
def printed : List Operand → List Piece
  | [] => []
  | first :: rest => compact first ++ rest.flatMap further

theorem lexemes_append (ps qs : List Piece) : lexemes (ps ++ qs) = lexemes ps ++ lexemes qs :=
  List.flatMap_append

theorem lexemes_cons (p : Piece) (ps : List Piece) : lexemes (p :: ps) = p.lexeme ++ lexemes ps :=
  List.flatMap_cons

theorem lexemes_compact_cons (t : Token) (operand : Operand) :
    lexemes (compact (t :: operand)) =
      t.lexeme ++ (lexemes (gap t operand) ++ lexemes (compact operand)) := by
  rw [compact, lexemes_cons, lexemes_append]
  rfl

theorem toList_render (operand : Operand) : operand.render.toList = lexemes (compact operand) := by
  induction operand with
  | nil => rfl
  | cons t rest ih =>
    cases rest with
    | nil => simp [Operand.render, compact, gap, lexemes, Piece.lexeme, lexeme]
    | cons u rest =>
      have hgap : (if t.kind.isWord && u.kind.isWord then " " else "").toList =
          lexemes (gap t (u :: rest)) := by
        rw [gap]
        split
        · rfl
        · rfl
      rw [Operand.render, String.toList_append, String.toList_append, ih, hgap,
        lexemes_compact_cons t, List.append_assoc]
      rfl

theorem printed_cons_token (t : Token) (operand : Operand) (operands : List Operand) :
    printed ((t :: operand) :: operands) =
      .token t :: (gap t operand ++ printed (operand :: operands)) := by
  simp [printed, compact]

theorem printed_nil_cons (operand : Operand) (operands : List Operand) :
    printed ([] :: operand :: operands) =
      .separator :: ((if operand = [] then [] else [.blank ' ']) ++ printed (operand :: operands)) := by
  simp [printed, compact, further]

theorem printed_concat_nil {operands : List Operand} (h : operands ≠ []) :
    printed (operands ++ [[]]) = printed operands ++ [.separator] := by
  obtain ⟨first, rest, rfl⟩ := List.exists_cons_of_ne_nil h
  simp [printed, further, compact]

theorem group_gap (t : Token) (operand : Operand) (ps : List Piece) :
    group (gap t operand ++ ps) = group ps := by
  cases operand with
  | nil => rfl
  | cons u operand =>
    rw [gap]
    split
    · rfl
    · rfl

theorem group_printed {operands : List Operand} (h : operands ≠ []) :
    group (printed operands) = operands := by
  induction operands with
  | nil => exact absurd rfl h
  | cons operand operands ih =>
    induction operand with
    | nil =>
      cases operands with
      | nil => rfl
      | cons second operands =>
        rw [printed_nil_cons, group]
        congr 1
        split
        · exact ih (List.cons_ne_nil _ _)
        · exact ih (List.cons_ne_nil _ _)
    | cons t operand ihtokens =>
      simp only [printed_cons_token, group, group_gap, ihtokens (List.cons_ne_nil _ _)]

section Boundary
variable {depth : Nat} {qs last more : List Piece} {tail : List Char}

/-- What the text starts with if a token comes first. -/
theorem Reading.head?_of_token {u : Token} (h : Reading depth qs tail) (hlast : Unclosed last tail)
    (hq : qs ++ last = .token u :: more) :
    (lexemes qs ++ tail).head? = u.lexeme.head? ∧
      (u.kind = .string ∨ u.kind.accepts u.lexeme = true) := by
  cases qs with
  | nil =>
    cases hlast with
    | none => cases hq
    | string hopen =>
      cases hq
      rw [lexeme_string]
      exact ⟨rfl, .inl rfl⟩
  | cons p qs =>
    obtain ⟨rfl, -⟩ := List.cons.inj hq
    have haccepted := (h.longest [] u qs rfl).accepted
    obtain ⟨c, w, hw⟩ := exists_lexeme_eq_cons haccepted
    rw [lexemes_cons, Piece.lexeme, hw]
    exact ⟨rfl, .inr (hw ▸ haccepted)⟩

/-- Where no token follows, the text ends or goes on with a comma. -/
theorem Unclosed.head?_of_nil (hlast : Unclosed last tail) {operands : List Operand}
    (hq : qs ++ last = printed ([] :: operands)) : ∀ d ∈ (lexemes qs ++ tail).head?, d = ',' := by
  intro d hd
  cases operands with
  | nil =>
    obtain ⟨rfl, rfl⟩ := List.append_eq_nil_iff.mp hq
    cases hlast
    cases hd
  | cons second operands =>
    rw [printed_nil_cons] at hq
    cases qs with
    | nil => cases hlast <;> cases hq
    | cons p qs =>
      obtain ⟨rfl, -⟩ := List.cons.inj hq
      exact (Option.some.inj hd).symm

theorem Reading.longest_gap {t : Token} {operand : Operand} {operands : List Operand}
    (h : Reading depth qs tail) (hlast : Unclosed last tail)
    (hq : qs ++ last = printed (operand :: operands)) (ht : t.kind.accepts t.lexeme = true)
    (hruns : ∀ u ∈ operand.head?, ¬ RunsInto t u) :
    t.Longest (lexemes (gap t operand ++ qs) ++ tail) := by
  cases operand with
  | nil =>
    apply longest_of_gap ht
    intro d hd
    rw [hlast.head?_of_nil hq d hd]
    decide
  | cons u operand =>
    rw [printed_cons_token] at hq
    obtain ⟨hhead, hu⟩ := h.head?_of_token hlast hq
    rw [gap]
    split
    · apply longest_of_gap ht
      intro d hd
      obtain rfl := Option.some.inj hd
      decide
    · next hwords =>
      rw [List.nil_append]
      cases htword : t.kind.isWord with
      | false => exact longest_of_not_runsInto ht htword (hruns u rfl) hhead
      | true =>
        have huword : u.kind.isWord = false := by simpa [htword] using hwords
        have haccepted : u.kind.accepts u.lexeme = true := by
          rcases hu with hstring | haccepted
          · rw [hstring] at huword
            cases huword
          · exact haccepted
        obtain ⟨c, w, hw⟩ := exists_lexeme_eq_cons haccepted
        apply longest_of_gap ht
        intro d hd
        rw [hhead, hw] at hd
        obtain rfl := Option.some.inj hd
        exact isNameChar_of_not_isWord (hw ▸ haccepted) huword

end Boundary

/-- The tokens and separators of a text can be printed side by side. -/
theorem Reading.exists_printed {depth : Nat} {ps last : List Piece} {tail : List Char}
    (h : Reading depth ps tail) (hlast : Unclosed last tail)
    (hapart : ∀ operand ∈ group (ps ++ last), Apart operand) :
    ∃ qs, qs ++ last = printed (group (ps ++ last)) ∧ Reading depth qs tail := by
  induction ps generalizing depth with
  | nil =>
    refine ⟨[], ?_, reading_nil depth tail⟩
    cases hlast with
    | none => rfl
    | string => rfl
  | cons p ps ih =>
    have hcomma := h.commas [] p ps rfl
    obtain ⟨operand, operands, hgroup⟩ := List.exists_cons_of_ne_nil (group_ne_nil (ps ++ last))
    cases p with
    | blank c => exact ih h.tail hapart
    | separator =>
      rw [List.cons_append, group] at hapart ⊢
      obtain ⟨qs, hqs, hread⟩ := ih h.tail fun o ho => hapart o (List.mem_cons_of_mem _ ho)
      rw [hgroup] at hqs
      refine ⟨.separator :: ((if operand = [] then [] else [.blank ' ']) ++ qs), ?_, ?_⟩
      · rw [hgroup, printed_nil_cons, ← hqs, List.cons_append, List.append_assoc]
      · have hblank : Reading (Piece.separator.nest depth)
            ((if operand = [] then [] else [.blank ' ']) ++ qs) tail := by
          split
          · exact hread
          · exact hread.cons_blank
        apply Reading.cons hblank
        · rintro c ⟨⟩
        · rintro t ⟨⟩
        · exact hcomma
    | token t =>
      have haccepted := (h.longest [] t ps rfl).accepted
      simp only [List.cons_append, group, hgroup] at hapart ⊢
      have hfirst : Apart (t :: operand) := hapart _ List.mem_cons_self
      obtain ⟨hruns, hoperand⟩ := List.isChain_cons.mp hfirst
      obtain ⟨qs, hqs, hread⟩ := ih h.tail (by
        rw [hgroup]
        exact List.forall_mem_cons.mpr ⟨hoperand, fun o ho => hapart o (List.mem_cons_of_mem _ ho)⟩)
      rw [hgroup] at hqs
      refine ⟨.token t :: (gap t operand ++ qs), ?_, ?_⟩
      · rw [printed_cons_token, ← hqs, List.cons_append, List.append_assoc]
      · have hblank : Reading ((Piece.token t).nest depth) (gap t operand ++ qs) tail := by
          cases operand with
          | nil => exact hread
          | cons u operand =>
            rw [gap]
            split
            · exact hread.cons_blank
            · exact hread
        apply Reading.cons hblank
        · rintro c ⟨⟩
        · rintro _ ⟨⟩
          exact hread.longest_gap hlast hqs haccepted hruns
        · exact hcomma

theorem Longest.of_head? {t : Token} {rest other : List Char} (h : t.Longest rest)
    (hhead : other.head? = rest.head?) : t.Longest other where
  accepted := h.accepted
  maximal := by
    rw [hhead]
    exact h.maximal

/-- How pieces stand in a text depends on the next character only. -/
theorem Reading.of_head? {depth : Nat} {ps : List Piece} {tail other : List Char}
    (h : Reading depth ps tail) (hhead : other.head? = tail.head?) : Reading depth ps other where
  blanks := h.blanks
  longest := by
    intro before t after hsplit
    apply (h.longest before t after hsplit).of_head?
    rw [List.head?_append, List.head?_append, hhead]
  commas := h.commas

/-- A quote behind a string that is not closed closes it, unless a backslash stands in front. -/
theorem isStringTail_or_isOpenTail {w : List Char} (h : isOpenTail w = true) :
    isStringTail (w ++ ['"']) = true ∨ isOpenTail (w ++ ['"']) = true := by
  fun_induction isOpenTail w with
  | case1 => exact .inl rfl
  | case2 => cases h
  | case3 c rest ih => exact ih h
  | case4 c rest hquote hescape ih =>
    by_cases hc : c = '\\'
    · subst hc
      cases rest with
      | nil => exact .inr rfl
      | cons d rest => exact absurd rfl (hescape d rest rfl)
    · have hlone : ∀ e more, c = '\\' → rest ++ ['"'] = e :: more → False := by
        intro _ _ heq _
        exact hc heq
      rw [List.cons_append, isStringTail.eq_4 _ _ hquote hlone, isOpenTail.eq_4 _ _ hquote hlone]
      exact ih h

theorem pieces_of_scan_quote {t : Token} {rest : List Char} (h : scan '"' rest = (t, []))
    (depth : Nat) : pieces depth ('"' :: rest) = [.token t] := by
  rw [pieces, if_neg (by decide), if_neg (by simp), h, pieces]

theorem pieces_unclosed {content : List Char} (h : isOpenTail content = true) (depth : Nat) :
    pieces depth ('"' :: content) = [.token ⟨String.ofList content, .string, false⟩] := by
  apply pieces_of_scan_quote
  rcases spanString_cases content with ⟨hsplit, htail⟩ | ⟨hall, -⟩
  · have hclosed := isOpenTail_append htail (spanString content).2
    rw [List.append_assoc, List.singleton_append, ← hsplit, h] at hclosed
    cases hclosed
  · simp only [scan, hall]
    rfl

theorem pieces_closed {content : List Char} (h : isStringTail (content ++ ['"']) = true)
    (depth : Nat) :
    pieces depth ('"' :: (content ++ ['"'])) = [.token ⟨String.ofList content, .string, false⟩] := by
  have hlongest : Longest ⟨String.ofList content, .string, false⟩ [] := longest_string [] h
  have hscan := hlongest.scan_eq (proper_of_kind_ne (by decide)) (lexeme_string content false)
  rw [List.append_nil] at hscan
  exact pieces_of_scan_quote hscan depth

/-- A text without a last quote that a backslash escapes. -/
def dropEscapedQuote (text : List Char) : List Char :=
  if endsInside false text then text.dropLast else text

/-- The pieces of a text are found in what is printed for them, up to such a quote. -/
theorem Reading.pieces_dropEscapedQuote {depth : Nat} {qs last : List Piece} {tail : List Char}
    (h : Reading depth qs tail) (hlast : Unclosed last tail)
    (hproper : ∀ t, Piece.token t ∈ qs → t.Proper) :
    pieces depth (dropEscapedQuote (lexemes (qs ++ last))) = qs ++ last := by
  cases hlast with
  | none =>
    have hout : endsInside false (lexemes qs) = false := by
      have hends := h.endsInside_lexemes
      rwa [List.append_nil] at hends
    rw [List.append_nil, dropEscapedQuote, hout]
    exact h.pieces_eq hproper
  | @string content hopen =>
    have htext : lexemes (qs ++ [.token ⟨String.ofList content, .string, false⟩]) =
        lexemes qs ++ '"' :: (content ++ ['"']) := by
      rw [lexemes_append, lexemes_cons, Piece.lexeme, lexeme_string]
      exact congrArg _ (List.append_nil _)
    have hread : Reading depth qs ('"' :: (content ++ ['"'])) := h.of_head? rfl
    have hends : endsInside false (lexemes qs ++ '"' :: (content ++ ['"'])) =
        endsInside true (content ++ ['"']) := hread.endsInside_lexemes
    rw [htext, dropEscapedQuote, hends]
    rcases isStringTail_or_isOpenTail hopen with hclosed | hescaped
    · have hout := endsInside_of_isStringTail hclosed []
      rw [List.append_nil] at hout
      rw [hout, if_neg (by decide), hread.pieces_append hproper, pieces_closed hclosed]
    · have hdrop : (lexemes qs ++ '"' :: (content ++ ['"'])).dropLast =
          lexemes qs ++ '"' :: content := by
        rw [← List.cons_append, ← List.append_assoc, List.dropLast_concat]
      rw [endsInside_of_isOpenTail hescaped, if_pos rfl, hdrop, h.pieces_append hproper,
        pieces_unclosed hopen]

end Token

namespace Operand
open Token

theorem proper_of_mem_printed {text : List Char} {ps : List Piece} {operands : List Operand}
    (hgroup : group (pieces 0 text) = operands) (hps : ps <+: printed operands) {t : Token}
    (ht : Piece.token t ∈ ps) : t.Proper := by
  have hne : operands ≠ [] := hgroup ▸ group_ne_nil _
  have hmem : t ∈ (group (printed operands)).flatten := by
    rw [flatten_group]
    exact List.mem_filterMap.mpr ⟨_, hps.subset ht, rfl⟩
  rw [group_printed hne, ← hgroup, flatten_group] at hmem
  obtain ⟨p, hp, htoken⟩ := List.mem_filterMap.mp hmem
  cases p with
  | token u =>
    obtain rfl := Option.some.inj htoken
    obtain ⟨c, rest, rfl⟩ := exists_scan_of_mem_pieces hp
    exact proper_scan c rest
  | _ => cases htoken

/-- The scanner finds the printed operands of a text again. -/
theorem pieces_printed {text : List Char} (h : ∀ operand ∈ ofText text, Apart operand) :
    pieces 0 (dropEscapedQuote (lexemes (printed (ofText text)))) = printed (ofText text) := by
  obtain ⟨operands, final, hgroups, htext⟩ := exists_group_eq text
  have hapart : ∀ operand ∈ group (pieces 0 text), Apart operand := by
    intro operand hmem
    rw [hgroups] at hmem
    by_cases hfinal : final = []
    · rcases List.mem_append.mp hmem with hmem | hmem
      · rw [htext, if_pos hfinal] at h
        exact h operand hmem
      · rw [List.mem_singleton.mp hmem, hfinal]
        exact List.isChain_nil
    · rw [htext, if_neg hfinal] at h
      exact h operand hmem
  obtain ⟨ps, last, tail, hps, -, hlast, hr⟩ := spells_pieces 0 text
  rw [hps] at hapart
  obtain ⟨qs, hqs, hread⟩ := hr.exists_printed hlast hapart
  rw [← hps, hgroups] at hqs
  have hproper : ∀ t, Piece.token t ∈ qs → t.Proper := fun t ht =>
    proper_of_mem_printed hgroups ⟨last, hqs⟩ ht
  by_cases hfinal : final = []
  · subst hfinal
    rw [htext, if_pos rfl]
    by_cases hne : operands = []
    · subst hne
      decide +kernel
    · -- the comma at the end is not printed
      rw [printed_concat_nil hne] at hqs
      cases hlast with
      | none =>
        rw [List.append_nil] at hqs
        subst hqs
        have hshort := hread.of_append.pieces_dropEscapedQuote .none fun t ht =>
          hproper t (List.mem_append_left _ ht)
        rwa [List.append_nil] at hshort
      | string hopen =>
        cases (List.append_inj' hqs rfl).2
  · rw [htext, if_neg hfinal, ← hqs]
    exact hread.pieces_dropEscapedQuote hlast hproper

/-- Printed alike, operands whose tokens stay apart are the same. -/
theorem eq_of_lexemes_printed {text other : List Char} (hne : ofText text ≠ [])
    (hother : ofText other ≠ []) (h : ∀ operand ∈ ofText text, Apart operand)
    (h' : ∀ operand ∈ ofText other, Apart operand)
    (heq : lexemes (printed (ofText text)) = lexemes (printed (ofText other))) :
    ofText text = ofText other := by
  have hpieces := pieces_printed h
  rw [heq, pieces_printed h'] at hpieces
  rw [← group_printed hne, ← hpieces, group_printed hother]

end Operand

end AsmCompare
