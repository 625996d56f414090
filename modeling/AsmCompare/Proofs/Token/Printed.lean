import AsmCompare.Proofs.Token.Lexemes

/-! # Reading printed operands back

A text has one reading only, so printed operands can be read off the pieces they were printed from.
Printing keeps all tokens and separators and puts one space between two tokens of an operand; a
space or a comma ends every token in front of it.
-/
namespace AsmCompare

namespace Token

/-- What goes on from a longest token is no longer token. -/
theorem Longest.eq_nil {t : Token} {more rest : List Char} (h : t.Longest (more ++ rest))
    {kind : Kind} (hmore : kind.accepts (t.lexeme ++ more) = true) : more = [] := by
  cases more with
  | nil => rfl
  | cons d more =>
    have hd := h.maximal d rfl kind
    rw [accepts_concat h.accepted hmore] at hd
    cases hd

theorem Longest.lexeme_eq {t u : Token} {r s : List Char} (ht : t.Longest r) (hu : u.Longest s)
    (h : t.lexeme ++ r = u.lexeme ++ s) : t.lexeme = u.lexeme := by
  rcases List.append_eq_append_iff.mp h with ⟨more, hmore, rfl⟩ | ⟨more, hmore, rfl⟩
  · have hnil : more = [] := ht.eq_nil (hmore ▸ hu.accepted)
    rw [hmore, hnil, List.append_nil]
  · have hnil : more = [] := hu.eq_nil (hmore ▸ ht.accepted)
    rw [hmore, hnil, List.append_nil]

theorem exists_lexeme_eq_cons {t : Token} (h : t.kind.accepts t.lexeme = true) :
    ∃ c w, t.lexeme = c :: w := by
  cases hw : t.lexeme with
  | nil =>
    rw [hw] at h
    cases h
  | cons c w => exact ⟨c, w, rfl⟩

/-- A character that no name has ends every token in front of it. -/
theorem longest_of_gap {t : Token} {rest : List Char} (h : t.kind.accepts t.lexeme = true)
    (hgap : ∀ d ∈ rest.head?, isNameChar d = false) : t.Longest rest where
  accepted := h
  maximal := by
    intro d hd kind
    rw [Bool.eq_false_iff]
    intro hkind
    have hstring := kind_ne_string_of_append h hkind
    obtain ⟨c, w, hw⟩ := exists_lexeme_eq_cons h
    rw [hw] at hkind
    have hmem : d ∈ w ++ [d] := List.mem_append_right w (List.mem_singleton_self d)
    have hname := isNameChar_of_mem_tail hkind hstring hmem
    rw [hgap d hd] at hname
    cases hname

/-- The `$` of an immediate number is not in its text, and nothing else is immediate. -/
def Proper (t : Token) : Prop :=
  t.immediate = true ↔ t.kind = .number ∧ t.lexeme.head? = some '$'

theorem proper_of_kind_ne {text : String} {kind : Kind} (h : kind ≠ .number) :
    Proper ⟨text, kind, false⟩ :=
  iff_of_false Bool.false_ne_true fun hp => h hp.1

theorem proper_scan (c : Char) (rest : List Char) : (scan c rest).1.Proper := by
  fun_cases scan c rest with
  | case4 rest _ _ _ hdigit =>
    refine iff_of_false Bool.false_ne_true ?_
    rintro ⟨-, hhead⟩
    rw [lexeme_ofList (by decide)] at hhead
    obtain rfl := Option.some.inj hhead
    revert hdigit
    decide
  | case5 =>
    rw [Proper, lexeme_immediate]
    exact iff_of_true rfl ⟨rfl, rfl⟩
  | _ => exact proper_of_kind_ne (by decide)

theorem Proper.eq_of_lexeme {t u : Token} (ht : t.Proper) (hu : u.Proper) (hkind : t.kind = u.kind)
    (h : t.lexeme = u.lexeme) : t = u := by
  have himmediate : t.immediate = u.immediate := by
    rw [Bool.eq_iff_iff]
    apply ht.trans
    rw [hkind, h]
    exact hu.symm
  obtain ⟨text, kind, immediate⟩ := t
  obtain ⟨text', kind', immediate'⟩ := u
  obtain rfl : kind = kind' := hkind
  obtain rfl : immediate = immediate' := himmediate
  have htext : text = text' := by
    have hrender := String.toList_inj.mp h
    simp only [render] at hrender
    split at hrender
    · simpa using hrender
    · split at hrender
      · simpa using hrender
      · exact hrender
  rw [htext]

theorem not_blank_of_accepts {kind : Kind} {c : Char} {rest : List Char}
    (h : kind.accepts (c :: rest) = true) : ¬ (c = ' ' ∨ c = '\t') := by
  have hstray : ∀ d : Char, startKind d = .unknown → d ≠ '$' → isStray d = false → c ≠ d := by
    rintro d hstart hdollar hstray rfl
    have hkind := (kind_of_accepts h).resolve_right fun hr => hdollar hr.1
    rw [hkind, hstart] at h
    simp [Kind.accepts, hstray] at h
  rintro (hc | hc)
  · exact hstray ' ' (by decide) (by decide) (by decide) hc
  · exact hstray '\t' (by decide) (by decide) (by decide) hc

/-- The scanner finds the token that a text starts with. -/
theorem Longest.scan_eq {t : Token} {c : Char} {w rest : List Char} (ht : t.Longest rest)
    (hproper : t.Proper) (hw : t.lexeme = c :: w) : scan c (w ++ rest) = (t, rest) := by
  have haccepts := ht.accepted
  rw [hw] at haccepts
  rcases scan_cases (w ++ rest) (not_blank_of_accepts haccepts) with
    ⟨hspell, hlongest⟩ | ⟨rfl, hopen, -⟩
  · rw [← List.cons_append, ← hw] at hspell
    have hlexeme := hlongest.lexeme_eq ht hspell
    have hkind := kind_unique hlongest.accepted (hlexeme ▸ ht.accepted)
    have htoken := (proper_scan c (w ++ rest)).eq_of_lexeme hproper hkind hlexeme
    rw [htoken] at hspell
    exact Prod.ext htoken (List.append_cancel_left hspell)
  · have hstring : t.kind = .string :=
      (kind_of_accepts haccepts).resolve_right fun hr => absurd hr.1 (by decide)
    rw [hstring] at haccepts
    simp only [Kind.accepts, Bool.and_eq_true] at haccepts
    rw [isOpenTail_append haccepts.2] at hopen
    cases hopen

theorem Reading.tail {depth : Nat} {p : Piece} {ps : List Piece} {tail : List Char}
    (h : Reading depth (p :: ps) tail) : Reading (p.nest depth) ps tail where
  blanks c hc := h.blanks c (List.mem_cons_of_mem p hc)
  longest before t after hsplit := h.longest (p :: before) t after (congrArg (p :: ·) hsplit)
  commas before q after hsplit := h.commas (p :: before) q after (congrArg (p :: ·) hsplit)

/-- Pieces that fit together are the ones that the scanner finds in their text, before it goes on. -/
theorem Reading.pieces_append {depth : Nat} {ps : List Piece} {tail : List Char}
    (h : Reading depth ps tail) (hproper : ∀ t, Piece.token t ∈ ps → t.Proper) :
    pieces depth (lexemes ps ++ tail) = ps ++ pieces (nesting depth ps) tail := by
  induction ps generalizing depth with
  | nil => rfl
  | cons p ps ih =>
    have hrest := ih h.tail fun t ht => hproper t (List.mem_cons_of_mem p ht)
    have hcomma := h.commas [] p ps rfl
    have hlexemes : lexemes (p :: ps) ++ tail = p.lexeme ++ (lexemes ps ++ tail) := by
      simp [lexemes]
    rw [hlexemes]
    cases p with
    | blank c =>
      have hc := h.blanks c List.mem_cons_self
      rw [Piece.lexeme, List.singleton_append, pieces, if_pos (by simpa using hc)]
      exact congrArg _ hrest
    | separator =>
      have hdepth : depth = 0 := (hcomma (List.mem_singleton_self _) rfl).mp rfl
      subst hdepth
      rw [Piece.lexeme, List.singleton_append, pieces, if_neg (by decide), if_pos (by decide)]
      exact congrArg _ hrest
    | token t =>
      have hlongest := h.longest [] t ps rfl
      obtain ⟨c, w, hw⟩ := exists_lexeme_eq_cons hlongest.accepted
      have hscan := hlongest.scan_eq (hproper t List.mem_cons_self) hw
      have hblank : ¬ (c = ' ' || c = '\t') = true := by
        have := not_blank_of_accepts (hw ▸ hlongest.accepted)
        simpa using this
      -- a comma outside brackets would be a separator
      have hnested : ¬ (c = ',' && depth = 0) = true := by
        intro hsep
        obtain ⟨rfl, hdepth⟩ : c = ',' ∧ depth = 0 := by simpa using hsep
        have hkind : t.kind = .operator :=
          (kind_of_accepts (hw ▸ hlongest.accepted)).resolve_right fun hr => absurd hr.1 (by decide)
        have hmem : ',' ∈ t.lexeme := hw ▸ List.mem_cons_self
        cases (hcomma hmem (by simp [Piece.isString, hkind])).mpr hdepth
      have hnest := nest_scan depth c (w ++ (lexemes ps ++ tail))
      rw [hscan] at hnest
      rw [Piece.lexeme, hw, List.cons_append, pieces, if_neg hblank, if_neg hnested, hscan, ← hnest]
      exact congrArg _ hrest

theorem Reading.pieces_eq {depth : Nat} {ps : List Piece} (h : Reading depth ps [])
    (hproper : ∀ t, Piece.token t ∈ ps → t.Proper) : pieces depth (lexemes ps) = ps := by
  have hread := h.pieces_append hproper
  rwa [List.append_nil, pieces, List.append_nil] at hread

/-- Whether a text that starts inside or outside of a string literal ends inside of one. -/
def endsInside : Bool → List Char → Bool
  | inside, [] => inside
  | false, c :: rest => endsInside (c = '"') rest
  | true, '\\' :: _ :: rest => endsInside true rest
  | true, c :: rest => endsInside (c ≠ '"') rest

theorem endsInside_of_not_mem {w : List Char} (h : '"' ∉ w) (rest : List Char) :
    endsInside false (w ++ rest) = endsInside false rest := by
  induction w with
  | nil => rfl
  | cons c w ih =>
    rw [List.mem_cons, not_or] at h
    have hc : decide (c = '"') = false := decide_eq_false fun heq => h.1 heq.symm
    rw [List.cons_append, endsInside, hc]
    exact ih h.2

theorem endsInside_of_isStringTail {w : List Char} (h : isStringTail w = true) (rest : List Char) :
    endsInside true (w ++ rest) = endsInside false rest := by
  fun_induction isStringTail w with
  | case1 => cases h
  | case2 more =>
    obtain rfl := List.isEmpty_iff.mp h
    rfl
  | case3 c more ih => exact ih h
  | case4 c more hquote hescape ih =>
    have hlone : ∀ e after, c = '\\' → more ++ rest = e :: after → False := by
      intro e after hc _
      cases more with
      | nil => cases h
      | cons e after => exact hescape e after hc rfl
    rw [List.cons_append, endsInside.eq_4 _ _ hlone, decide_eq_true (p := c ≠ '"') hquote]
    exact ih h

theorem endsInside_of_isOpenTail {w : List Char} (h : isOpenTail w = true) :
    endsInside true w = true := by
  fun_induction isOpenTail w with
  | case1 => rfl
  | case2 => cases h
  | case3 c rest ih => exact ih h
  | case4 c rest hquote hescape ih =>
    rw [endsInside.eq_4 _ _ hescape, decide_eq_true (p := c ≠ '"') hquote]
    exact ih h

theorem endsInside_lexeme {t : Token} (h : t.kind.accepts t.lexeme = true) (rest : List Char) :
    endsInside false (t.lexeme ++ rest) = endsInside false rest := by
  obtain ⟨c, w, hw⟩ := exists_lexeme_eq_cons h
  rw [hw] at h ⊢
  by_cases hstring : t.kind = .string
  · rw [hstring] at h
    simp only [Kind.accepts, Bool.and_eq_true, decide_eq_true_eq] at h
    obtain ⟨rfl, htail⟩ := h
    exact endsInside_of_isStringTail htail rest
  · apply endsInside_of_not_mem
    rw [List.mem_cons, not_or]
    constructor
    · rintro rfl
      exact hstring ((kind_of_accepts h).resolve_right fun hr => absurd hr.1 (by decide))
    · intro hmem
      exact absurd (isNameChar_of_mem_tail h hstring hmem) (by decide)

theorem Reading.endsInside_lexemes {depth : Nat} {ps : List Piece} {tail : List Char}
    (h : Reading depth ps tail) : endsInside false (lexemes ps ++ tail) = endsInside false tail := by
  induction ps generalizing depth with
  | nil => rfl
  | cons p ps ih =>
    have hlexemes : lexemes (p :: ps) ++ tail = p.lexeme ++ (lexemes ps ++ tail) := by
      simp [lexemes]
    rw [hlexemes, ← ih h.tail]
    cases p with
    | blank c =>
      have hc := h.blanks c List.mem_cons_self
      apply endsInside_of_not_mem
      rintro hmem
      obtain rfl := List.mem_singleton.mp hmem
      revert hc
      decide
    | separator => rfl
    | token t => exact endsInside_lexeme (h.longest [] t ps rfl).accepted _

theorem reading_pieces {text : List Char} (h : endsInside false text = false) (depth : Nat) :
    Reading depth (pieces depth text) [] := by
  obtain ⟨ps, last, tail, hps, rfl, hlast, hr⟩ := spells_pieces depth text
  rw [hr.endsInside_lexemes] at h
  cases hlast with
  | none =>
    rw [hps, List.append_nil]
    exact hr
  | string hopen =>
    have hin : endsInside true _ = false := h
    rw [endsInside_of_isOpenTail hopen] at hin
    cases hin

/-- The pieces of an operand that is printed with a space between its tokens. -/
def spacedPieces (operand : Operand) : List Piece :=
  [Piece.blank ' '].intercalate (operand.map fun t => [Piece.token t])

/-- The pieces of operands that are printed with a comma between them. -/
def listed (operands : List Operand) : List Piece :=
  [Piece.separator].intercalate (operands.map spacedPieces)

theorem lexemes_intercalate (sep : List Piece) (pss : List (List Piece)) :
    lexemes (sep.intercalate pss) = (lexemes sep).intercalate (pss.map lexemes) := by
  induction pss with
  | nil => rfl
  | cons ps pss ih =>
    cases pss with
    | nil => simp
    | cons qs pss =>
      rw [List.intercalate_cons_cons, List.map_cons, List.map_cons, List.intercalate_cons_cons,
        ← List.map_cons, ← ih]
      simp [lexemes]

theorem toList_spaced (operand : Operand) :
    operand.spaced.toList = lexemes (spacedPieces operand) := by
  rw [Operand.spaced, String.toList_intercalate, spacedPieces, lexemes_intercalate]
  simp [lexemes, Piece.lexeme, lexeme, Function.comp_def]

theorem toList_intercalate_spaced (operands : List Operand) :
    (",".intercalate (operands.map Operand.spaced)).toList = lexemes (listed operands) := by
  rw [String.toList_intercalate, listed, lexemes_intercalate, List.map_map, List.map_map]
  have hspaced : String.toList ∘ Operand.spaced = lexemes ∘ spacedPieces := by
    funext operand
    exact toList_spaced operand
  rw [hspaced]
  rfl

theorem listed_cons_cons (first second : Operand) (operands : List Operand) :
    listed (first :: second :: operands) =
      spacedPieces first ++ .separator :: listed (second :: operands) := by
  rw [listed, List.map_cons, List.map_cons, List.intercalate_cons_cons, List.append_assoc]
  rfl

theorem listed_singleton (operand : Operand) : listed [operand] = spacedPieces operand := by
  simp [listed]

theorem listed_concat_nil {operands : List Operand} (h : operands ≠ []) :
    listed (operands ++ [[]]) = listed operands ++ [.separator] := by
  induction operands with
  | nil => exact absurd rfl h
  | cons first operands ih =>
    cases operands with
    | nil =>
      rw [List.singleton_append, listed_cons_cons, listed_singleton, listed_singleton]
      rfl
    | cons second operands =>
      rw [List.cons_append, List.cons_append, listed_cons_cons, ← List.cons_append,
        ih (List.cons_ne_nil _ _), listed_cons_cons, List.append_assoc, List.cons_append]

theorem spacedPieces_cons_cons (t u : Token) (operand : Operand) :
    spacedPieces (t :: u :: operand) = .token t :: .blank ' ' :: spacedPieces (u :: operand) := by
  rw [spacedPieces, List.map_cons, List.map_cons, List.intercalate_cons_cons]
  rfl

/-- One token more in front of the first operand. -/
theorem listed_cons_token (t : Token) (operand : Operand) (operands : List Operand) :
    listed ((t :: operand) :: operands) =
      .token t :: (if operand = [] then listed ([] :: operands)
        else .blank ' ' :: listed (operand :: operands)) := by
  cases operand with
  | nil =>
    cases operands with
    | nil => simp [listed_singleton, spacedPieces]
    | cons second operands => simp [listed_cons_cons, spacedPieces]
  | cons u operand =>
    cases operands with
    | nil => simp [listed_singleton, spacedPieces_cons_cons]
    | cons second operands => simp [listed_cons_cons, spacedPieces_cons_cons]

theorem separator_not_mem_spacedPieces (operand : Operand) :
    Piece.separator ∉ spacedPieces operand := by
  induction operand with
  | nil => simp [spacedPieces]
  | cons t operand ih =>
    cases operand with
    | nil => simp [spacedPieces]
    | cons u operand =>
      rw [spacedPieces_cons_cons]
      simpa using ih

theorem filterMap_token?_spacedPieces (operand : Operand) :
    (spacedPieces operand).filterMap Piece.token? = operand := by
  induction operand with
  | nil => rfl
  | cons t operand ih =>
    cases operand with
    | nil => rfl
    | cons u operand =>
      rw [spacedPieces_cons_cons]
      exact congrArg (t :: ·) ih

theorem group_listed {operands : List Operand} (h : operands ≠ []) :
    group (listed operands) = operands := by
  have hsplit : (listed operands).splitOnP (· = .separator) = operands.map spacedPieces := by
    apply List.splitOn_intercalate
    · intro ps hps
      obtain ⟨operand, -, rfl⟩ := List.mem_map.mp hps
      exact separator_not_mem_spacedPieces operand
    · rwa [ne_eq, List.map_eq_nil_iff]
  rw [group_eq_splitOnP, hsplit, List.map_map]
  have hid : List.filterMap Piece.token? ∘ spacedPieces = id := by
    funext operand
    exact filterMap_token?_spacedPieces operand
  rw [hid, List.map_id]

theorem group_ne_nil (ps : List Piece) : group ps ≠ [] := by
  rw [group_eq_splitOnP, ne_eq, List.map_eq_nil_iff]
  exact List.splitOnP_ne_nil _ _

theorem Reading.cons_blank {depth : Nat} {ps : List Piece} {tail : List Char}
    (h : Reading depth ps tail) : Reading depth (.blank ' ' :: ps) tail := by
  apply Reading.cons (p := .blank ' ') h
  · rintro _ ⟨⟩
    exact .inl rfl
  · rintro _ ⟨⟩
  · intro hmem
    exact absurd (List.mem_singleton.mp hmem) (by decide)

/-- Printing the operands of a text leaves a text with the same tokens and separators. -/
theorem Reading.listed_group {depth : Nat} {ps : List Piece} (h : Reading depth ps []) :
    Reading depth (listed (group ps)) [] := by
  induction ps generalizing depth with
  | nil => exact reading_nil depth []
  | cons p ps ih =>
    have hrest := ih h.tail
    have hcomma := h.commas [] p ps rfl
    obtain ⟨operand, operands, hgroup⟩ := List.exists_cons_of_ne_nil (group_ne_nil ps)
    rw [hgroup] at hrest
    cases p with
    | blank c =>
      rw [group, hgroup]
      exact hrest
    | separator =>
      rw [group, hgroup, listed_cons_cons]
      apply Reading.cons (p := .separator) hrest
      · rintro c ⟨⟩
      · rintro t ⟨⟩
      · exact hcomma
    | token t =>
      have haccepted := (h.longest [] t ps rfl).accepted
      simp only [group, hgroup]
      rw [listed_cons_token]
      split
      · next hnil =>
        subst hnil
        apply Reading.cons (p := .token t) hrest
        · rintro c ⟨⟩
        · rintro _ ⟨⟩
          apply longest_of_gap haccepted
          intro d hd
          cases operands with
          | nil => cases hd
          | cons second operands =>
            rw [listed_cons_cons] at hd
            obtain rfl := Option.some.inj hd
            decide
        · exact hcomma
      · apply Reading.cons (p := .token t)
        · exact hrest.cons_blank
        · rintro c ⟨⟩
        · rintro _ ⟨⟩
          apply longest_of_gap haccepted
          intro d hd
          obtain rfl := Option.some.inj hd
          decide
        · exact hcomma

theorem Longest.of_append {t : Token} {rest more : List Char} (h : t.Longest (rest ++ more)) :
    t.Longest rest where
  accepted := h.accepted
  maximal := by
    intro c hc
    apply h.maximal
    cases rest with
    | nil => cases hc
    | cons d rest => exact hc

theorem Reading.of_append {depth : Nat} {ps qs : List Piece} (h : Reading depth (ps ++ qs) []) :
    Reading depth ps [] := by
  have hsplit : ∀ before p after, ps = before ++ p :: after →
      ps ++ qs = before ++ p :: (after ++ qs) := by
    rintro before p after rfl
    rw [List.append_assoc, List.cons_append]
  constructor
  · intro c hc
    exact h.blanks c (List.mem_append_left qs hc)
  · intro before t after heq
    have hlong := h.longest before t (after ++ qs) (hsplit before _ after heq)
    rw [lexemes, List.flatMap_append, List.append_assoc] at hlong
    rw [List.append_nil]
    exact hlong.of_append
  · intro before p after heq
    exact h.commas before p (after ++ qs) (hsplit before p after heq)

end Token

namespace Operand
open Token

theorem exists_group_eq (text : List Char) :
    ∃ operands final, group (pieces 0 text) = operands ++ [final] ∧
      ofText text = if final = [] then operands else operands ++ [final] := by
  obtain ⟨operands, final, hgroups⟩ :=
    (List.eq_nil_or_concat (group (pieces 0 text))).resolve_left (group_ne_nil _)
  rw [List.concat_eq_append] at hgroups
  refine ⟨operands, final, hgroups, ?_⟩
  simp [ofText, hgroups]

/-- The operands of a text, printed one after the other; an empty one at the end gets a comma of
its own. -/
def joined (operands : List Operand) : String :=
  ",".intercalate (operands.map spaced) ++ if operands.getLast? = some [] then "," else ""

theorem toList_joined (operands : List Operand) :
    (joined operands).toList =
      lexemes (listed (if operands.getLast? = some [] then operands ++ [[]] else operands)) := by
  rw [joined, String.toList_append, toList_intercalate_spaced]
  split
  · next hlast =>
    have hne : operands ≠ [] := by
      rintro rfl
      cases hlast
    rw [listed_concat_nil hne, lexemes, lexemes, List.flatMap_append]
    rfl
  · rw [String.toList_empty, List.append_nil]

theorem ofText_lexemes_listed {operands : List Operand} (hne : operands ≠ [])
    (h : Reading 0 (listed operands) []) (hproper : ∀ t ∈ operands.flatten, t.Proper) :
    ofText (lexemes (listed operands)) =
      if operands.getLast? = some [] then operands.dropLast else operands := by
  have hpieces : pieces 0 (lexemes (listed operands)) = listed operands := by
    apply h.pieces_eq
    intro t ht
    apply hproper
    rw [← group_listed hne, flatten_group]
    exact List.mem_filterMap.mpr ⟨_, ht, rfl⟩
  simp only [ofText, hpieces, group_listed hne]

/-- Printed operands read back as they were, if the text they come from closes its strings. -/
theorem ofText_joined {text : List Char} (h : endsInside false text = false) :
    ofText (joined (ofText text)).toList = ofText text := by
  have hread := (reading_pieces h 0).listed_group
  have hproper : ∀ t ∈ (group (pieces 0 text)).flatten, t.Proper := by
    intro t ht
    obtain ⟨operand, ho, ht⟩ := List.mem_flatten.mp ht
    obtain ⟨c, rest, rfl⟩ := exists_scan_of_mem_pieces (mem_of_mem_group ho ht)
    exact proper_scan c rest
  obtain ⟨operands, last, hgroups⟩ :=
    (List.eq_nil_or_concat (group (pieces 0 text))).resolve_left (group_ne_nil _)
  rw [List.concat_eq_append] at hgroups
  have htext : ofText text = if last = [] then operands else operands ++ [last] := by
    simp [ofText, hgroups]
  rw [hgroups] at hread hproper
  rw [toList_joined, htext]
  by_cases hlast : last = []
  · subst hlast
    rw [if_pos rfl]
    split
    · rw [ofText_lexemes_listed (by simp) hread hproper]
      simp
    · next hfull =>
      -- the comma after the last operand is not printed
      by_cases hne : operands = []
      · subst hne
        simp [listed, lexemes, ofText, pieces, group]
      · rw [listed_concat_nil hne] at hread
        rw [List.flatten_append] at hproper
        rw [ofText_lexemes_listed hne hread.of_append fun t ht =>
          hproper t (List.mem_append_left _ ht), if_neg hfull]
  · rw [if_neg hlast]
    have hfull : ¬ (operands ++ [last]).getLast? = some [] := by simpa using hlast
    rw [if_neg hfull, ofText_lexemes_listed (by simp) hread hproper, if_neg hfull]

theorem ofText_joined_mixed :
    endsInside false "-8(%rbp,%rax, 4) ,\"a\\\",b\" x,, $ 5,$0x1f,".toList = false ∧
      ofText (joined (ofText "-8(%rbp,%rax, 4) ,\"a\\\",b\" x,, $ 5,$0x1f,".toList)).toList =
        ofText "-8(%rbp,%rax, 4) ,\"a\\\",b\" x,, $ 5,$0x1f,".toList :=
  ⟨by decide, ofText_joined (by decide)⟩

end Operand

end AsmCompare
