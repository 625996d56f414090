import AsmCompare.Proofs.Token.Language

/-! # Lexical exactness

A text is, character by character, the blanks between its tokens, the commas that separate its
operands and the texts of its tokens, each as long as it can be. Only a string at the end may lack
its closing quote.
-/
namespace AsmCompare

namespace Token

/-- The characters of a token in a text. -/
def lexeme (t : Token) : List Char := t.render.toList

/-- `t` is a token, and with the next character of the text it would be none. -/
structure Longest (t : Token) (rest : List Char) : Prop where
  accepted : t.kind.accepts t.lexeme = true
  maximal : ∀ c ∈ rest.head?, ∀ kind : Kind, kind.accepts (t.lexeme ++ [c]) = false

theorem lexeme_ofList {w : List Char} {kind : Kind} (h : kind ≠ .string) :
    lexeme ⟨String.ofList w, kind, false⟩ = w := by
  simp [lexeme, render, h]

theorem lexeme_immediate (w : List Char) :
    lexeme ⟨String.ofList w, .number, true⟩ = '$' :: w := by
  simp [lexeme, render]

theorem lexeme_string (w : List Char) (immediate : Bool) :
    lexeme ⟨String.ofList w, .string, immediate⟩ = '"' :: (w ++ ['"']) := by
  simp [lexeme, render]

theorem lexeme_dollar : lexeme ⟨"$", .operator, false⟩ = ['$'] := by decide

section Span

variable (p : Char → Bool) (s : List Char)

theorem span_append : (span p s).1 ++ (span p s).2 = s := List.takeWhile_append_dropWhile

theorem all_span : (span p s).1.all p = true := List.all_takeWhile

theorem span_next {c : Char} (h : c ∈ (span p s).2.head?) : p c = false := by
  have := List.head?_dropWhile_not p s
  rw [span] at h
  rw [Option.mem_def.mp h] at this
  simpa using this

end Span

theorem spanNumber_append (s : List Char) : (spanNumber s).1 ++ (spanNumber s).2 = s := by
  fun_cases spanNumber s with
  | case1 c rest _ => simp [span_append]
  | case2 c rest _ => exact span_append isHexDigit (c :: rest)
  | case3 => rfl

theorem isNumberTail_of_all {w : List Char} (h : w.all isHexDigit = true) :
    isNumberTail w = true := by
  cases w with
  | nil => rfl
  | cons c rest =>
    simp only [List.all_cons, Bool.and_eq_true] at h
    simp [isNumberTail, h]

theorem isNumberTail_spanNumber (s : List Char) : isNumberTail (spanNumber s).1 = true := by
  fun_cases spanNumber s with
  | case1 c rest hx =>
    simp only [isNumberTail, hx, Bool.true_or, Bool.true_and]
    exact all_span isHexDigit rest
  | case2 c rest _ => exact isNumberTail_of_all (all_span isHexDigit (c :: rest))
  | case3 => rfl

theorem spanNumber_next {s : List Char} {c : Char} (h : c ∈ (spanNumber s).2.head?) :
    isNumberTail ((spanNumber s).1 ++ [c]) = false := by
  fun_cases spanNumber s with
  | case1 x rest hx =>
    simp only [spanNumber, hx, if_true] at h
    simp [isNumberTail, span_next isHexDigit rest h]
  | case2 d rest hx =>
    simp only [spanNumber, hx] at h
    have hnext := span_next isHexDigit (d :: rest) h
    cases hw : (span isHexDigit (d :: rest)).1 with
    | nil =>
      -- nothing was taken, so the next character is the first one, which is no `x`
      have hall := span_append isHexDigit (d :: rest)
      rw [hw, List.nil_append] at hall
      rw [if_neg Bool.false_ne_true, hall] at h
      obtain rfl := Option.some.inj h
      simpa [isNumberTail, hnext] using hx
    | cons e more => simp [isNumberTail, hnext]
  | case3 => cases h

/-- A string is closed by its first quote that is not escaped, or it runs to the end. -/
theorem spanString_cases (s : List Char) :
    s = (spanString s).1 ++ '"' :: (spanString s).2 ∧
        isStringTail ((spanString s).1 ++ ['"']) = true ∨
      spanString s = (s, []) ∧ isOpenTail s = true := by
  fun_induction spanString s with
  | case1 => exact .inr ⟨rfl, rfl⟩
  | case2 rest => exact .inl ⟨rfl, rfl⟩
  | case3 c rest ih =>
    rcases ih with ⟨hs, ht⟩ | ⟨hs, ht⟩
    · exact .inl ⟨by simp [← hs], ht⟩
    · exact .inr ⟨by simp [hs], ht⟩
  | case4 c rest hquote hescape ih =>
    rcases ih with ⟨hs, ht⟩ | ⟨hs, ht⟩
    · refine .inl ⟨by simp [← hs], ?_⟩
      have hlone : ∀ e more, c = '\\' → (spanString rest).1 ++ ['"'] = e :: more → False := by
        intro e more hc _
        cases rest with
        | nil => simp at hs
        | cons e more => exact hescape e more hc rfl
      rw [List.cons_append, isStringTail.eq_4 _ _ hquote hlone]
      exact ht
    · refine .inr ⟨by simp [hs], ?_⟩
      rw [isOpenTail.eq_4 _ _ hquote hescape]
      exact ht

/-- Outside of `$`, only the token's own kind has to be looked at. -/
theorem longest_of_start {t : Token} {c : Char} {w rest : List Char} (hw : t.lexeme = c :: w)
    (hc : c ≠ '$') (haccepts : t.kind.accepts (c :: w) = true)
    (hnext : ∀ d ∈ rest.head?, t.kind.accepts (c :: w ++ [d]) = false) : t.Longest rest where
  accepted := by rw [hw, haccepts]
  maximal := by
    intro d hd kind
    rw [hw]
    exact not_accepts_append haccepts hc (hnext d hd) kind

/-- A word: the longest run of the characters that may follow its first one. -/
theorem longest_span {kind : Kind} {c : Char} {p : Char → Bool} (rest : List Char)
    (hkind : kind ≠ .string) (hc : c ≠ '$')
    (haccepts : ∀ w : List Char, kind.accepts (c :: w) = w.all p) :
    Longest ⟨String.ofList (c :: (span p rest).1), kind, false⟩ (span p rest).2 := by
  apply longest_of_start (lexeme_ofList hkind) hc
  · rw [haccepts]
    exact all_span p rest
  · intro d hd
    rw [List.cons_append, haccepts, List.all_append]
    simp [span_next p rest hd]

theorem longest_single {kind : Kind} {c : Char} (rest : List Char) (hkind : kind ≠ .string)
    (hc : c ≠ '$') (haccepts : ∀ w : List Char, kind.accepts (c :: w) = w.isEmpty) :
    Longest ⟨String.ofList [c], kind, false⟩ rest := by
  apply longest_of_start (lexeme_ofList hkind) hc
  · exact haccepts []
  · intro d _
    exact haccepts [d]

theorem longest_dollar {rest : List Char} (h : ∀ d ∈ rest.head?, d.isDigit = false) :
    Longest ⟨"$", .operator, false⟩ rest where
  accepted := by decide
  maximal := by
    intro d hd kind
    rw [Bool.eq_false_iff]
    intro haccepts
    rw [lexeme_dollar] at haccepts
    rcases kind_of_accepts haccepts with rfl | ⟨-, rfl⟩
    · cases haccepts
    · simp [Kind.accepts, isImmediateTail, h d hd] at haccepts

theorem longest_immediate {d : Char} (rest : List Char) (hd : d.isDigit = true) :
    Longest ⟨String.ofList (d :: (spanNumber rest).1), .number, true⟩ (spanNumber rest).2 where
  accepted := by
    rw [lexeme_immediate]
    simp [Kind.accepts, isImmediateTail, hd, isNumberTail_spanNumber]
  maximal := by
    intro e he kind
    rw [Bool.eq_false_iff]
    intro haccepts
    rw [lexeme_immediate] at haccepts
    rcases kind_of_accepts haccepts with rfl | ⟨-, rfl⟩
    · simp [Kind.accepts, show startKind '$' = .operator by decide] at haccepts
    · simp [Kind.accepts, isImmediateTail, spanNumber_next he] at haccepts

theorem longest_number {c : Char} (rest : List Char) (hc : Text.isDigitValued c = true) :
    Longest ⟨String.ofList (c :: (spanNumber rest).1), .number, false⟩ (spanNumber rest).2 := by
  have hdollar : c ≠ '$' := by
    rintro rfl
    revert hc
    decide
  apply longest_of_start (lexeme_ofList (by decide)) hdollar
  · simp [Kind.accepts, hdollar, hc, isNumberTail_spanNumber]
  · intro d hd
    simp [Kind.accepts, hdollar, spanNumber_next hd]

theorem longest_string {content : List Char} (rest : List Char)
    (h : isStringTail (content ++ ['"']) = true) :
    Longest ⟨String.ofList content, .string, false⟩ rest := by
  apply longest_of_start (lexeme_string content false) (by decide)
  · simp [Kind.accepts, h]
  · intro d _
    simp only [List.cons_append, Kind.accepts, isStringTail_append h d [], Bool.and_false]

/-- What is read off a text: a token that cannot be longer, or a string that is not closed. -/
theorem scan_cases {c : Char} (rest : List Char) (hblank : ¬ (c = ' ' ∨ c = '\t')) :
    (scan c rest).1.lexeme ++ (scan c rest).2 = c :: rest ∧
        (scan c rest).1.Longest (scan c rest).2 ∨
      c = '"' ∧ isOpenTail rest = true ∧
        scan c rest = (⟨String.ofList rest, .string, false⟩, []) := by
  fun_cases scan c rest with
  | case1 rest hop =>
    left
    rw [lexeme_ofList (by decide)]
    refine ⟨rfl, longest_single rest (by decide) ?_ ?_⟩
    · rintro rfl
      revert hop
      decide
    · intro w
      simp [Kind.accepts, isOperator, hop]
  | case2 rest hop hname =>
    left
    rw [lexeme_ofList (by decide), List.cons_append, span_append]
    refine ⟨rfl, longest_span rest (by decide) ?_ ?_⟩
    · rintro rfl
      revert hname
      decide
    · intro w
      simp [Kind.accepts, hname]
  | case3 rest _ _ hpercent =>
    subst hpercent
    left
    rw [lexeme_ofList (by decide), List.cons_append, span_append]
    exact ⟨rfl, longest_span rest (by decide) (by decide) fun w => by simp [Kind.accepts]⟩
  | case4 rest _ _ _ hdigit =>
    left
    rw [lexeme_ofList (by decide), List.cons_append, spanNumber_append]
    exact ⟨rfl, longest_number rest hdigit⟩
  | case5 _ _ _ _ hdollar d rest hd =>
    subst hdollar
    left
    rw [lexeme_immediate, List.cons_append, List.cons_append, spanNumber_append]
    exact ⟨rfl, longest_immediate rest hd⟩
  | case6 _ _ _ _ hdollar d rest hd =>
    subst hdollar
    left
    rw [lexeme_dollar]
    exact ⟨rfl, longest_dollar (by simpa using hd)⟩
  | case7 _ _ _ _ hdollar =>
    subst hdollar
    left
    rw [lexeme_dollar]
    exact ⟨rfl, longest_dollar (by simp)⟩
  | case8 rest _ _ _ _ _ hquote =>
    subst hquote
    rcases spanString_cases rest with ⟨hs, ht⟩ | ⟨hs, ht⟩
    · left
      rw [lexeme_string, List.cons_append, List.append_assoc, List.singleton_append, ← hs]
      exact ⟨rfl, longest_string _ ht⟩
    · right
      rw [hs]
      exact ⟨rfl, ht, rfl⟩
  | case9 rest _ _ _ _ _ _ hat =>
    subst hat
    left
    rw [lexeme_ofList (by decide), List.cons_append, span_append]
    exact ⟨rfl, longest_span rest (by decide) (by decide) fun w => by simp [Kind.accepts]⟩
  | case10 rest hop hname hpercent hdigit hdollar hquote hat =>
    left
    rw [lexeme_ofList (by decide)]
    refine ⟨rfl, longest_single rest (by decide) hdollar ?_⟩
    intro w
    have hstray : isStray c = true := by simp_all [isStray, isOperator]
    simp [Kind.accepts, hstray]

namespace Piece

def lexeme : Piece → List Char
  | .blank c => [c]
  | .separator => [',']
  | .token t => t.lexeme

def isString : Piece → Bool
  | .token t => t.kind = .string
  | _ => false

def token? : Piece → Option Token
  | .token t => some t
  | _ => none

/-- The nesting depth after a piece: only a bracket that is an operator counts, and a closing one
too many is ignored. -/
def nest (depth : Nat) : Piece → Nat
  | .token ⟨text, .operator, _⟩ =>
    if text = "(" || text = "[" then depth + 1
    else if text = ")" || text = "]" then depth - 1
    else depth
  | _ => depth

end Piece

def lexemes (ps : List Piece) : List Char := ps.flatMap Piece.lexeme

def nesting (depth : Nat) (ps : List Piece) : Nat := ps.foldl Piece.nest depth

/-- How pieces that start at a nesting depth stand in a text that goes on with `tail`. -/
structure Reading (depth : Nat) (ps : List Piece) (tail : List Char) : Prop where
  blanks : ∀ c, Piece.blank c ∈ ps → c = ' ' ∨ c = '\t'
  longest : ∀ before t after, ps = before ++ .token t :: after → t.Longest (lexemes after ++ tail)
  commas : ∀ before p after, ps = before ++ p :: after → ',' ∈ p.lexeme → p.isString = false →
    (p = .separator ↔ nesting depth before = 0)

/-- What a text may end with after its other pieces: a string that is not closed. -/
inductive Unclosed : List Piece → List Char → Prop where
  | none : Unclosed [] []
  | string {content : List Char} (h : isOpenTail content = true) :
      Unclosed [.token ⟨String.ofList content, .string, false⟩] ('"' :: content)

theorem reading_nil (depth : Nat) (tail : List Char) : Reading depth [] tail where
  blanks := by
    intro c hc
    cases hc
  longest := by
    intro before t after h
    simp at h
  commas := by
    intro before p after h
    simp at h

/-- One piece more in front. -/
theorem Reading.cons {depth : Nat} {p : Piece} {ps : List Piece} {tail : List Char}
    (h : Reading (p.nest depth) ps tail) (hblank : ∀ c, p = .blank c → c = ' ' ∨ c = '\t')
    (hlongest : ∀ t, p = .token t → t.Longest (lexemes ps ++ tail))
    (hcomma : ',' ∈ p.lexeme → p.isString = false → (p = .separator ↔ depth = 0)) :
    Reading depth (p :: ps) tail where
  blanks := by
    intro c hc
    rcases List.mem_cons.mp hc with hc | hc
    · exact hblank c hc.symm
    · exact h.blanks c hc
  longest := by
    intro before t after hsplit
    cases before with
    | nil =>
      obtain ⟨hp, rfl⟩ := List.cons.inj hsplit
      exact hlongest t hp
    | cons q before =>
      obtain ⟨-, hps⟩ := List.cons.inj hsplit
      exact h.longest before t after hps
  commas := by
    intro before q after hsplit
    cases before with
    | nil =>
      obtain ⟨rfl, -⟩ := List.cons.inj hsplit
      exact hcomma
    | cons r before =>
      obtain ⟨rfl, hps⟩ := List.cons.inj hsplit
      exact h.commas before q after hps

/-- The pieces of a text: they are its characters in order, up to a string that is not closed. -/
def Spells (depth : Nat) (all : List Piece) (text : List Char) : Prop :=
  ∃ ps last tail, all = ps ++ last ∧ text = lexemes ps ++ tail ∧ Unclosed last tail ∧
    Reading depth ps tail

theorem Spells.cons {depth : Nat} {p : Piece} {all : List Piece} {text : List Char}
    (h : Spells (p.nest depth) all text) (hblank : ∀ c, p = .blank c → c = ' ' ∨ c = '\t')
    (hlongest : ∀ t, p = .token t → t.Longest text)
    (hcomma : ',' ∈ p.lexeme → p.isString = false → (p = .separator ↔ depth = 0)) :
    Spells depth (p :: all) (p.lexeme ++ text) := by
  obtain ⟨ps, last, tail, rfl, rfl, hlast, hr⟩ := h
  refine ⟨p :: ps, last, tail, rfl, ?_, hlast, hr.cons hblank hlongest hcomma⟩
  simp [lexemes]

theorem spells_unclosed {content : List Char} (depth : Nat) (h : isOpenTail content = true) :
    Spells depth [.token ⟨String.ofList content, .string, false⟩] ('"' :: content) :=
  ⟨[], _, _, rfl, rfl, .string h, reading_nil depth _⟩

theorem depthAfter_of_not_isOperatorChar {c : Char} (h : ¬ isOperatorChar c = true) (depth : Nat) :
    depthAfter depth c = depth := by
  have hbracket : "()[]".toList.all isOperatorChar = true := by decide
  have hc : c ∉ "()[]".toList := fun hmem => h (List.all_eq_true.mp hbracket c hmem)
  simp only [String.reduceToList, List.mem_cons, List.not_mem_nil, or_false, not_or] at hc
  simp [depthAfter, hc]

theorem nest_operator (depth : Nat) (c : Char) (immediate : Bool) :
    (Piece.token ⟨String.ofList [c], .operator, immediate⟩).nest depth = depthAfter depth c := by
  simp [Piece.nest, depthAfter, ← String.toList_inj]

theorem nest_scan (depth : Nat) (c : Char) (rest : List Char) :
    (Piece.token (scan c rest).1).nest depth = depthAfter depth c := by
  by_cases hop : (isOperatorChar c || c = ',') = true
  · rw [scan.eq_def, if_pos hop]
    exact nest_operator depth c false
  · rw [Bool.or_eq_true, not_or] at hop
    rw [depthAfter_of_not_isOperatorChar hop.1]
    fun_cases scan c rest with
    | case1 _ h => exact absurd (Bool.or_eq_true _ _ ▸ h) (not_or.mpr hop)
    | _ => rfl

/-- The scanner's pieces spell the text. -/
theorem spells_pieces (depth : Nat) (text : List Char) : Spells depth (pieces depth text) text := by
  fun_induction pieces depth text with
  | case1 depth => exact ⟨[], [], [], rfl, rfl, .none, reading_nil depth []⟩
  | case2 depth c rest hblank ih =>
    rw [Bool.or_eq_true, decide_eq_true_eq, decide_eq_true_eq] at hblank
    apply Spells.cons (p := .blank c) ih
    · rintro _ ⟨⟩
      exact hblank
    · rintro t ⟨⟩
    · intro hmem
      obtain rfl := List.mem_singleton.mp hmem
      exact absurd hblank (by decide)
  | case3 depth c rest hblank hcomma ih =>
    obtain ⟨rfl, rfl⟩ : c = ',' ∧ depth = 0 := by simpa using hcomma
    apply Spells.cons (p := .separator) ih
    · rintro c ⟨⟩
    · rintro t ⟨⟩
    · intro _ _
      exact iff_of_true rfl rfl
  | case4 depth c rest hblank hcomma ih =>
    have hspace : ¬ (c = ' ' ∨ c = '\t') := by simpa using hblank
    rcases scan_cases rest hspace with ⟨hlexeme, hlongest⟩ | ⟨rfl, hopen, hscan⟩
    · rw [← hlexeme]
      apply Spells.cons (p := .token (scan c rest).1)
      · rw [nest_scan]
        exact ih
      · rintro _ ⟨⟩
      · rintro _ ⟨⟩
        exact hlongest
      · intro hmem hstring
        have heq := eq_comma_of_mem hlongest.accepted (of_decide_eq_false hstring) hmem
        rw [heq] at hlexeme
        obtain ⟨rfl, -⟩ := List.cons.inj hlexeme
        refine iff_of_false (by simp) ?_
        simpa using hcomma
    · rw [hscan, pieces]
      exact spells_unclosed depth hopen

/-- The groups are what stands between the separators. -/
theorem group_eq_splitOnP (ps : List Piece) :
    group ps = (ps.splitOnP (· = .separator)).map (List.filterMap Piece.token?) := by
  induction ps with
  | nil => rfl
  | cons p ps ih =>
    obtain ⟨first, others, hsplit⟩ :=
      List.exists_cons_of_ne_nil (List.splitOnP_ne_nil (· = Piece.separator) ps)
    rw [hsplit, List.map_cons] at ih
    rw [List.splitOnP_cons_eq_if_modifyHead, hsplit]
    cases p with
    | blank c => simp [group, ih, List.filterMap_cons, Piece.token?]
    | separator => simp [group, ih]
    | token t => simp [group, ih, Piece.token?]

theorem exists_scan_of_mem_pieces {depth : Nat} {text : List Char} {t : Token}
    (h : Piece.token t ∈ pieces depth text) : ∃ c rest, t = (scan c rest).1 := by
  fun_induction pieces depth text with
  | case1 => cases h
  | case2 depth c rest _ ih =>
    rcases List.mem_cons.mp h with h | h
    · cases h
    · exact ih h
  | case3 depth c rest _ _ ih =>
    rcases List.mem_cons.mp h with h | h
    · cases h
    · exact ih h
  | case4 depth c rest _ _ ih =>
    rcases List.mem_cons.mp h with h | h
    · cases h
      exact ⟨c, rest, rfl⟩
    · exact ih h

theorem flatten_group (ps : List Piece) : (group ps).flatten = ps.filterMap Piece.token? := by
  induction ps with
  | nil => rfl
  | cons p ps ih =>
    cases p with
    | blank c => exact ih
    | separator => exact ih
    | token t =>
      have hcons : (Piece.token t :: ps).filterMap Piece.token? = t :: ps.filterMap Piece.token? := rfl
      rw [hcons, ← ih, group]
      cases group ps <;> rfl

theorem mem_of_mem_group {ps : List Piece} {operand : Operand} {t : Token}
    (ho : operand ∈ group ps) (ht : t ∈ operand) : Piece.token t ∈ ps := by
  have hmem := List.mem_flatten_of_mem ho ht
  rw [flatten_group, List.mem_filterMap] at hmem
  obtain ⟨p, hp, htoken⟩ := hmem
  cases p with
  | token u =>
    obtain rfl := Option.some.inj htoken
    exact hp
  | _ => cases htoken

end Token

open Token in
/-- The tokens of the operands were scanned. -/
theorem Operand.exists_scan_of_mem_ofText {text : List Char} {operand : Operand} {t : Token}
    (ho : operand ∈ ofText text) (ht : t ∈ operand) : ∃ c rest, t = (scan c rest).1 := by
  have hgroup : operand ∈ group (pieces 0 text) := by
    simp only [ofText] at ho
    split at ho
    · exact List.dropLast_subset _ ho
    · exact ho
  exact exists_scan_of_mem_pieces (mem_of_mem_group hgroup ht)

open Token in
/-- Every text is spelled by pieces, and its operands are the tokens between the separators; a last
operand without a token is none. -/
theorem Operand.ofText_spells (text : List Char) :
    ∃ ps, Spells 0 ps text ∧
      ∃ operands last,
        (ps.splitOnP (· = .separator)).map (List.filterMap Piece.token?) = operands ++ [last] ∧
          ofText text = if last = [] then operands else operands ++ [last] := by
  refine ⟨pieces 0 text, spells_pieces 0 text, ?_⟩
  rw [← group_eq_splitOnP]
  have hne : group (pieces 0 text) ≠ [] := by
    rw [group_eq_splitOnP, ne_eq, List.map_eq_nil_iff]
    exact List.splitOnP_ne_nil _ _
  have hgroups := (List.dropLast_concat_getLast hne).symm
  refine ⟨_, _, hgroups, ?_⟩
  simp only [ofText, List.getLast?_eq_some_getLast hne, Option.some.injEq]
  rw [← hgroups]

end AsmCompare
