import Mathlib.Algebra.Group.Nat.Defs
import AsmCompare.Proofs.Statement.Labels
import AsmCompare.Proofs.Text.Positional

/-! # The sizes of common symbols

A number is written in decimal, in hexadecimal after `0x` or in octal after a zero. In each of them
it is one token, and reading the token gives the number, so a common symbol gets the size and the
alignment that were written, whatever blanks stand behind the commas.
-/
namespace AsmCompare

namespace Token

/-- Operands of one token each, with blanks behind the commas. -/
def tokenList (t : Token) : List (List Char × Token) → List Piece
  | [] => [.token t]
  | (blanks, u) :: others => .token t :: .separator :: (blanks.map .blank ++ tokenList u others)

theorem lexemes_tokenList_cons (t u : Token) (blanks : List Char)
    (others : List (List Char × Token)) :
    lexemes (tokenList t ((blanks, u) :: others)) =
      t.lexeme ++ ',' :: (blanks ++ lexemes (tokenList u others)) := by
  simp [tokenList, lexemes, Piece.lexeme, List.flatMap_map]

theorem group_map_blank_append (blanks : List Char) (ps : List Piece) :
    group (blanks.map .blank ++ ps) = group ps := by
  induction blanks with
  | nil => rfl
  | cons c blanks ih => exact ih

theorem group_tokenList (t : Token) (others : List (List Char × Token)) :
    group (tokenList t others) = [t] :: others.map fun p => [p.2] := by
  induction others generalizing t with
  | nil => rfl
  | cons p others ih =>
    rw [tokenList, group, group, group_map_blank_append, ih, List.map_cons]

theorem Reading.map_blank_append {depth : Nat} {ps : List Piece} {tail blanks : List Char}
    (h : Reading depth ps tail) (hblanks : ∀ c ∈ blanks, c = ' ' ∨ c = '\t') :
    Reading depth (blanks.map .blank ++ ps) tail := by
  induction blanks with
  | nil => exact h
  | cons c blanks ih =>
    have hc := hblanks c List.mem_cons_self
    have hrest := ih fun d hd => hblanks d (List.mem_cons_of_mem c hd)
    apply Reading.cons (p := .blank c) hrest
    · rintro _ ⟨⟩
      exact hc
    · rintro t ⟨⟩
    · intro hcomma
      obtain rfl := List.mem_singleton.mp hcomma
      exact absurd hc (by decide)

/-- A token that can stand alone between commas. -/
structure Plain (t : Token) : Prop where
  accepted : t.kind.accepts t.lexeme = true
  proper : t.Proper
  kind_ne : t.kind ≠ .operator

theorem Reading.cons_token {ps : List Piece} {t : Token} (h : Reading 0 ps []) (ht : t.Plain)
    (hgap : ∀ c ∈ (lexemes ps).head?, isNameChar c = false) : Reading 0 (.token t :: ps) [] := by
  have hnest : (Piece.token t).nest 0 = 0 := by
    obtain ⟨text, kind, immediate⟩ := t
    cases kind with
    | operator => exact absurd rfl ht.kind_ne
    | _ => rfl
  apply Reading.cons (p := .token t)
  · rw [hnest]
    exact h
  · rintro c ⟨⟩
  · rintro _ ⟨⟩
    rw [List.append_nil]
    exact longest_of_gap ht.accepted hgap
  · intro hcomma hstring
    -- a comma is an operator where it is no separator
    have hlexeme := eq_comma_of_mem ht.accepted (of_decide_eq_false hstring) hcomma
    have haccepted := ht.accepted
    rw [hlexeme] at haccepted
    have hkind := (kind_of_accepts haccepted).resolve_right fun hr => absurd hr.1 (by decide)
    exact absurd hkind ht.kind_ne

theorem reading_tokenList {t : Token} {others : List (List Char × Token)} (ht : t.Plain)
    (hothers : ∀ p ∈ others, (∀ c ∈ p.1, c = ' ' ∨ c = '\t') ∧ p.2.Plain) :
    Reading 0 (tokenList t others) [] := by
  induction others generalizing t with
  | nil => exact (reading_nil 0 []).cons_token ht (by rintro c ⟨⟩)
  | cons p others ih =>
    obtain ⟨hblanks, hp⟩ := hothers p List.mem_cons_self
    have hrest := ih hp fun q hq => hothers q (List.mem_cons_of_mem p hq)
    have hseparated : Reading 0 (.separator :: (p.1.map .blank ++ tokenList p.2 others)) [] := by
      apply Reading.cons (p := .separator) (hrest.map_blank_append hblanks)
      · rintro c ⟨⟩
      · rintro u ⟨⟩
      · intro _ _
        exact iff_of_true rfl rfl
    refine hseparated.cons_token ht ?_
    rintro c ⟨⟩
    decide

theorem proper_of_mem_tokenList {t u : Token} {others : List (List Char × Token)}
    (ht : t.Plain) (hothers : ∀ p ∈ others, p.2.Plain) (hu : Piece.token u ∈ tokenList t others) :
    u.Proper := by
  induction others generalizing t with
  | nil =>
    cases List.mem_singleton.mp hu
    exact ht.proper
  | cons p others ih =>
    simp only [tokenList, List.mem_cons, List.mem_append, List.mem_map, reduceCtorEq, and_false,
      exists_false, false_or, Piece.token.injEq] at hu
    rcases hu with rfl | hu
    · exact ht.proper
    · exact ih (hothers p List.mem_cons_self) (fun q hq => hothers q (List.mem_cons_of_mem p hq)) hu

end Token

open Token in
/-- Operands of one token each are read as these tokens. -/
theorem Operand.ofText_tokenList {t : Token} {others : List (List Char × Token)} (ht : t.Plain)
    (hothers : ∀ p ∈ others, (∀ c ∈ p.1, c = ' ' ∨ c = '\t') ∧ p.2.Plain) :
    ofText (lexemes (tokenList t others)) = [t] :: others.map fun p => [p.2] := by
  have hpieces : pieces 0 (lexemes (tokenList t others)) = tokenList t others :=
    (reading_tokenList ht hothers).pieces_eq fun u hu =>
      proper_of_mem_tokenList ht (fun p hp => (hothers p hp).2) hu
  have hlast : ([t] :: others.map fun p => [p.2]).getLast? ≠ some [] := by
    intro hnil
    have hmem := List.mem_of_getLast? hnil
    simp at hmem
  rw [ofText, hpieces, group_tokenList]
  exact if_neg hlast

namespace Statement
open Source Text

/-- The ways to write a number: its decimal digits, its hexadecimal ones after `0x` or `0X`, or its
octal ones after a zero. -/
inductive IsLiteral (n : Nat) : List Char → Prop where
  | decimal : IsLiteral n (Nat.toDigits 10 n)
  | hexadecimal {mark : Char} {digits : List Char} (hmark : mark = 'x' ∨ mark = 'X')
      (hdigits : IsDigits 16 n digits) : IsLiteral n ('0' :: mark :: digits)
  | octal {digits : List Char} (hdigits : IsDigits 8 n digits) : IsLiteral n ('0' :: digits)

theorem readNumber_decimal {text : List Char} (h : ∀ c rest, text ≠ '0' :: c :: rest) :
    readNumber text = (readInteger 10 text).getD 0 := by
  unfold readNumber
  split
  · exact absurd rfl (h _ _)
  · exact absurd rfl (h _ _)
  · exact absurd rfl (h _ _)
  · rfl

theorem readNumber_octal {c : Char} (hx : c ≠ 'x') (hX : c ≠ 'X') (rest : List Char) :
    readNumber ('0' :: c :: rest) = (readInteger 8 (c :: rest)).getD 0 := by
  unfold readNumber
  split
  · next heq => exact absurd (List.cons.inj (List.cons.inj heq).2).1 hx
  · next heq => exact absurd (List.cons.inj (List.cons.inj heq).2).1 hX
  · next heq =>
    cases heq
    rfl
  · next hother => exact absurd rfl (hother c rest)

/-- A number is read as it was written, within the length that decimal numbers may have. -/
theorem IsLiteral.readNumber_eq {n : Nat} {text : List Char} (h : IsLiteral n text)
    (hn : n < 10 ^ maxDecimalDigits) : readNumber text = n := by
  cases h with
  | decimal =>
    have hlength : (Nat.toDigits 10 n).length ≤ maxDecimalDigits :=
      (Nat.length_toDigits_le_iff (by decide) (by decide)).mpr hn
    have hstart : ∀ c rest, Nat.toDigits 10 n ≠ '0' :: c :: rest := by
      intro c rest hzero
      rcases Nat.eq_zero_or_pos n with rfl | hpos
      · rw [Nat.toDigits_zero] at hzero
        cases hzero
      · exact head?_toDigits_ne (by decide) hpos (congrArg List.head? hzero)
    rw [readNumber_decimal hstart, (isDigits_toDigits (by decide) (by decide) n).readInteger_eq
      (by decide) (by decide) (by decide) fun _ => hlength]
    rfl
  | @hexadecimal mark digits hmark hdigits =>
    have hread : readNumber ('0' :: mark :: digits) = (readInteger 16 digits).getD 0 := by
      rcases hmark with rfl | rfl <;> rfl
    rw [hread, hdigits.readInteger_eq (by decide) (by decide) (by decide)
      fun hten => absurd hten (by decide)]
    rfl
  | @octal digits hdigits =>
    obtain ⟨c, rest, rfl⟩ := List.exists_cons_of_ne_nil hdigits.ne_nil
    have hplain : digitChars.all (fun c => c ≠ 'x' && c ≠ 'X') = true := by decide
    have hc := of_mem_digitChars hplain
      (hdigits.mem_digitChars (by decide) (by decide) List.mem_cons_self)
    simp only [Bool.and_eq_true, decide_eq_true_eq] at hc
    rw [readNumber_octal hc.1 hc.2, hdigits.readInteger_eq (by decide) (by decide) (by decide)
      fun hten => absurd hten (by decide)]
    rfl

theorem all_isHexDigit {base n : Nat} {digits : List Char} (hbase : 1 < base) (hle : base ≤ 16)
    (h : IsDigits base n digits) : digits.all Token.isHexDigit = true := by
  have hall : digitChars.all Token.isHexDigit = true := by decide
  rw [List.all_eq_true]
  intro c hc
  exact of_mem_digitChars hall (h.mem_digitChars hbase hle hc)

/-- A written number is a digit and what may follow the first digit of a number. -/
theorem IsLiteral.exists_eq_cons {n : Nat} {text : List Char} (h : IsLiteral n text) :
    ∃ c rest, text = c :: rest ∧ c.isDigit = true ∧ Token.isNumberTail rest = true := by
  cases h with
  | decimal =>
    have hall := all_isHexDigit (by decide) (by decide)
      (isDigits_toDigits (by decide : 1 < 10) (by decide) n)
    obtain ⟨c, rest, hdigits⟩ := List.exists_cons_of_ne_nil (@Nat.toDigits_ne_nil n 10)
    have hc : c.isDigit = true :=
      Nat.isDigit_of_mem_toDigits (by decide) (by decide) (hdigits ▸ List.mem_cons_self)
    rw [hdigits, List.all_cons, Bool.and_eq_true] at hall
    exact ⟨c, rest, hdigits, hc, Token.isNumberTail_of_all hall.2⟩
  | @hexadecimal mark digits hmark hdigits =>
    have hx : (mark = 'x' || mark = 'X') = true := by simpa using hmark
    have htail : Token.isNumberTail (mark :: digits) = true := by
      rw [Token.isNumberTail, hx, all_isHexDigit (by decide) (by decide) hdigits]
      rfl
    exact ⟨'0', _, rfl, by decide, htail⟩
  | @octal digits hdigits =>
    have hall := all_isHexDigit (by decide) (by decide) hdigits
    exact ⟨'0', digits, rfl, by decide, Token.isNumberTail_of_all hall⟩

theorem IsLiteral.plain {n : Nat} {text : String} (h : IsLiteral n text.toList) :
    Token.Plain ⟨text, .number, false⟩ := by
  obtain ⟨c, rest, htext, hc, htail⟩ := h.exists_eq_cons
  have hlexeme : Token.lexeme ⟨text, .number, false⟩ = c :: rest := htext
  have hdollar : c ≠ '$' := by
    rintro rfl
    cases hc
  refine ⟨?_, ?_, Token.Kind.noConfusion⟩
  · rw [hlexeme]
    simp [Token.Kind.accepts, hdollar, isDigitValued_of_isDigit hc, htail]
  · refine iff_of_false Bool.false_ne_true ?_
    rintro ⟨-, hhead⟩
    rw [hlexeme] at hhead
    exact hdollar (Option.some.inj hhead)

theorem plain_of_accepts {name : String} (h : Token.Kind.identifier.accepts name.toList = true) :
    Token.Plain ⟨name, .identifier, false⟩ :=
  ⟨h, Token.proper_of_kind_ne (by decide), Token.Kind.noConfusion⟩

end Statement

namespace Source
open Text

/-- A word of label characters in front of a space is the first word of a statement. -/
theorem splitMnemonic_word {word rest : List Char} (hne : word ≠ [])
    (hword : ∀ c ∈ word, isLabelChar c = true) (hrest : rest ≠ []) (htrim : trim rest = rest) :
    splitMnemonic (word ++ ' ' :: rest) = (word, rest) := by
  have hsolid : ∀ c ∈ word, isBlank c = false := fun c hc => isBlank_of_isLabelChar (hword c hc)
  have htrimWord : trim word = word :=
    trim_eq_self (fun c hc => hsolid c (List.mem_of_head? hc))
      fun c hc => hsolid c (List.mem_of_getLast? hc)
  have htrimAll : trim (word ++ ' ' :: rest) = word ++ ' ' :: rest := by
    apply trim_eq_self
    · intro c hc
      rw [List.head?_append_of_ne_nil _ hne] at hc
      exact hsolid c (List.mem_of_head? hc)
    · intro c hc
      rw [List.append_cons, List.getLast?_append_of_ne_nil _ hrest, ← htrim] at hc
      exact isBlank_of_getLast?_trim hc
  have hmarks : mark (word ++ ' ' :: rest) =
      word.map (⟨·, false⟩) ++ ⟨' ', false⟩ :: mark rest := by
    rw [mark_append_of_forall fun c hc => isQuote_of_mem_label hword (List.mem_append_left _ hc)]
    rfl
  have hbefore : ∀ m ∈ word.map (Marked.mk · false),
      ((m.char = ' ' || m.char = '\t') && !m.quoted) = false := by
    intro m hm
    obtain ⟨c, hc, rfl⟩ := List.mem_map.mp hm
    have hspace := ne_of_isLabelChar (hword c hc) (d := ' ') (by decide)
    have htab := ne_of_isLabelChar (hword c hc) (d := '\t') (by decide)
    simp [hspace, htab]
  have hitems := splitTrim_of_trimmed (fun c => c = ' ' || c = '\t') (some 1) (by simp) htrimAll
  rw [hmarks, splitMarked_one hbefore rfl, List.map_map, map_char_mark] at hitems
  have hchars : word.map (Marked.char ∘ (Marked.mk · false)) = word := List.map_id' word
  rw [splitMnemonic, hitems, hchars, List.map_cons, List.map_singleton, htrimWord, htrim]

end Source

namespace Statement
open Source Text

theorem IsLiteral.isLabelChar {n : Nat} {text : List Char} (h : IsLiteral n text) :
    ∀ c ∈ text, isLabelChar c = true := by
  obtain ⟨c, rest, rfl, hc, htail⟩ := h.exists_eq_cons
  intro d hd
  rcases List.mem_cons.mp hd with rfl | hd
  · have hword : d.isAlphanum = true := (Bool.or_eq_true _ _).mpr (.inr hc)
    rw [Source.isLabelChar, hword, Bool.true_or, Bool.true_or]
  · exact Token.isNameChar_of_isNumberTail htail hd

theorem ofOperands?_of_isCommon {kind : Kind} (h : kind.isCommon = true)
    (mnemonic symbol size alignment : String) :
    Detail.ofOperands? kind mnemonic
        [[⟨symbol, .identifier, false⟩], [⟨size, .number, false⟩], [⟨alignment, .number, false⟩]] =
      some (.common symbol (readNumber size.toList) (readNumber alignment.toList)) := by
  cases kind with
  | common => rfl
  | localCommon => rfl
  | _ => cases h

theorem ofText?_of_splitMnemonic {text mnemonic : String} {word rest : List Char} {kind : Kind}
    (hsplit : splitMnemonic text.toList = (word, rest)) (hne : word ≠ [])
    (hclass : classify word = (kind, mnemonic)) (place : Option Location) :
    ofText? text place =
      some ⟨text, mnemonic, kind, Operand.ofText rest,
        Detail.ofOperands? kind mnemonic (Operand.ofText rest), place⟩ := by
  simp [ofText?, hsplit, hne, hclass]

/-- The operands of a common symbol, with blanks behind the commas. -/
def commonOperands (symbol blanks size more alignment : String) : List Char :=
  symbol.toList ++ ',' :: (blanks.toList ++ size.toList ++
    ',' :: (more.toList ++ alignment.toList))

section Operands
variable {symbol blanks size more alignment : String} {n m : Nat}
  (hsymbol : Token.Kind.identifier.accepts symbol.toList = true)
  (halignment : IsLiteral m alignment.toList)
include hsymbol halignment

theorem ofText_commonOperands (hsize : IsLiteral n size.toList)
    (hblanks : ∀ c ∈ blanks.toList, c = ' ' ∨ c = '\t')
    (hmore : ∀ c ∈ more.toList, c = ' ' ∨ c = '\t') :
    Operand.ofText (commonOperands symbol blanks size more alignment) =
      [[⟨symbol, .identifier, false⟩], [⟨size, .number, false⟩],
        [⟨alignment, .number, false⟩]] := by
  have hothers : ∀ p ∈ [(blanks.toList, Token.mk size .number false),
      (more.toList, Token.mk alignment .number false)],
      (∀ c ∈ p.1, c = ' ' ∨ c = '\t') ∧ p.2.Plain := by
    intro p hp
    rcases List.mem_cons.mp hp with rfl | hp
    · exact ⟨hblanks, hsize.plain⟩
    · obtain rfl := List.mem_singleton.mp hp
      exact ⟨hmore, halignment.plain⟩
  have hread := Operand.ofText_tokenList (plain_of_accepts hsymbol) hothers
  have hlast : Token.lexemes (Token.tokenList ⟨alignment, .number, false⟩ []) = alignment.toList :=
    List.append_nil _
  rw [Token.lexemes_tokenList_cons, Token.lexemes_tokenList_cons, hlast] at hread
  rw [commonOperands, List.append_assoc]
  exact hread

theorem trim_commonOperands : trim (commonOperands symbol blanks size more alignment) =
    commonOperands symbol blanks size more alignment := by
  obtain ⟨c, rest, hcons⟩ := List.exists_cons_of_ne_nil (ne_nil_of_accepts hsymbol)
  apply trim_eq_self
  · rw [commonOperands, hcons]
    rintro _ ⟨⟩
    exact isBlank_of_isLabelChar (isLabelChar_of_accepts hsymbol c (hcons ▸ List.mem_cons_self))
  · intro d hd
    have hne : alignment.toList ≠ [] := by
      obtain ⟨e, more, hdigits, -⟩ := halignment.exists_eq_cons
      simp [hdigits]
    have hend : (commonOperands symbol blanks size more alignment).getLast? =
        alignment.toList.getLast? := by
      rw [commonOperands, List.append_cons, ← List.append_assoc, List.append_cons,
        ← List.append_assoc, List.getLast?_append_of_ne_nil _ hne]
    rw [hend] at hd
    exact isBlank_of_isLabelChar (halignment.isLabelChar d (List.mem_of_getLast? hd))

end Operands

/-- A common symbol has the size and the alignment that were written for it. -/
theorem exists_common_of_isLiteral {symbol blanks size more alignment : String} {n m : Nat}
    (hsymbol : Token.Kind.identifier.accepts symbol.toList = true)
    (hblanks : ∀ c ∈ blanks.toList, c = ' ' ∨ c = '\t')
    (hmore : ∀ c ∈ more.toList, c = ' ' ∨ c = '\t') (hsize : IsLiteral n size.toList)
    (halignment : IsLiteral m alignment.toList) (hn : n < 10 ^ 4300) (hm : m < 10 ^ 4300)
    (place : Option Location) :
    ∀ d ∈ [(".comm", Kind.common), (".lcomm", Kind.localCommon)],
      ∃ s, ofText? (d.1 ++ " " ++ symbol ++ "," ++ blanks ++ size ++ "," ++ more ++ alignment)
          place = some s ∧ s.kind = d.2 ∧ s.detail = some (.common symbol n m) := by
  have hdirectives : ∀ d ∈ [(".comm", Kind.common), (".lcomm", Kind.localCommon)],
      d.1.toList ≠ [] ∧ d.1.toList.all isLabelChar = true ∧ classify d.1.toList = (d.2, d.1) ∧
        d.2.isCommon = true := by decide +kernel
  intro d hd
  obtain ⟨hne, hword, hclass, hkind⟩ := hdirectives d hd
  have htext : (d.1 ++ " " ++ symbol ++ "," ++ blanks ++ size ++ "," ++ more ++ alignment).toList =
      d.1.toList ++ ' ' :: commonOperands symbol blanks size more alignment := by
    simp [commonOperands]
  have hsplit := splitMnemonic_word hne (List.all_eq_true.mp hword)
    (by simp [commonOperands] : commonOperands symbol blanks size more alignment ≠ [])
    (trim_commonOperands hsymbol halignment)
  rw [← htext] at hsplit
  rw [← maxDecimalDigits] at hn hm
  refine ⟨_, ofText?_of_splitMnemonic hsplit hne hclass place, rfl, ?_⟩
  rw [ofText_commonOperands hsymbol halignment hsize hblanks hmore, ofOperands?_of_isCommon hkind,
    hsize.readNumber_eq hn, halignment.readNumber_eq hm]

theorem exists_common_buffer :
    IsLiteral 47 "0X2f".toList ∧ IsLiteral 8 "0010".toList ∧
      ∃ s, ofText? (".lcomm" ++ " " ++ "buf" ++ "," ++ "\t" ++ "0X2f" ++ "," ++ "  " ++ "0010")
          none = some s ∧ s.kind = .localCommon ∧ s.detail = some (.common "buf" 47 8) := by
  have hsymbol : Token.Kind.identifier.accepts "buf".toList = true := by decide
  have hsize : IsLiteral 47 "0X2f".toList := .hexadecimal (.inr rfl) ⟨0, by decide⟩
  have halignment : IsLiteral 8 "0010".toList := .octal ⟨1, by decide⟩
  -- the exponent is a variable here, for the power itself is too large to be computed
  have hpow : ∀ k, 2 ≤ k → 10 ^ 2 ≤ 10 ^ k := fun k hk => Nat.pow_le_pow_right (by decide) hk
  have hn : 47 < 10 ^ 4300 := Nat.lt_of_lt_of_le (by decide) (hpow 4300 (by decide))
  have hm : 8 < 10 ^ 4300 := Nat.lt_of_lt_of_le (by decide) (hpow 4300 (by decide))
  exact ⟨hsize, halignment, exists_common_of_isLiteral hsymbol (by simp) (by simp) hsize halignment
    hn hm none (".lcomm", .localCommon) (by decide)⟩

end Statement

end AsmCompare
