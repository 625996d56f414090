import AsmCompare.Token.Scan

/-! # The language of each kind of token

Which texts are tokens of a kind, said without the scanner. The first character of a text tells
its kind, except for `$`: alone it is an operator, and in front of a digit it starts a number.
-/
namespace AsmCompare.Token

/-- What may follow the first digit of a number. -/
def isNumberTail : List Char → Bool
  | [] => true
  | c :: rest => (c = 'x' || c = 'X' || isHexDigit c) && rest.all isHexDigit

def isImmediateTail : List Char → Bool
  | [] => false
  | c :: rest => c.isDigit && isNumberTail rest

/-- What may follow the opening quote of a string: the first quote that no backslash escapes is
the last character. -/
def isStringTail : List Char → Bool
  | [] => false
  | '"' :: rest => rest.isEmpty
  | '\\' :: _ :: rest => isStringTail rest
  | _ :: rest => isStringTail rest

/-- What follows the opening quote of a string that is not closed. -/
def isOpenTail : List Char → Bool
  | [] => true
  | '"' :: _ => false
  | '\\' :: _ :: rest => isOpenTail rest
  | _ :: rest => isOpenTail rest

def isOperator (c : Char) : Bool := isOperatorChar c || c = ',' || c = '$'

/-- A character that no token of another kind starts with. -/
def isStray (c : Char) : Bool :=
  !(c = ' ' || c = '\t' || isOperator c || isNameStart c || c = '%' || Text.isDigitValued c ||
    c = '"' || c = '@')

/-- The texts of the tokens of a kind. -/
def Kind.accepts (kind : Kind) : List Char → Bool
  | [] => false
  | c :: rest =>
    match kind with
    | .operator => isOperator c && rest.isEmpty
    | .identifier => isNameStart c && rest.all isNameChar
    | .register => c = '%' && rest.all Char.isAlphanum
    | .typeFlag => c = '@' && rest.all Char.isAlphanum
    | .number =>
      if c = '$' then isImmediateTail rest else Text.isDigitValued c && isNumberTail rest
    | .string => c = '"' && isStringTail rest
    | .unknown => isStray c && rest.isEmpty

/-- The kind that the first character of a token tells. -/
def startKind (c : Char) : Kind :=
  if isOperator c then .operator
  else if isNameStart c then .identifier
  else if c = '%' then .register
  else if Text.isDigitValued c then .number
  else if c = '"' then .string
  else if c = '@' then .typeFlag
  else .unknown

theorem isOperator_iff {c : Char} : isOperator c = true ↔ c ∈ "()+-*/:[]=,$".toList := by
  simp [isOperator, isOperatorChar, or_assoc]

/-- A class without any of the operators is apart from them. -/
theorem isOperator_eq_false {p : Char → Bool}
    (hnone : ("()+-*/:[]=,$".toList.all fun c => !p c) = true) {c : Char} (h : p c = true) :
    isOperator c = false := by
  rw [Bool.eq_false_iff]
  intro hop
  have hc := List.all_eq_true.mp hnone c (isOperator_iff.mp hop)
  rw [h] at hc
  cases hc

/-- The only digit-valued characters of ASCII are the decimal digits. -/
theorem isDigit_of_isDigitValued {c : Char} (h : Text.isDigitValued c = true)
    (hascii : c.toNat < 128) : c.isDigit = true := by
  simp only [Text.isDigitValued, Text.decimalValue?, Bool.or_eq_true] at h
  rcases h with h | h
  · split at h
    · assumption
    · rw [Option.isSome_map, List.find?_isSome] at h
      obtain ⟨z, hz, hle⟩ := h
      have hbig : ∀ z ∈ Text.decimalZeros, 128 ≤ z := by decide
      have := hbig z hz
      simp only [Bool.and_eq_true, decide_eq_true_eq] at hle
      omega
  · obtain ⟨r, hr, hle, -⟩ := Text.inRanges_iff.mp h
    have hbig : ∀ r ∈ Text.digitValuedRanges, 128 ≤ r.1 := by decide
    have := hbig r hr
    omega

theorem isDigitValued_of_isNameStart {c : Char} (h : isNameStart c = true) :
    Text.isDigitValued c = false := by
  rw [Bool.eq_false_iff]
  intro hd
  simp only [isNameStart, Bool.or_eq_true, decide_eq_true_eq] at h
  rcases h with (hletter | rfl) | rfl
  · have hcode := Text.toNat_of_isAlpha hletter
    have hdigit := isDigit_of_isDigitValued hd (by omega)
    have := Text.toNat_of_isDigit hdigit
    omega
  · revert hd
    decide
  · revert hd
    decide

theorem kind_of_accepts {kind : Kind} {c : Char} {rest : List Char}
    (h : kind.accepts (c :: rest) = true) :
    kind = startKind c ∨ c = '$' ∧ kind = .number := by
  cases kind <;> simp only [Kind.accepts, Bool.and_eq_true, decide_eq_true_eq] at h
  case unknown =>
    have hstray := h.1
    simp only [isStray, Bool.not_eq_true', Bool.or_eq_false_iff, decide_eq_false_iff_not] at hstray
    simp [startKind, hstray]
  case operator => exact .inl (by simp [startKind, h.1])
  case identifier =>
    have hop : isOperator c = false := isOperator_eq_false (by decide) h.1
    exact .inl (by simp [startKind, h.1, hop])
  case register =>
    obtain ⟨rfl, -⟩ := h
    exact .inl (by decide)
  case number =>
    split at h
    · next hc => exact .inr ⟨hc, rfl⟩
    · have hdigit := (Bool.and_eq_true _ _ ▸ h).1
      have hop : isOperator c = false := isOperator_eq_false (by decide) hdigit
      have hname : isNameStart c = false := by
        rw [Bool.eq_false_iff]
        intro hs
        rw [isDigitValued_of_isNameStart hs] at hdigit
        cases hdigit
      have hpercent : c ≠ '%' := by
        rintro rfl
        revert hdigit
        decide
      exact .inl (by simp [startKind, hdigit, hname, hpercent, hop])
  case string =>
    obtain ⟨rfl, -⟩ := h
    exact .inl (by decide)
  case typeFlag =>
    obtain ⟨rfl, -⟩ := h
    exact .inl (by decide)

/-- A longer text is a token of no kind if it is none of the kind that its start has. -/
theorem not_accepts_append {kind : Kind} {c d : Char} {rest : List Char}
    (h : kind.accepts (c :: rest) = true) (hc : c ≠ '$')
    (hd : kind.accepts (c :: rest ++ [d]) = false) (other : Kind) :
    other.accepts (c :: rest ++ [d]) = false := by
  rw [Bool.eq_false_iff]
  intro hother
  have hk : kind = startKind c := (kind_of_accepts h).resolve_right fun hr => hc hr.1
  have ho : other = startKind c := (kind_of_accepts hother).resolve_right fun hr => hc hr.1
  rw [ho, ← hk, hd] at hother
  cases hother

/-- Nothing can follow the quote that closes a string. -/
theorem isStringTail_append {w : List Char} (h : isStringTail w = true) (d : Char)
    (more : List Char) : isStringTail (w ++ d :: more) = false := by
  fun_induction isStringTail w with
  | case1 => cases h
  | case2 rest =>
    obtain rfl := List.isEmpty_iff.mp h
    rfl
  | case3 c rest ih => exact ih h
  | case4 c rest hquote hescape ih =>
    have hlone : ∀ e after, c = '\\' → rest ++ d :: more = e :: after → False := by
      intro e after hc _
      cases rest with
      | nil => cases h
      | cons e after => exact hescape e after hc rfl
    rw [List.cons_append, isStringTail.eq_4 _ _ hquote hlone]
    exact ih h

/-- A string that is closed is not open, whatever follows it. -/
theorem isOpenTail_append {w : List Char} (h : isStringTail w = true) (more : List Char) :
    isOpenTail (w ++ more) = false := by
  fun_induction isStringTail w with
  | case1 => cases h
  | case2 rest => rfl
  | case3 c rest ih => exact ih h
  | case4 c rest hquote hescape ih =>
    have hlone : ∀ e after, c = '\\' → rest ++ more = e :: after → False := by
      intro e after hc _
      cases rest with
      | nil => cases h
      | cons e after => exact hescape e after hc rfl
    rw [List.cons_append, isOpenTail.eq_4 _ _ hquote hlone]
    exact ih h

theorem isNameChar_of_isHexDigit {c : Char} (h : isHexDigit c = true) : isNameChar c = true := by
  have hnum : (c.isAlpha || c.isDigit) = true := by
    simp only [isHexDigit, Bool.or_eq_true, Bool.and_eq_true, decide_eq_true_eq] at h
    rcases h with (hdigit | hlower) | hupper
    · rw [hdigit, Bool.or_true]
    · have hz : c.val ≤ 'z'.val := UInt32.le_trans hlower.2 (by decide)
      have hcase : c.isLower = true :=
        Bool.and_eq_true_iff.mpr ⟨decide_eq_true hlower.1, decide_eq_true hz⟩
      have hletter : c.isAlpha = true := (Bool.or_eq_true _ _).mpr (.inr hcase)
      rw [hletter, Bool.true_or]
    · have hz : c.val ≤ 'Z'.val := UInt32.le_trans hupper.2 (by decide)
      have hcase : c.isUpper = true := decide_eq_true ⟨hupper.1, hz⟩
      have hletter : c.isAlpha = true := (Bool.or_eq_true _ _).mpr (.inl hcase)
      rw [hletter, Bool.true_or]
  have hword : c.isAlphanum = true := hnum
  simp [isNameChar, hword]

theorem isNameChar_of_isNumberTail {w : List Char} (h : isNumberTail w = true) {d : Char}
    (hd : d ∈ w) : isNameChar d = true := by
  cases w with
  | nil => cases hd
  | cons c rest =>
    simp only [isNumberTail, Bool.and_eq_true, Bool.or_eq_true, decide_eq_true_eq] at h
    obtain ⟨hc, hrest⟩ := h
    rcases List.mem_cons.mp hd with rfl | hd
    · rcases hc with (rfl | rfl) | hc
      · decide
      · decide
      · exact isNameChar_of_isHexDigit hc
    · exact isNameChar_of_isHexDigit (List.all_eq_true.mp hrest d hd)

/-- After its first character, a token other than a string has only characters for names. -/
theorem isNameChar_of_mem_tail {kind : Kind} {c d : Char} {rest : List Char}
    (h : kind.accepts (c :: rest) = true) (hkind : kind ≠ .string) (hd : d ∈ rest) :
    isNameChar d = true := by
  have hnum : ∀ e : Char, e.isAlphanum = true → isNameChar e = true := by
    intro e he
    simp [isNameChar, he]
  cases kind <;> simp only [Kind.accepts, Bool.and_eq_true] at h
  case unknown | operator =>
    rw [List.isEmpty_iff.mp h.2] at hd
    cases hd
  case identifier => exact List.all_eq_true.mp h.2 d hd
  case register | typeFlag => exact hnum d (List.all_eq_true.mp h.2 d hd)
  case string => exact absurd rfl hkind
  case number =>
    split at h
    · cases rest with
      | nil => cases hd
      | cons e more =>
        simp only [isImmediateTail, Bool.and_eq_true] at h
        rcases List.mem_cons.mp hd with rfl | hd
        · exact hnum d ((Bool.or_eq_true _ _).mpr (.inr h.1))
        · exact isNameChar_of_isNumberTail h.2 hd
    · exact isNameChar_of_isNumberTail (Bool.and_eq_true _ _ ▸ h).2 hd

/-- A token with a comma in it is a string or the comma itself. -/
theorem eq_comma_of_mem {kind : Kind} {w : List Char} (h : kind.accepts w = true)
    (hkind : kind ≠ .string) (hmem : ',' ∈ w) : w = [','] := by
  cases w with
  | nil => cases hmem
  | cons c rest =>
    have hc : c = ',' := by
      rcases List.mem_cons.mp hmem with hc | hr
      · exact hc.symm
      · exact absurd (isNameChar_of_mem_tail h hkind hr) (by decide)
    subst hc
    -- a comma starts operators only, and these are of one character
    have hop : kind = .operator :=
      (kind_of_accepts h).resolve_right fun hr => absurd hr.1 (by decide)
    subst hop
    simp only [Kind.accepts, Bool.and_eq_true] at h
    rw [List.isEmpty_iff.mp h.2]

theorem isNumberTail_concat {w rest : List Char} {d : Char}
    (h : isNumberTail (w ++ d :: rest) = true) : isNumberTail (w ++ [d]) = true := by
  cases w with
  | nil =>
    simp only [List.nil_append, isNumberTail, Bool.and_eq_true] at h
    simp [isNumberTail, h.1]
  | cons c w =>
    simp only [List.cons_append, isNumberTail, List.all_append, List.all_cons, Bool.and_eq_true] at h
    simp [isNumberTail, h]

/-- Nothing that starts with a token and goes on is a string. -/
theorem kind_ne_string_of_append {kind other : Kind} {w rest : List Char} {d : Char}
    (hw : other.accepts w = true) (h : kind.accepts (w ++ d :: rest) = true) : kind ≠ .string := by
  rintro rfl
  cases w with
  | nil => cases hw
  | cons c w =>
    simp only [List.cons_append, Kind.accepts, Bool.and_eq_true, decide_eq_true_eq] at h
    obtain ⟨rfl, htail⟩ := h
    -- the shorter one would be a string as well, and nothing can follow its quote
    have hstring : other = .string :=
      (kind_of_accepts hw).resolve_right fun hr => absurd hr.1 (by decide)
    subst hstring
    simp only [Kind.accepts, Bool.and_eq_true] at hw
    rw [isStringTail_append hw.2] at htail
    cases htail

/-- Between two tokens of which one starts with the other there are tokens only. -/
theorem accepts_concat {kind other : Kind} {w rest : List Char} {d : Char}
    (hw : other.accepts w = true) (h : kind.accepts (w ++ d :: rest) = true) :
    kind.accepts (w ++ [d]) = true := by
  have hstring := kind_ne_string_of_append hw h
  cases w with
  | nil => cases hw
  | cons c w =>
    rw [List.cons_append] at h ⊢
    cases kind <;>
      simp only [Kind.accepts, List.all_append, List.all_cons, Bool.and_eq_true] at h ⊢
    case unknown | operator => simp at h
    case identifier | register | typeFlag => simp [h]
    case number =>
      split at h
      · next hc =>
        rw [if_pos hc]
        cases w with
        | nil =>
          simp only [List.nil_append, isImmediateTail, Bool.and_eq_true] at h
          simp [isImmediateTail, isNumberTail, h.1]
        | cons e w =>
          simp only [List.cons_append, isImmediateTail, Bool.and_eq_true] at h ⊢
          exact ⟨h.1, isNumberTail_concat h.2⟩
      · next hc =>
        rw [if_neg hc, Bool.and_eq_true]
        rw [Bool.and_eq_true] at h
        exact ⟨h.1, isNumberTail_concat h.2⟩
    case string => exact absurd rfl hstring

/-- A text is a token of one kind at most. -/
theorem kind_unique {kind other : Kind} {w : List Char} (h : kind.accepts w = true)
    (hother : other.accepts w = true) : kind = other := by
  cases w with
  | nil => cases h
  | cons c rest =>
    by_cases hc : c = '$'
    · subst hc
      -- alone it is an operator, with more behind it a number
      have hdollar : ∀ k : Kind, k.accepts ('$' :: rest) = true →
          k = if rest.isEmpty then .operator else .number := by
        intro k hk
        rcases kind_of_accepts hk with rfl | ⟨-, rfl⟩
        · have hrest : rest.isEmpty = true := hk
          rw [hrest]
          decide
        · cases rest with
          | nil => cases hk
          | cons d more => rfl
      rw [hdollar kind h, hdollar other hother]
    · have hk := (kind_of_accepts h).resolve_right fun hr => hc hr.1
      have ho := (kind_of_accepts hother).resolve_right fun hr => hc hr.1
      rw [hk, ho]

end AsmCompare.Token
