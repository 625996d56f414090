import AsmCompare.Proofs.Body.CanonicalNames
import AsmCompare.Proofs.Token.Lexemes

/-! # How identifiers of a source are spelled

The scanner takes letters, digits, dots and underscores for an identifier, and no digit at its
start. So every name that a directive gives is one the symbol table keeps. A canonical name has
another character in it, so it stands in no operand of a file that was read.
-/
namespace AsmCompare

namespace Token

/-- An identifier starts and goes on with characters for names. -/
def Spelled (t : Token) : Prop :=
  t.isIdentifier = true → Kind.identifier.accepts t.text.toList = true

theorem isNameChar_of_isNameStart {c : Char} (h : isNameStart c = true) : isNameChar c = true := by
  simp only [isNameStart, isNameChar, Char.isAlphanum, Bool.or_eq_true] at h ⊢
  rcases h with (h | h) | h
  · exact .inl (.inl (.inl h))
  · exact .inl (.inr h)
  · exact .inr h

theorem isNameChar_of_accepts {name : List Char} (h : Kind.identifier.accepts name = true) {c : Char}
    (hc : c ∈ name) : isNameChar c = true := by
  cases name with
  | nil => cases hc
  | cons d rest =>
    rw [Kind.accepts, Bool.and_eq_true] at h
    rcases List.mem_cons.mp hc with rfl | hc
    · exact isNameChar_of_isNameStart h.1
    · exact List.all_eq_true.mp h.2 c hc

theorem isTracked_of_accepts {name : String} (h : Kind.identifier.accepts name.toList = true) :
    Name.isTracked name = true := by
  unfold Name.isTracked
  cases hname : name.toList with
  | nil =>
    rw [hname] at h
    cases h
  | cons c rest =>
    rw [hname, Kind.accepts, Bool.and_eq_true] at h
    simp [isDigitValued_of_isNameStart h.1]

theorem spelled_of_kind_ne {t : Token} (h : t.kind ≠ .identifier) : t.Spelled := by
  intro hid
  exact absurd (of_decide_eq_true hid) h

theorem spelled_scan (c : Char) (rest : List Char) : (scan c rest).1.Spelled := by
  unfold scan
  split
  · exact spelled_of_kind_ne (by simp)
  · split
    · next hc =>
      intro _
      rw [String.toList_ofList, Kind.accepts, Bool.and_eq_true]
      exact ⟨hc, List.all_takeWhile⟩
    · repeat' split
      all_goals exact spelled_of_kind_ne (by simp)

end Token

theorem Operand.spelled_of_mem_ofText {text : List Char} {operand : Operand} {t : Token}
    (ho : operand ∈ Operand.ofText text) (ht : t ∈ operand) : t.Spelled := by
  obtain ⟨c, rest, rfl⟩ := exists_scan_of_mem_ofText ho ht
  exact Token.spelled_scan c rest

namespace Statement

theorem spelled_of_ofText? {text : String} {location : Option Location} {s : Statement}
    (h : ofText? text location = some s) {operand : Operand} (ho : operand ∈ s.operands)
    {t : Token} (ht : t ∈ operand) : t.Spelled := by
  unfold ofText? at h
  simp only at h
  split at h
  · cases h
  · obtain rfl := Option.some.inj h
    exact Operand.spelled_of_mem_ofText ho ht

theorem spelled_of_mem_ofSource {file source : String} {s : Statement}
    (h : s ∈ ofSource file source) {operand : Operand} (ho : operand ∈ s.operands) {t : Token}
    (ht : t ∈ operand) : t.Spelled := by
  obtain ⟨_, -, hs⟩ := List.mem_filterMap.mp h
  exact spelled_of_ofText? hs ho ht

theorem detail_of_ofText? {text : String} {location : Option Location} {s : Statement}
    (h : ofText? text location = some s) :
    s.detail = Detail.ofOperands? s.kind s.mnemonic s.operands := by
  unfold ofText? at h
  simp only at h
  split at h
  · cases h
  · obtain rfl := Option.some.inj h
    rfl

section
variable {file source name : String} {s : Statement} (hs : s ∈ ofSource file source)
include hs

theorem accepts_of_find? {operand : Operand} (ho : operand ∈ s.operands) {t : Token}
    (ht : operand.firstOf? .identifier = some t) :
    Token.Kind.identifier.accepts t.text.toList = true :=
  spelled_of_mem_ofSource hs ho (List.mem_of_find?_eq_some ht) (List.find?_some ht)

theorem accepts_of_mem_namedSymbols (h : name ∈ s.namedSymbols) :
    Token.Kind.identifier.accepts name.toList = true := by
  obtain ⟨operand, ho, hname⟩ := List.mem_filterMap.mp h
  obtain ⟨t, ht, rfl⟩ := Option.map_eq_some_iff.mp hname
  exact accepts_of_find? hs ho ht

theorem accepts_namedSymbol (h : Detail.namedSymbol s.operands ≠ "") :
    Token.Kind.identifier.accepts (Detail.namedSymbol s.operands).toList = true := by
  unfold Detail.namedSymbol at h ⊢
  cases ho : s.operands.head? with
  | none => simp [ho] at h
  | some operand =>
    cases ht : operand.firstOf? .identifier with
    | none => simp [ho, ht] at h
    | some t =>
      simpa [ho, ht] using accepts_of_find? hs (List.mem_of_mem_head? ho) ht

theorem accepts_commonSymbol (h : Detail.commonSymbol s.operands ≠ "") :
    Token.Kind.identifier.accepts (Detail.commonSymbol s.operands).toList = true := by
  unfold Detail.commonSymbol at h ⊢
  cases ho : s.operands.head? with
  | none => simp [ho] at h
  | some operand =>
    cases ht : operand.first? .identifier with
    | none => simp [ho, ht] at h
    | some t =>
      obtain ⟨hhead, hkind⟩ := Option.filter_eq_some_iff.mp ht
      simpa [ho, ht] using spelled_of_mem_ofSource hs (List.mem_of_mem_head? ho)
        (List.mem_of_mem_head? hhead) hkind

/-- A name that a directive speaks of is an identifier of its operands. -/
theorem accepts_of_symbol? (hk : s.kind ≠ .label) (h : s.symbol? = some name) :
    Token.Kind.identifier.accepts name.toList = true := by
  obtain ⟨_, -, hread⟩ := List.mem_filterMap.mp hs
  have hgiven : ∀ symbol : String, (if symbol = "" then none else some symbol) = some name →
      symbol ≠ "" ∧ symbol = name := by
    intro symbol hsymbol
    split at hsymbol
    · cases hsymbol
    · next hne => exact ⟨hne, Option.some.inj hsymbol⟩
  rw [symbol?, detail_of_ofText? hread] at h
  revert h
  cases hkind : s.kind with
  | label => exact absurd hkind hk
  | type | size =>
    intro h
    obtain ⟨hne, rfl⟩ := hgiven _ h
    exact accepts_namedSymbol hs hne
  | common | localCommon =>
    intro h
    obtain ⟨hne, rfl⟩ := hgiven _ h
    exact accepts_commonSymbol hs hne
  | _ =>
    intro h
    cases h

end

end Statement

theorem Token.Spelled.text_ne_canonical {t : Token} (h : t.Spelled) (hid : t.isIdentifier = true)
    (n : Nat) : t.text ≠ Name.canonical n := by
  intro heq
  have hmem : '~' ∈ t.text.toList := by
    rw [heq, Name.toList_canonical]
    exact List.mem_append_left _ (by decide)
  have hchar := Token.isNameChar_of_accepts (h hid) hmem
  revert hchar
  decide

end AsmCompare
