import AsmCompare.Proofs.Statement.MapNames
import Mathlib.Data.List.Forall2

/-! # When two statements agree

Agreement is read place by place. Of a statement under two maps on names it remains that the maps
give the same names or, in code and data, both generated ones.
-/
namespace AsmCompare.Statement

theorem isEqv_iff_forall₂ {α : Type} {r : α → α → Bool} {l m : List α} :
    l.isEqv m r = true ↔ List.Forall₂ (fun x y => r x y = true) l m := by
  induction l generalizing m with
  | nil => cases m <;> simp [List.isEqv]
  | cons x l ih =>
    cases m with
    | nil => simp [List.isEqv]
    | cons y m => simp [List.isEqv, ih]

theorem agrees_iff {s t : Statement} :
    s.agrees t = true ↔ s.kind = t.kind ∧ s.mnemonic = t.mnemonic ∧
      List.Forall₂ (List.Forall₂ fun u v => tokensAgree s.kind.isSymbolic u v = true)
        s.operands t.operands := by
  unfold agrees
  simp only [Bool.and_eq_true, decide_eq_true_eq, isEqv_iff_forall₂, and_assoc]

theorem tokensAgree_self (symbolic : Bool) (t : Token) : tokensAgree symbolic t t = true := by
  simp [tokensAgree]

theorem agrees_self (s : Statement) : s.agrees s = true := by
  rw [agrees_iff]
  refine ⟨rfl, rfl, List.forall₂_same.mpr fun operand _ => List.forall₂_same.mpr fun t _ => ?_⟩
  exact tokensAgree_self _ t

theorem tokensAgree_symm {symbolic : Bool} {t u : Token} (h : tokensAgree symbolic t u = true) :
    tokensAgree symbolic u t = true := by
  unfold tokensAgree Token.isIdentifier at *
  simp only [Bool.and_eq_true, Bool.or_eq_true, decide_eq_true_eq] at h ⊢
  obtain ⟨hkind, ⟨htext, himm⟩ | ⟨⟨⟨hs, hid⟩, ht⟩, hu⟩⟩ := h
  · exact ⟨hkind.symm, .inl ⟨htext.symm, himm.symm⟩⟩
  · exact ⟨hkind.symm, .inr ⟨⟨⟨hs, hkind ▸ hid⟩, hu⟩, ht⟩⟩

theorem agrees_symm {s t : Statement} (h : s.agrees t = true) : t.agrees s = true := by
  obtain ⟨hkind, hmnemonic, hoperands⟩ := agrees_iff.mp h
  refine agrees_iff.mpr ⟨hkind.symm, hmnemonic.symm, ?_⟩
  rw [← hkind]
  refine hoperands.flip.imp fun o p hop => ?_
  exact hop.flip.imp fun u v huv => tokensAgree_symm huv

theorem tokensAgree_trans {symbolic : Bool} {t u v : Token} (htu : tokensAgree symbolic t u = true)
    (huv : tokensAgree symbolic u v = true) : tokensAgree symbolic t v = true := by
  unfold tokensAgree Token.isIdentifier at *
  simp only [Bool.and_eq_true, Bool.or_eq_true, decide_eq_true_eq] at htu huv ⊢
  obtain ⟨hkind, htu⟩ := htu
  obtain ⟨hkind', huv⟩ := huv
  refine ⟨hkind.trans hkind', ?_⟩
  rcases htu with ⟨htext, himm⟩ | ⟨⟨⟨hs, hid⟩, ht⟩, hu⟩
  · rcases huv with ⟨htext', himm'⟩ | ⟨⟨⟨hs, hid⟩, hu⟩, hv⟩
    · exact .inl ⟨htext.trans htext', himm.trans himm'⟩
    · exact .inr ⟨⟨⟨hs, hkind.trans hid⟩, htext ▸ hu⟩, hv⟩
  · -- The first two names are generated, and so is the third, equal to the second or not.
    refine .inr ⟨⟨⟨hs, hid⟩, ht⟩, ?_⟩
    rcases huv with ⟨htext', -⟩ | ⟨-, hv⟩
    · exact htext' ▸ hu
    · exact hv

theorem forall₂_trans {α : Type} {r : α → α → Prop} {l m n : List α} (hlm : List.Forall₂ r l m)
    (hmn : List.Forall₂ r m n) (hr : ∀ x y z, r x y → r y z → r x z) : List.Forall₂ r l n := by
  induction hlm generalizing n with
  | nil => exact hmn
  | cons hxy _ ih =>
    cases hmn with
    | cons hyz hmn => exact .cons (hr _ _ _ hxy hyz) (ih hmn)

theorem agrees_trans {s t u : Statement} (hst : s.agrees t = true) (htu : t.agrees u = true) :
    s.agrees u = true := by
  obtain ⟨hkind, hmnemonic, hoperands⟩ := agrees_iff.mp hst
  obtain ⟨hkind', hmnemonic', hoperands'⟩ := agrees_iff.mp htu
  rw [← hkind] at hoperands'
  refine agrees_iff.mpr ⟨hkind.trans hkind', hmnemonic.trans hmnemonic', ?_⟩
  refine forall₂_trans hoperands hoperands' fun o p q hop hpq => ?_
  exact forall₂_trans hop hpq fun _ _ _ => tokensAgree_trans

theorem tokensAgree_mapName_iff {σ τ : String → String} {symbolic : Bool} {t : Token} :
    tokensAgree symbolic (t.mapName σ) (t.mapName τ) = true ↔
      (t.isIdentifier = true → σ t.text = τ t.text ∨
        symbolic = true ∧ Name.isGenerated (σ t.text) = true ∧
          Name.isGenerated (τ t.text) = true) := by
  cases h : t.isIdentifier with
  | false =>
    rw [Token.mapName_of_not_isIdentifier h, Token.mapName_of_not_isIdentifier h]
    simp [tokensAgree_self]
  | true =>
    unfold tokensAgree
    simp [Token.kind_mapName, Token.immediate_mapName, Token.isIdentifier_mapName, h,
      Token.text_mapName_of_isIdentifier h, and_assoc]

theorem mem_identifiers {s : Statement} {t : Token} :
    t ∈ s.identifiers ↔ (∃ operand ∈ s.operands, t ∈ operand) ∧ t.isIdentifier = true := by
  rw [identifiers, List.mem_filter, List.mem_flatten]

/-- The statement under two maps agrees with itself exactly if the maps agree on its names. -/
theorem agrees_mapNames_iff {s : Statement} (hk : s.kind.isSection = false)
    {σ τ : String → String} :
    (s.mapNames σ).agrees (s.mapNames τ) = true ↔
      (∀ name, s.label? = some name → σ name = τ name) ∧
        ∀ t ∈ s.identifiers, σ t.text = τ t.text ∨
          s.kind.isSymbolic = true ∧ Name.isGenerated (σ t.text) = true ∧
            Name.isGenerated (τ t.text) = true := by
  have hmnemonic : (s.mapNames σ).mnemonic = (s.mapNames τ).mnemonic ↔
      ∀ name, s.label? = some name → σ name = τ name := by
    rw [mnemonic_mapNames σ hk, mnemonic_mapNames τ hk]
    cases s.label? <;> simp
  rw [agrees_iff, kind_mapNames, kind_mapNames, hmnemonic, operands_mapNames σ hk,
    operands_mapNames τ hk]
  simp only [true_and, List.forall₂_map_left_iff, List.forall₂_map_right_iff, List.forall₂_same,
    tokensAgree_mapName_iff]
  refine and_congr_right fun _ => ?_
  constructor
  · intro h t ht
    obtain ⟨⟨operand, ho, hto⟩, hid⟩ := mem_identifiers.mp ht
    exact h operand ho t hto hid
  · intro h operand ho t hto hid
    exact h t (mem_identifiers.mpr ⟨⟨operand, ho, hto⟩, hid⟩)

end AsmCompare.Statement
