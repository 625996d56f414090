import AsmCompare.Statement.Basic
import Mathlib.Data.List.Basic

/-! # All names of a statement at once

A map on names acts on a whole statement. It reaches the name of a label, the symbol that a directive
speaks of and every identifier of the operands; statements that select a section are left alone.
-/
namespace AsmCompare

def Token.mapName (σ : String → String) (t : Token) : Token :=
  if t.isIdentifier then { t with text := σ t.text } else t

namespace Token

theorem kind_mapName (σ : String → String) (t : Token) : (t.mapName σ).kind = t.kind := by
  unfold mapName
  split <;> rfl

theorem immediate_mapName (σ : String → String) (t : Token) :
    (t.mapName σ).immediate = t.immediate := by
  unfold mapName
  split <;> rfl

theorem isIdentifier_mapName (σ : String → String) (t : Token) :
    (t.mapName σ).isIdentifier = t.isIdentifier := by
  rw [isIdentifier, isIdentifier, kind_mapName]

theorem text_mapName_of_isIdentifier {σ : String → String} {t : Token}
    (h : t.isIdentifier = true) : (t.mapName σ).text = σ t.text := by
  rw [mapName, if_pos h]

theorem mapName_of_not_isIdentifier {σ : String → String} {t : Token}
    (h : t.isIdentifier = false) : t.mapName σ = t := by
  simp [mapName, h]

theorem mapName_id (t : Token) : t.mapName id = t := by
  unfold mapName
  split <;> rfl

theorem map_mapName_id : List.map (mapName id) = id := by
  funext operand
  rw [funext mapName_id, List.map_id']
  rfl

theorem mapName_mapName (σ τ : String → String) (t : Token) :
    (t.mapName σ).mapName τ = t.mapName (τ ∘ σ) := by
  cases h : t.isIdentifier with
  | false => simp [mapName_of_not_isIdentifier, h]
  | true =>
    rw [mapName, isIdentifier_mapName, if_pos h, text_mapName_of_isIdentifier h]
    simp [mapName, h]

theorem rename_eq_mapName (old new : String) (t : Token) :
    t.rename old new = t.mapName fun x => if x = old then new else x := by
  unfold rename mapName
  cases h : t.isIdentifier with
  | false => rfl
  | true =>
    by_cases ht : t.text = old
    · simp [ht]
    · simp [ht]

end Token

namespace Statement

def Detail.mapName (σ : String → String) : Detail → Detail
  | .label name => .label (σ name)
  | .type symbol kind => .type (σ symbol) kind
  | .size symbol => .size (σ symbol)
  | .inSection name flags executable => .inSection name flags executable
  | .common symbol bytes boundary => .common (σ symbol) bytes boundary

/-- The statement with every name replaced by its image. -/
def mapNames (σ : String → String) (s : Statement) : Statement :=
  if s.kind.isSection then s
  else
    { s with
      operands := s.operands.map (List.map (Token.mapName σ))
      mnemonic := (s.label?.map σ).getD s.mnemonic
      detail := s.detail.map (Detail.mapName σ) }

/-- The names that stand in a statement. -/
def names (s : Statement) : List String := s.label?.toList ++ s.identifiers.map Token.text

/-- The detail fits the kind, and a label is its own first word. -/
structure WellFormed (s : Statement) : Prop where
  shape : s.detail.map Detail.shape = s.kind.shape?
  labelled : ∀ name, s.label? = some name → s.mnemonic = name

theorem Detail.rename_eq_mapName (old new : String) (d : Detail) :
    d.rename old new = d.mapName fun x => if x = old then new else x := by
  cases d <;> rfl

theorem Detail.shape_mapName (σ : String → String) (d : Detail) :
    (d.mapName σ).shape = d.shape := by
  cases d <;> rfl

theorem Detail.mapName_id (d : Detail) : d.mapName id = d := by
  cases d <;> rfl

theorem Detail.mapName_mapName (σ τ : String → String) (d : Detail) :
    (d.mapName σ).mapName τ = d.mapName (τ ∘ σ) := by
  cases d <;> rfl

theorem label?_eq_some_iff {s : Statement} {name : String} :
    s.label? = some name ↔ s.detail = some (.label name) := by
  unfold label?
  split
  · next h => simp [h]
  · next h =>
    constructor
    · intro hn
      cases hn
    · intro hd
      exact absurd hd (h name)

theorem kind_mapNames (σ : String → String) (s : Statement) : (s.mapNames σ).kind = s.kind := by
  unfold mapNames
  split <;> rfl

theorem mapNames_of_isSection {s : Statement} (h : s.kind.isSection = true) (σ : String → String) :
    s.mapNames σ = s := by
  rw [mapNames, if_pos h]

section
variable {s : Statement} (σ : String → String)

theorem detail_mapNames (h : s.kind.isSection = false) :
    (s.mapNames σ).detail = s.detail.map (Detail.mapName σ) := by
  simp [mapNames, h]

theorem operands_mapNames (h : s.kind.isSection = false) :
    (s.mapNames σ).operands = s.operands.map (List.map (Token.mapName σ)) := by
  simp [mapNames, h]

theorem mnemonic_mapNames (h : s.kind.isSection = false) :
    (s.mapNames σ).mnemonic = (s.label?.map σ).getD s.mnemonic := by
  simp [mapNames, h]

end

theorem kind_eq_label_of_shape {s : Statement} (h : s.detail.map Detail.shape = s.kind.shape?)
    {name : String} (hn : s.label? = some name) : s.kind = .label := by
  rw [label?_eq_some_iff.mp hn] at h
  revert h
  cases s.kind <;> simp [Detail.shape, Kind.shape?]

namespace WellFormed
variable {s : Statement}

theorem kind_eq_label (h : s.WellFormed) {name : String} (hn : s.label? = some name) :
    s.kind = .label :=
  kind_eq_label_of_shape h.shape hn

theorem exists_label? (h : s.WellFormed) (hk : s.kind = .label) : ∃ name, s.label? = some name := by
  have hshape := h.shape
  rw [hk] at hshape
  obtain ⟨d, hd, hds⟩ := Option.map_eq_some_iff.mp hshape
  cases d with
  | label name => exact ⟨name, label?_eq_some_iff.mpr hd⟩
  | _ => cases hds

theorem label?_eq_none (h : s.WellFormed) (hk : s.kind ≠ .label) : s.label? = none := by
  cases hn : s.label? with
  | none => rfl
  | some name => exact absurd (h.kind_eq_label hn) hk

/-- A statement that selects a section speaks of no symbol. -/
theorem symbol?_eq_none (h : s.WellFormed) (hk : s.kind.isSection = true) : s.symbol? = none := by
  have hshape := h.shape
  unfold symbol?
  cases hd : s.detail with
  | none => rfl
  | some d =>
    rw [hd] at hshape
    cases d with
    | inSection name flags executable => rfl
    | _ =>
      revert hk hshape
      cases s.kind <;> simp [Detail.shape, Kind.shape?, Kind.isSection]

theorem label?_mapNames (h : s.WellFormed) (σ : String → String) :
    (s.mapNames σ).label? = s.label?.map σ := by
  cases hk : s.kind.isSection with
  | true =>
    have hne : s.kind ≠ .label := by
      intro hl
      rw [hl] at hk
      cases hk
    rw [mapNames_of_isSection hk, h.label?_eq_none hne]
    rfl
  | false =>
    unfold label?
    rw [detail_mapNames σ hk]
    cases s.detail with
    | none => rfl
    | some d => cases d <;> rfl

theorem symbol?_mapNames (h : s.WellFormed) {σ : String → String}
    (hσ : ∀ x, σ x = "" ↔ x = "") : (s.mapNames σ).symbol? = s.symbol?.map σ := by
  cases hk : s.kind.isSection with
  | true =>
    rw [mapNames_of_isSection hk, h.symbol?_eq_none hk]
    rfl
  | false =>
    unfold symbol?
    rw [detail_mapNames σ hk]
    cases s.detail with
    | none => rfl
    | some d =>
      cases d with
      | label name => rfl
      | inSection name flags executable => rfl
      | type symbol _ | size symbol | common symbol _ _ =>
        simp only [Option.map_some, Option.bind_some, Detail.mapName, Detail.symbol?, hσ]
        split <;> rfl

theorem mapNames (h : s.WellFormed) (σ : String → String) : (s.mapNames σ).WellFormed := by
  constructor
  · rw [kind_mapNames, ← h.shape]
    cases hk : s.kind.isSection with
    | true => rw [mapNames_of_isSection hk]
    | false =>
      rw [detail_mapNames σ hk, Option.map_map]
      congr 1
      funext d
      exact Detail.shape_mapName σ d
  · intro name hn
    rw [h.label?_mapNames] at hn
    obtain ⟨label, hl, rfl⟩ := Option.map_eq_some_iff.mp hn
    have hk : s.kind.isSection = false := by rw [h.kind_eq_label hl]; rfl
    rw [mnemonic_mapNames σ hk, hl]
    rfl

theorem mapNames_id (h : s.WellFormed) : s.mapNames id = s := by
  have hmnemonic : (s.label?.map id).getD s.mnemonic = s.mnemonic := by
    cases hl : s.label? with
    | none => rfl
    | some name => exact (h.labelled name hl).symm
  have hdetail : Detail.mapName id = id := funext Detail.mapName_id
  unfold Statement.mapNames
  rw [hmnemonic, Token.map_mapName_id, hdetail, List.map_id, Option.map_id_apply]
  split <;> rfl

theorem mapNames_mapNames (h : s.WellFormed) (σ τ : String → String) :
    (s.mapNames σ).mapNames τ = s.mapNames (τ ∘ σ) := by
  cases hk : s.kind.isSection with
  | true => rw [mapNames_of_isSection hk, mapNames_of_isSection hk, mapNames_of_isSection hk]
  | false =>
    have hl := h.label?_mapNames σ
    unfold Statement.mapNames at hl ⊢
    simp only [hk, Bool.false_eq_true, ↓reduceIte] at hl ⊢
    simp only [hl, Option.map_map, List.map_map, mk.injEq, true_and, and_true]
    refine ⟨?_, ?_, ?_⟩
    · cases s.label? <;> rfl
    · congr 1
      funext operand
      simp [Function.comp_def, Token.mapName_mapName]
    · congr 1
      funext d
      exact Detail.mapName_mapName σ τ d

end WellFormed

section
variable {l : List Statement} (h : ∀ s ∈ l, s.WellFormed) (σ : String → String)
include h

theorem wellFormed_of_mem_map : ∀ s ∈ l.map (mapNames σ), s.WellFormed := by
  intro s hs
  obtain ⟨t, ht, rfl⟩ := List.mem_map.mp hs
  exact (h t ht).mapNames σ

theorem filterMap_label?_map :
    (l.map (mapNames σ)).filterMap label? = (l.filterMap label?).map σ := by
  rw [List.filterMap_map, List.map_filterMap]
  exact List.filterMap_congr fun s hs => (h s hs).label?_mapNames σ

end

theorem wellFormed_of_ofText? {text : String} {location : Option Location} {s : Statement}
    (h : ofText? text location = some s) : s.WellFormed := by
  unfold ofText? at h
  simp only at h
  split at h
  · cases h
  · obtain rfl := Option.some.inj h
    refine ⟨Detail.shape_ofOperands? _ _ _, fun name hn => ?_⟩
    have hd := label?_eq_some_iff.mp hn
    revert hd
    simp only
    cases (classify (Source.splitMnemonic text.toList).1).1 <;> simp [Detail.ofOperands?]

theorem wellFormed_of_mem_ofSource {file source : String} {s : Statement}
    (h : s ∈ ofSource file source) : s.WellFormed := by
  obtain ⟨_, -, hs⟩ := List.mem_filterMap.mp h
  exact wellFormed_of_ofText? hs

end Statement

end AsmCompare
