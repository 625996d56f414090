import AsmCompare.Proofs.Statement.MapNames
import Mathlib.Data.List.Basic

/-! # A statement is its skeleton and its names

Erasing the names of a statement leaves its skeleton. Two statements under two maps on names have
the same words and operands exactly if their skeletons are the same and the maps give the same
lists of names, and the same holds of lists of statements: what a renaming does to a body is
decided on the list of its names alone.
-/
namespace AsmCompare

/-- Items that are equal up to names, and the names that stand in them: for lists of items the
names are strung together. -/
theorem map_eq_map_iff_of_names {α β γ : Type} {f g : α → β} {erase : α → γ}
    {names : α → List String} {σ τ : String → String} {l m : List α}
    (h : ∀ x ∈ l, ∀ y ∈ m, f x = g y ↔ erase x = erase y ∧ (names x).map σ = (names y).map τ)
    (hlen : ∀ x ∈ l, ∀ y ∈ m, erase x = erase y → (names x).length = (names y).length) :
    l.map f = m.map g ↔
      l.map erase = m.map erase ∧ (l.flatMap names).map σ = (m.flatMap names).map τ := by
  induction l generalizing m with
  | nil => cases m <;> simp
  | cons x l ih =>
    cases m with
    | nil => simp
    | cons y m =>
      have hxy := h x List.mem_cons_self y List.mem_cons_self
      have hrest := @ih m
        (fun x' hx' y' hy' => h x' (List.mem_cons_of_mem x hx') y' (List.mem_cons_of_mem y hy'))
        (fun x' hx' y' hy' => hlen x' (List.mem_cons_of_mem x hx') y' (List.mem_cons_of_mem y hy'))
      simp only [List.map_cons, List.cons.injEq, List.flatMap_cons, List.map_append, hxy, hrest]
      constructor
      · rintro ⟨⟨herase, hnames⟩, herase', hnames'⟩
        exact ⟨⟨herase, herase'⟩, by rw [hnames, hnames']⟩
      · rintro ⟨⟨herase, herase'⟩, happend⟩
        have hlength := hlen x List.mem_cons_self y List.mem_cons_self herase
        obtain ⟨hnames, hnames'⟩ := List.append_inj happend (by simpa using hlength)
        exact ⟨⟨herase, hnames⟩, herase', hnames'⟩

theorem length_eq_of_map_eq {xs ys : List String} {σ τ : String → String}
    (h : xs.map σ = ys.map τ) : xs.length = ys.length := by
  simpa using congrArg List.length h

/-- The map that erases names. -/
def Name.erase (_ : String) : String := ""

namespace Token

def names (t : Token) : List String := if t.isIdentifier then [t.text] else []

theorem mapName_eq_iff {σ τ : String → String} {t u : Token} :
    t.mapName σ = u.mapName τ ↔
      t.mapName Name.erase = u.mapName Name.erase ∧ t.names.map σ = u.names.map τ := by
  have hkinds : ∀ ρ ρ' : String → String, t.mapName ρ = u.mapName ρ' → t.kind = u.kind := by
    intro ρ ρ' h
    rw [← kind_mapName ρ t, h, kind_mapName]
  by_cases hkind : t.kind = u.kind
  · obtain ⟨text, kind, immediate⟩ := t
    obtain ⟨text', kind', immediate'⟩ := u
    obtain rfl : kind = kind' := hkind
    by_cases hid : kind = .identifier
    · simp [mapName, Name.erase, names, isIdentifier, hid, and_comm]
    · simp [mapName, names, isIdentifier, hid]
  · exact iff_of_false (fun h => hkind (hkinds _ _ h)) fun h => hkind (hkinds _ _ h.1)

theorem map_mapName_eq_iff {σ τ : String → String} {o p : Operand} :
    o.map (mapName σ) = p.map (mapName τ) ↔
      o.map (mapName Name.erase) = p.map (mapName Name.erase) ∧
        (o.flatMap names).map σ = (p.flatMap names).map τ :=
  map_eq_map_iff_of_names (fun _ _ _ _ => mapName_eq_iff)
    fun _ _ _ _ h => length_eq_of_map_eq (mapName_eq_iff.mp h).2

theorem map_text_filter (o : Operand) :
    (o.filter isIdentifier).map Token.text = o.flatMap names := by
  induction o with
  | nil => rfl
  | cons t o ih => cases h : t.isIdentifier <;> simp [names, h, ih]

end Token

namespace Statement

/-- What two statements have in common if they differ in text and place only. -/
structure Form where
  kind : Kind
  mnemonic : String
  operands : List Operand
  deriving DecidableEq

def form (s : Statement) : Form := ⟨s.kind, s.mnemonic, s.operands⟩

def Form.label? (f : Form) : Option String := if f.kind = .label then some f.mnemonic else none

/-- The form of a statement without its names. -/
def skeleton (s : Statement) : Form := (s.mapNames Name.erase).form

/-- The names that a renaming reaches. -/
def openNames (s : Statement) : List String := if s.kind.isSection then [] else s.names

variable {s t : Statement} {σ τ : String → String}

theorem WellFormed.label?_form (h : s.WellFormed) : s.form.label? = s.label? := by
  unfold Form.label? form
  by_cases hk : s.kind = .label
  · obtain ⟨name, hn⟩ := h.exists_label? hk
    rw [if_pos hk, hn, h.labelled name hn]
  · rw [if_neg hk, h.label?_eq_none hk]

theorem names_eq (s : Statement) :
    s.names = s.label?.toList ++ s.operands.flatMap (List.flatMap Token.names) := by
  rw [names, identifiers, Token.map_text_filter, List.flatten_eq_flatMap, List.flatMap_assoc]
  rfl

theorem map_operands_eq_iff :
    s.operands.map (List.map (Token.mapName σ)) = t.operands.map (List.map (Token.mapName τ)) ↔
      s.operands.map (List.map (Token.mapName Name.erase)) =
          t.operands.map (List.map (Token.mapName Name.erase)) ∧
        (s.operands.flatMap (List.flatMap Token.names)).map σ =
          (t.operands.flatMap (List.flatMap Token.names)).map τ :=
  map_eq_map_iff_of_names (fun _ _ _ _ => Token.map_mapName_eq_iff)
    fun _ _ _ _ h => length_eq_of_map_eq (Token.map_mapName_eq_iff.mp h).2

theorem form_mapNames (h : s.kind.isSection = false) (σ : String → String) :
    (s.mapNames σ).form = ⟨s.kind, (s.label?.map σ).getD s.mnemonic,
      s.operands.map (List.map (Token.mapName σ))⟩ := by
  rw [form, kind_mapNames, mnemonic_mapNames σ h, operands_mapNames σ h]

/-- Under two maps, statements get the same form exactly if they have the same skeleton and their
names get the same images. -/
theorem form_mapNames_eq_iff (hs : s.WellFormed) (ht : t.WellFormed) :
    (s.mapNames σ).form = (t.mapNames τ).form ↔
      s.skeleton = t.skeleton ∧ s.openNames.map σ = t.openNames.map τ := by
  have hkinds : ∀ ρ ρ' : String → String, (s.mapNames ρ).form = (t.mapNames ρ').form →
      s.kind = t.kind := by
    intro ρ ρ' h
    have hkind := congrArg Form.kind h
    rwa [form, form, kind_mapNames, kind_mapNames] at hkind
  by_cases hkind : s.kind = t.kind
  · unfold skeleton openNames
    cases hsec : s.kind.isSection with
    | true =>
      have hsec' : t.kind.isSection = true := hkind ▸ hsec
      simp [mapNames_of_isSection, hsec, hsec']
    | false =>
      have hsec' : t.kind.isSection = false := hkind ▸ hsec
      rw [form_mapNames hsec, form_mapNames hsec', form_mapNames hsec, form_mapNames hsec']
      simp only [Form.mk.injEq, hkind, true_and, hsec', Bool.false_eq_true, ↓reduceIte, names_eq]
      rw [map_operands_eq_iff]
      by_cases hlabel : s.kind = .label
      · obtain ⟨x, hx⟩ := hs.exists_label? hlabel
        obtain ⟨y, hy⟩ := ht.exists_label? (hkind ▸ hlabel)
        simp [hx, hy, Name.erase, and_left_comm]
      · have hx := hs.label?_eq_none hlabel
        have hy := ht.label?_eq_none (hkind ▸ hlabel)
        simp [hx, hy, and_assoc]
  · exact iff_of_false (fun h => hkind (hkinds _ _ h)) fun h => hkind (hkinds _ _ h.1)

theorem map_form_mapNames_eq_iff {l m : List Statement} (hl : ∀ s ∈ l, s.WellFormed)
    (hm : ∀ s ∈ m, s.WellFormed) :
    (l.map (mapNames σ)).map form = (m.map (mapNames τ)).map form ↔
      l.map skeleton = m.map skeleton ∧
        (l.flatMap openNames).map σ = (m.flatMap openNames).map τ := by
  rw [List.map_map, List.map_map]
  refine map_eq_map_iff_of_names (fun s hs t ht => form_mapNames_eq_iff (hl s hs) (hm t ht)) ?_
  intro s hs t ht h
  exact length_eq_of_map_eq ((form_mapNames_eq_iff (hl s hs) (hm t ht)).mp h).2

end Statement

end AsmCompare
