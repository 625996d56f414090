import AsmCompare.Proofs.Statement.Agreement
import AsmCompare.Proofs.Statement.Skeleton
import AsmCompare.Proofs.Token.Spelling
import Mathlib.Data.Set.Operations

/-! # Normal forms decide renamings of local labels

Normalization forgets how the local labels of a body are called and nothing else. Two bodies have
the same normal form exactly if one becomes the other when its local labels get other names, as
long as names stay apart. No label may be spelled like a canonical name; identifiers in operands
never are.
-/
namespace AsmCompare.Body
open Statement (form)

/-- Every statement of the body was read from a text. -/
def Parsed (b : Body) : Prop :=
  ∀ s ∈ b.statements, ∃ text location, Statement.ofText? text location = some s

/-- No label starts like a canonical name. -/
def AvoidsCanonical (b : Body) : Prop :=
  ∀ x ∈ b.labels, ¬ "~ASMTOOL".toList <+: x.toList

instance (b : Body) : Decidable b.AvoidsCanonical :=
  inferInstanceAs (Decidable (∀ x ∈ b.labels, _))

/-- The labels and identifiers of the body, except in statements that select a section. -/
def names (b : Body) : List String := b.statements.flatMap Statement.openNames

def forms (b : Body) : List Statement.Form := b.statements.map form

/-- Other names for the local labels of `a` make `b` of it, and no two names become one. -/
structure IsRelabeling (a b : Body) (σ : String → String) : Prop where
  injOn : Set.InjOn σ {x | x ∈ a.names}
  labels : ∀ x ∈ a.localLabels, Name.isLocalLabel (σ x) = true
  others : ∀ x, x ∉ a.localLabels → σ x = x
  forms : (a.statements.map (Statement.mapNames σ)).map form = b.forms

variable {a b : Body}

theorem Parsed.wellFormed (h : b.Parsed) : ∀ s ∈ b.statements, s.WellFormed := by
  intro s hs
  obtain ⟨text, location, hread⟩ := h s hs
  exact Statement.wellFormed_of_ofText? hread

theorem mem_names_of_mem_labels (h : b.Parsed) {x : String} (hx : x ∈ b.labels) :
    x ∈ b.names := by
  obtain ⟨s, hs, hlabel⟩ := mem_labels_iff.mp hx
  refine List.mem_flatMap.mpr ⟨s, hs, ?_⟩
  have hk := (h.wellFormed s hs).kind_eq_label hlabel
  rw [Statement.openNames, hk, Statement.names, hlabel]
  exact List.mem_append_left _ (List.mem_singleton_self x)

theorem mem_names_of_mem_localLabels (h : b.Parsed) {x : String} (hx : x ∈ b.localLabels) :
    x ∈ b.names :=
  mem_names_of_mem_labels h (mem_labels_iff.mpr (mem_localLabels_iff.mp hx).2)

theorem ne_canonical_of_mem_names (h : b.Parsed) (hc : b.AvoidsCanonical) {x : String}
    (hx : x ∈ b.names) (n : Nat) : x ≠ Name.canonical n := by
  obtain ⟨s, hs, hx⟩ := List.mem_flatMap.mp hx
  unfold Statement.openNames at hx
  split at hx
  · cases hx
  · rcases List.mem_append.mp hx with hx | hx
    · rintro rfl
      apply hc _ (mem_labels_iff.mpr ⟨s, hs, Option.mem_toList.mp hx⟩)
      rw [Name.toList_canonical]
      exact List.prefix_append _ _
    · obtain ⟨t, ht, rfl⟩ := List.mem_map.mp hx
      obtain ⟨text, location, hread⟩ := h s hs
      obtain ⟨⟨operand, ho, hto⟩, hid⟩ := Statement.mem_identifiers.mp ht
      exact (Statement.spelled_of_ofText? hread ho hto).text_ne_canonical hid n

theorem forms_normalize_eq_iff (ha : a.Parsed) (hb : b.Parsed) :
    a.normalize.forms = b.normalize.forms ↔
      a.statements.map Statement.skeleton = b.statements.map Statement.skeleton ∧
        a.names.map (canonicalName a.localLabels) = b.names.map (canonicalName b.localLabels) := by
  rw [forms, forms, statements_normalize ha.wellFormed, statements_normalize hb.wellFormed]
  exact Statement.map_form_mapNames_eq_iff ha.wellFormed hb.wellFormed

theorem map_form_mapNames_eq_forms_iff (ha : a.Parsed) (hb : b.Parsed) {σ : String → String} :
    (a.statements.map (Statement.mapNames σ)).map form = b.forms ↔
      a.statements.map Statement.skeleton = b.statements.map Statement.skeleton ∧
        a.names.map σ = b.names := by
  have hid : b.statements.map (Statement.mapNames id) = b.statements := by
    have hmap := List.map_congr_left fun s hs => (hb.wellFormed s hs).mapNames_id
    rw [hmap, List.map_id']
  have h := Statement.map_form_mapNames_eq_iff (σ := σ) (τ := id) ha.wellFormed hb.wellFormed
  rw [hid, List.map_id] at h
  exact h

/-- The map that takes local labels to those of the same numbers in the other body. -/
def relabel (labels labels' : List String) (x : String) : String :=
  match labels.idxOf? x with
  | some n => (labels'[n]?).getD x
  | none => x

theorem relabel_eq {labels labels' : List String} {x y : String}
    (hx : ∀ n, x ≠ Name.canonical n) (hy : ∀ n, y ≠ Name.canonical n)
    (h : canonicalName labels x = canonicalName labels' y) : relabel labels labels' x = y := by
  obtain ⟨hindex, hother⟩ := idxOf?_eq_of_canonicalName_eq hx hy h
  unfold relabel
  cases hn : labels.idxOf? x with
  | none => exact hother hn
  | some n =>
    obtain ⟨hlt, hget, -⟩ := List.idxOf?_eq_some_iff.mp (hindex ▸ hn)
    simp [hlt, hget]

section
variable (ha : a.Parsed) (hb : b.Parsed) (hca : a.AvoidsCanonical) (hcb : b.AvoidsCanonical)
  (hnames : a.names.map (canonicalName a.localLabels) = b.names.map (canonicalName b.localLabels))
include ha hb hca hcb hnames

/-- Canonical names show at each place of `a` which name of `b` stands there. -/
theorem map_relabel_names : a.names.map (relabel a.localLabels b.localLabels) = b.names := by
  have hlen : a.names.length = b.names.length := length_eq_of_map_eq hnames
  refine List.ext_getElem (by simpa using hlen) fun i hi hi' => ?_
  have hia : i < a.names.length := hlen ▸ hi'
  rw [List.getElem_map]
  apply relabel_eq
  · exact ne_canonical_of_mem_names ha hca (List.getElem_mem hia)
  · exact ne_canonical_of_mem_names hb hcb (List.getElem_mem hi')
  · have hget := List.getElem_of_eq hnames (i := i) (by simpa using hia)
    rwa [List.getElem_map, List.getElem_map] at hget

theorem canonicalName_relabel {x : String} (hx : x ∈ a.names) :
    canonicalName a.localLabels x =
      canonicalName b.localLabels (relabel a.localLabels b.localLabels x) := by
  have hmap := map_relabel_names ha hb hca hcb hnames
  rw [← hmap, List.map_map] at hnames
  exact List.map_inj_left.mp hnames x hx

theorem relabel_mem_localLabels {x : String} (hx : x ∈ a.localLabels) :
    relabel a.localLabels b.localLabels x ∈ b.localLabels := by
  have hxa := mem_names_of_mem_localLabels ha hx
  have himage : relabel a.localLabels b.localLabels x ∈ b.names := by
    rw [← map_relabel_names ha hb hca hcb hnames]
    exact List.mem_map_of_mem hxa
  have hindex := (idxOf?_eq_of_canonicalName_eq (ne_canonical_of_mem_names ha hca hxa)
    (ne_canonical_of_mem_names hb hcb himage)
    (canonicalName_relabel ha hb hca hcb hnames hxa)).1
  by_contra hnot
  rw [List.idxOf?_eq_none_iff.mpr hnot] at hindex
  exact List.idxOf?_eq_none_iff.mp hindex hx

theorem injOn_relabel : Set.InjOn (relabel a.localLabels b.localLabels) {x | x ∈ a.names} := by
  intro x hx y hy hxy
  have heq : canonicalName a.localLabels x = canonicalName a.localLabels y := by
    rw [canonicalName_relabel ha hb hca hcb hnames hx,
      canonicalName_relabel ha hb hca hcb hnames hy, hxy]
  exact eq_of_canonicalName_eq (ne_canonical_of_mem_names ha hca hx)
    (ne_canonical_of_mem_names ha hca hy) heq

end

namespace IsRelabeling
variable {σ : String → String} (h : IsRelabeling a b σ) (ha : a.Parsed) (hb : b.Parsed)
include h

theorem isLocalLabel_eq (x : String) : Name.isLocalLabel (σ x) = Name.isLocalLabel x := by
  by_cases hx : x ∈ a.localLabels
  · rw [h.labels x hx, (mem_localLabels_iff.mp hx).1]
  · rw [h.others x hx]

include ha hb

theorem labels_eq : b.labels = a.labels.map σ := by
  have hread : ∀ l : List Statement, (∀ s ∈ l, s.WellFormed) →
      l.filterMap Statement.label? = (l.map form).filterMap Statement.Form.label? := by
    intro l hl
    rw [List.filterMap_map]
    exact List.filterMap_congr fun s hs => (hl s hs).label?_form.symm
  have hforms : b.statements.map form = (a.statements.map (Statement.mapNames σ)).map form :=
    h.forms.symm
  have hwf := Statement.wellFormed_of_mem_map ha.wellFormed σ
  rw [Body.labels, Body.labels, hread _ hb.wellFormed, hforms, ← hread _ hwf]
  exact Statement.filterMap_label?_map ha.wellFormed σ

theorem localLabels_eq : b.localLabels = a.localLabels.map σ := by
  refine localLabels_eq_map (h.labels_eq ha hb) (fun x hx y hy hxy => ?_) fun x _ => ?_
  · exact h.injOn (mem_names_of_mem_labels ha hx) (mem_names_of_mem_labels ha hy) hxy
  · exact h.isLocalLabel_eq x

theorem canonicalName_eq {x : String} (hx : x ∈ a.names) :
    canonicalName b.localLabels (σ x) = canonicalName a.localLabels x := by
  have hinj : ∀ y ∈ a.localLabels, σ y = σ x → y = x :=
    fun y hy hyx => h.injOn (mem_names_of_mem_localLabels ha hy) hx hyx
  rw [h.localLabels_eq ha hb]
  by_cases hmem : x ∈ a.localLabels
  · exact canonicalName_map_of_mem hinj hmem
  · rw [canonicalName_map_of_not_mem hinj hmem, canonicalName_of_not_mem hmem, h.others x hmem]

end IsRelabeling

/-- Two bodies have the same normal form exactly if other names for the local labels of the first,
that keep its names apart, make it the second. -/
theorem forms_normalize_eq_iff_exists_isRelabeling {a b : Body} (ha : a.Parsed) (hb : b.Parsed)
    (hca : a.AvoidsCanonical) (hcb : b.AvoidsCanonical) :
    a.normalize.forms = b.normalize.forms ↔ ∃ σ, IsRelabeling a b σ := by
  rw [forms_normalize_eq_iff ha hb]
  constructor
  · rintro ⟨hskeleton, hnames⟩
    refine ⟨relabel a.localLabels b.localLabels, ?_, fun x hx => ?_, fun x hx => ?_, ?_⟩
    · exact injOn_relabel ha hb hca hcb hnames
    · exact (mem_localLabels_iff.mp (relabel_mem_localLabels ha hb hca hcb hnames hx)).1
    · rw [relabel, List.idxOf?_eq_none_iff.mpr hx]
    · rw [map_form_mapNames_eq_forms_iff ha hb]
      exact ⟨hskeleton, map_relabel_names ha hb hca hcb hnames⟩
  · rintro ⟨σ, hσ⟩
    obtain ⟨hskeleton, hnames⟩ := (map_form_mapNames_eq_forms_iff ha hb).mp hσ.forms
    refine ⟨hskeleton, ?_⟩
    rw [← hnames, List.map_map]
    exact List.map_congr_left fun x hx => (hσ.canonicalName_eq ha hb hx).symm

theorem parsed_ofSource (name : String) (kind : Symbol.Kind) (file source : String) :
    Parsed { name, kind, statements := Statement.ofSource file source } := by
  intro s hs
  obtain ⟨p, -, hread⟩ := List.mem_filterMap.mp hs
  exact ⟨_, _, hread⟩

/-- Two labels, a label that the body does not define, and a section. -/
def twoLabels : Body :=
  { name := "f", kind := .function
    statements := Statement.ofSource "a.s" ".L1:jmp .L2;.L2:jmp .L1;call .L9;.section .L1" }

def twoLabelsExchanged : Body :=
  { name := "f", kind := .function
    statements := Statement.ofSource "b.s" ".L2:jmp .L1;.L1:jmp .L2;call .L9;.section .L1" }

def twoLabelsMixed : Body :=
  { name := "f", kind := .function
    statements := Statement.ofSource "c.s" ".L2:jmp .L1;.L1:jmp .L1;call .L9;.section .L1" }

theorem forms_normalize_eq_iff_twoLabels :
    twoLabels.AvoidsCanonical ∧ twoLabelsExchanged.AvoidsCanonical ∧
      twoLabelsMixed.AvoidsCanonical ∧ (∃ σ, IsRelabeling twoLabels twoLabelsExchanged σ) ∧
      ¬ ∃ σ, IsRelabeling twoLabels twoLabelsMixed σ := by
  have hrun : twoLabels.AvoidsCanonical ∧ twoLabelsExchanged.AvoidsCanonical ∧
      twoLabelsMixed.AvoidsCanonical ∧
      twoLabels.normalize.forms = twoLabelsExchanged.normalize.forms ∧
      twoLabels.normalize.forms ≠ twoLabelsMixed.normalize.forms := by decide +kernel
  obtain ⟨hc, hexchanged, hmixed, heq, hne⟩ := hrun
  have hp := parsed_ofSource "f" .function
  refine ⟨hc, hexchanged, hmixed, ?_, ?_⟩
  · exact (forms_normalize_eq_iff_exists_isRelabeling (hp _ _) (hp _ _) hc hexchanged).mp heq
  · exact fun h =>
      hne ((forms_normalize_eq_iff_exists_isRelabeling (hp _ _) (hp _ _) hc hmixed).mpr h)

end AsmCompare.Body
