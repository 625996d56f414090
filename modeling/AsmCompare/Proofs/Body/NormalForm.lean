import AsmCompare.Proofs.Body.CanonicalNames

/-! # The normal form of a body

Normalization numbers the local labels that a body defines in the order in which they are defined
first, and replaces all names at once. A canonical name is no local label, whatever its number and
however short the names are that it stands for. So no local label is left in the normal form, and
normalizing again finds nothing to rename.
-/
namespace AsmCompare

namespace Statement

/-- The statement was built, so its detail fits its kind; a label may have any first word. -/
def IsBuilt (s : Statement) : Prop :=
  ∃ text mnemonic kind operands detail location,
    build text mnemonic kind operands detail location = .ok s

variable {s : Statement}

theorem Detail.Shape.shape_blank (shape : Detail.Shape) (mnemonic : String) :
    (shape.blank mnemonic).shape = shape := by
  cases shape <;> rfl

theorem shape_of_fitDetail {kind : Kind} {mnemonic : String} {given found : Option Detail}
    (h : fitDetail kind mnemonic given = .ok found) : found.map Detail.shape = kind.shape? := by
  unfold fitDetail at h
  split at h
  · next hk =>
    cases h
    exact hk.symm
  · cases h
  · next shape hk =>
    cases h
    rw [hk, Option.map_some, Detail.Shape.shape_blank]
  · next shape d hk =>
    split at h
    · next hd =>
      cases h
      rw [hk, Option.map_some, hd]
    · cases h

theorem IsBuilt.shape (h : s.IsBuilt) : s.detail.map Detail.shape = s.kind.shape? := by
  obtain ⟨text, mnemonic, kind, operands, detail, location, hbuild⟩ := h
  unfold build at hbuild
  cases hfit : fitDetail kind mnemonic detail with
  | error e =>
    rw [hfit] at hbuild
    cases hbuild
  | ok found =>
    rw [hfit] at hbuild
    cases hbuild
    exact shape_of_fitDetail hfit

/-- Building a statement from its own parts gives it back, if its detail fits. -/
theorem WellFormed.isBuilt (h : s.WellFormed) : s.IsBuilt := by
  refine ⟨s.text, s.mnemonic, s.kind, s.operands, s.detail, s.location, ?_⟩
  have hfit : fitDetail s.kind s.mnemonic s.detail = .ok s.detail := by
    unfold fitDetail
    rw [← h.shape]
    cases s.detail with
    | none => rfl
    | some d => simp
  rw [build, hfit]
  rfl

/-- A statement that selects a section is no label, so all labels get their images. -/
theorem IsBuilt.label?_substitute (h : s.IsBuilt) (renames : List (String × String)) :
    (s.substitute renames).label? = s.label?.map (image renames) := by
  cases hk : s.kind.isSection with
  | true =>
    have hnone : s.label? = none := by
      apply Option.eq_none_iff_forall_ne_some.mpr
      intro name hname
      rw [kind_eq_label_of_shape h.shape hname] at hk
      cases hk
    rw [substitute_of_isSection hk, hnone]
    rfl
  | false => exact Statement.label?_substitute hk

end Statement

section Distinct
variable {σ : Type} (f : σ → Option String)

/-- Distinct names stand in the order of the places where they are found first. -/
theorem pairwise_findIdx_distinct (l : List σ) :
    (distinct (l.filterMap f)).Pairwise fun x y =>
      l.findIdx (fun s => f s = some x) < l.findIdx (fun s => f s = some y) := by
  induction l with
  | nil => exact List.Pairwise.nil
  | cons s rest ih =>
    cases hs : f s with
    | none =>
      rw [List.filterMap_cons_none hs]
      refine ih.imp fun {x y} hxy => ?_
      simpa [List.findIdx_cons, hs] using hxy
    | some first =>
      rw [List.filterMap_cons_some hs, distinct, List.pairwise_cons]
      constructor
      · intro y hy
        have hne : first ≠ y := by
          rintro rfl
          simp at hy
        simp [List.findIdx_cons, hs, hne]
      · rw [List.pairwise_filter]
        refine ih.imp fun {x y} hxy hx hy => ?_
        have hx' : first ≠ x := by
          rintro rfl
          simp at hx
        have hy' : first ≠ y := by
          rintro rfl
          simp at hy
        simpa [List.findIdx_cons, hs, hx', hy'] using hxy

end Distinct

namespace Body
variable {b : Body}

/-- Every statement of the body was built. -/
def Built (b : Body) : Prop := ∀ s ∈ b.statements, s.IsBuilt

/-- Where the body defines a label first. -/
def firstDefinition (b : Body) (x : String) : Nat := b.statements.findIdx fun s => s.label? = some x

/-- The renamings number the local labels that the body defines, each of them once and in the order
of their first definitions, from zero on. -/
structure Numbers (b : Body) (renames : List (String × String)) : Prop where
  mem_iff : ∀ x, x ∈ renames.map Prod.fst ↔
    Name.isLocalLabel x = true ∧ ∃ s ∈ b.statements, s.label? = some x
  ordered : (renames.map Prod.fst).Pairwise fun x y => b.firstDefinition x < b.firstDefinition y
  numbered : renames.map Prod.snd = (List.range renames.length).map Name.canonical

theorem map_fst_renames (b : Body) : b.renames.map Prod.fst = b.localLabels := by
  rw [renames, List.map_map]
  exact List.zipIdx_map_fst 0 b.localLabels

theorem map_snd_renames (b : Body) :
    b.renames.map Prod.snd = (List.range b.renames.length).map Name.canonical := by
  have hlength : b.renames.length = b.localLabels.length := by
    rw [← map_fst_renames, List.length_map]
  have hnumbers : b.localLabels.zipIdx.map Prod.snd = List.range b.renames.length := by
    rw [List.zipIdx_map_snd, hlength, List.range_eq_range']
  rw [← hnumbers, List.map_map, renames, List.map_map]
  rfl

theorem pairwise_localLabels (b : Body) :
    b.localLabels.Pairwise fun x y => b.firstDefinition x < b.firstDefinition y := by
  have hlabels : b.localLabels =
      distinct (b.statements.filterMap fun s => s.label?.filter Name.isLocalLabel) := by
    rw [localLabels, List.filter_filterMap]
  have hfirst : ∀ x ∈ b.localLabels, b.firstDefinition x =
      b.statements.findIdx fun s => s.label?.filter Name.isLocalLabel = some x := by
    intro x hx
    have hlocal := (mem_localLabels_iff.mp hx).1
    unfold firstDefinition
    congr 1
    funext s
    simp [Option.filter_eq_some_iff, hlocal]
  have hpairwise := pairwise_findIdx_distinct (fun s => s.label?.filter Name.isLocalLabel) b.statements
  rw [← hlabels] at hpairwise
  refine hpairwise.imp_of_mem fun {x y} hx hy hxy => ?_
  rwa [hfirst x hx, hfirst y hy]

theorem numbers_renames (b : Body) : b.Numbers b.renames where
  mem_iff x := by rw [map_fst_renames, mem_localLabels_iff]
  ordered := by
    rw [map_fst_renames]
    exact b.pairwise_localLabels
  numbered := b.map_snd_renames

theorem labels_normalize (h : b.Built) :
    b.normalize.labels = b.labels.map (canonicalName b.localLabels) := by
  rw [labels, statements_normalize_eq_substitute, List.filterMap_map, ← image_renames, labels,
    List.map_filterMap]
  exact List.filterMap_congr fun s hs => (h s hs).label?_substitute b.renames

/-- A local label that the body defines gets a name which is no local label. -/
theorem isLocalLabel_canonicalName {x : String} (hx : x ∈ b.labels) :
    Name.isLocalLabel (canonicalName b.localLabels x) = false := by
  by_cases hmem : x ∈ b.localLabels
  · obtain ⟨n, -, hn⟩ := exists_canonicalName_eq hmem
    rw [hn, Name.isLocalLabel_canonical]
  · rw [canonicalName_of_not_mem hmem]
    by_contra hlocal
    exact hmem (mem_localLabels_iff.mpr ⟨by simpa using hlocal, mem_labels_iff.mp hx⟩)

theorem localLabels_normalize (h : b.Built) : b.normalize.localLabels = [] := by
  have hnone : b.normalize.labels.filter Name.isLocalLabel = [] := by
    rw [labels_normalize h, List.filter_eq_nil_iff]
    intro y hy
    obtain ⟨x, hx, rfl⟩ := List.mem_map.mp hy
    rw [isLocalLabel_canonicalName hx]
    exact Bool.false_ne_true
  rw [localLabels_eq, hnone]
  rfl

theorem renames_normalize (h : b.Built) : b.normalize.renames = [] := by
  rw [renames, localLabels_normalize h]
  rfl

/-- Normalization replaces all names at once by their images under its renamings, which number the
local labels in the order of their first definitions; after that there is nothing left to rename,
and normalizing again changes nothing. -/
theorem normalize_isSubstitution {b : Body} (h : b.Built) :
    b.normalize.statements = b.statements.map (Statement.substitute b.renames) ∧
      b.Numbers b.renames ∧ b.normalize.renames = [] ∧ b.normalize.normalize = b.normalize := by
  refine ⟨b.statements_normalize_eq_substitute, b.numbers_renames, renames_normalize h, ?_⟩
  rw [normalize, renames_normalize h]
  rfl

/-- Labels of every sort: defined twice, without a name, of one letter, canonical already, called
like a section, and with another first word. -/
def oddLabels : Body :=
  { name := "f", kind := .function
    statements :=
      Statement.ofSource "a.s"
        ".L2:jmp .L2;:;.type a,@object;a:call a;.section .L2;.L2:~ASMTOOL0:.size .L2,1" ++
      [{ text := ".L7:", mnemonic := "start", kind := .label, detail := some (.label ".L7") }] }

theorem built_oddLabels : oddLabels.Built := by
  intro s hs
  rcases List.mem_append.mp hs with hs | hs
  · exact (Statement.wellFormed_of_mem_ofSource hs).isBuilt
  · rw [List.mem_singleton.mp hs]
    exact ⟨".L7:", "start", .label, [], some (.label ".L7"), none, rfl⟩

theorem normalize_isSubstitution_oddLabels :
    oddLabels.Built ∧ oddLabels.renames =
        [(".L2", "~ASMTOOL0"), ("", "~ASMTOOL1"), ("a", "~ASMTOOL2"), (".L7", "~ASMTOOL3")] ∧
      oddLabels.normalize.statements =
        oddLabels.statements.map (Statement.substitute oddLabels.renames) ∧
      oddLabels.normalize.renames = [] ∧ oddLabels.normalize.normalize = oddLabels.normalize := by
  have hrenames : oddLabels.renames =
      [(".L2", "~ASMTOOL0"), ("", "~ASMTOOL1"), ("a", "~ASMTOOL2"), (".L7", "~ASMTOOL3")] := by
    decide +kernel
  obtain ⟨hstatements, -, hnone, hagain⟩ := normalize_isSubstitution built_oddLabels
  exact ⟨built_oddLabels, hrenames, hstatements, hnone, hagain⟩

end Body

end AsmCompare
