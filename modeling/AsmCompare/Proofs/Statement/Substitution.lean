import AsmCompare.Proofs.Statement.MapNames

/-! # Renamings one after the other

A list of renamings acts on a statement in two ways: one renaming after the other, or all at once,
each name going to its image. The two agree as long as no name that was given is renamed again, for
any statement; that the detail fits the kind, or that a label is its own first word, is not needed.
-/
namespace AsmCompare.Statement

/-- What a name becomes under renamings that act at once. -/
def image (renames : List (String × String)) (x : String) : String := (renames.lookup x).getD x

/-- The statement with every name replaced by its image, all at once: the name of a label, the symbol
of a directive and the identifiers of the operands. A label that gets a new name gets it as its first
word too. Statements that select a section are left alone. -/
def substitute (renames : List (String × String)) (s : Statement) : Statement :=
  if s.kind.isSection then s
  else
    { s with
      operands := s.operands.map (List.map (Token.mapName (image renames)))
      mnemonic := (s.label?.bind (renames.lookup ·)).getD s.mnemonic
      detail := s.detail.map (Detail.mapName (image renames)) }

section
variable {renames : List (String × String)} {old new : String} {s : Statement}

theorem image_nil : image [] = id := rfl

theorem kind_substitute : (s.substitute renames).kind = s.kind := by
  unfold substitute
  split <;> rfl

theorem substitute_of_isSection (h : s.kind.isSection = true) : s.substitute renames = s := by
  rw [substitute, if_pos h]

theorem label?_substitute (h : s.kind.isSection = false) :
    (s.substitute renames).label? = s.label?.map (image renames) := by
  unfold substitute label?
  simp only [h, Bool.false_eq_true, ↓reduceIte]
  cases s.detail with
  | none => rfl
  | some d => cases d <;> rfl

/-- A further renaming whose old name no earlier one gives takes hold of exactly the names that have
become its old name. -/
theorem lookup_concat (h : old ∉ renames.map Prod.snd) (x : String) :
    (renames ++ [(old, new)]).lookup x =
      if image renames x = old then some new else renames.lookup x := by
  rw [List.lookup_append, image]
  cases hx : renames.lookup x with
  | none => simp [List.lookup_singleton]
  | some y =>
    have hmem : y ∈ renames.map Prod.snd := by
      obtain ⟨before, after, hsplit, -⟩ := List.lookup_eq_some_iff.mp hx
      simp [hsplit]
    have hne : y ≠ old := ne_of_mem_of_not_mem hmem h
    simp [hne]

theorem image_concat (h : old ∉ renames.map Prod.snd) :
    image (renames ++ [(old, new)]) = (fun y => if y = old then new else y) ∘ image renames := by
  funext x
  rw [image, lookup_concat h, Function.comp_apply]
  split <;> rfl

theorem substitute_nil : s.substitute [] = s := by
  have hdetail : Detail.mapName id = id := funext Detail.mapName_id
  have hmnemonic : (s.label?.bind (([] : List (String × String)).lookup ·)).getD s.mnemonic =
      s.mnemonic := by
    cases s.label? <;> rfl
  rw [substitute, image_nil, Token.map_mapName_id, hdetail, hmnemonic, List.map_id,
    Option.map_id_apply]
  split <;> rfl

/-- Renaming after a substitution is a substitution again, if no name that was given is renamed. -/
theorem rename_substitute (h : old ∉ renames.map Prod.snd) :
    (s.substitute renames).rename old new = s.substitute (renames ++ [(old, new)]) := by
  cases hk : s.kind.isSection with
  | true => rw [substitute_of_isSection hk, substitute_of_isSection hk, rename, if_pos hk]
  | false =>
    have hmnemonic : (if s.label?.map (image renames) = some old then new
        else (s.label?.bind (renames.lookup ·)).getD s.mnemonic) =
          (s.label?.bind ((renames ++ [(old, new)]).lookup ·)).getD s.mnemonic := by
      cases s.label? with
      | none => rfl
      | some x =>
        simp only [Option.map_some, Option.some.injEq, Option.bind_some, lookup_concat h]
        split <;> rfl
    have htoken : Token.rename old new ∘ Token.mapName (image renames) =
        Token.mapName (image (renames ++ [(old, new)])) := by
      funext t
      rw [Function.comp_apply, Token.rename_eq_mapName, Token.mapName_mapName, image_concat h]
    have hdetail : Detail.rename old new ∘ Detail.mapName (image renames) =
        Detail.mapName (image (renames ++ [(old, new)])) := by
      funext d
      rw [Function.comp_apply, Detail.rename_eq_mapName, Detail.mapName_mapName, image_concat h]
    rw [rename, kind_substitute, hk, label?_substitute hk]
    simp only [substitute, hk, Bool.false_eq_true, ↓reduceIte, hmnemonic, List.map_map,
      List.map_comp_map, htoken, Option.map_map, hdetail]

/-- For a label that is its own first word, the images say all. -/
theorem WellFormed.substitute_eq_mapNames (h : s.WellFormed) :
    s.substitute renames = s.mapNames (image renames) := by
  have hmnemonic : (s.label?.bind (renames.lookup ·)).getD s.mnemonic =
      (s.label?.map (image renames)).getD s.mnemonic := by
    cases hl : s.label? with
    | none => rfl
    | some x =>
      rw [h.labelled x hl]
      rfl
  rw [substitute, Statement.mapNames, hmnemonic]

end

end AsmCompare.Statement
