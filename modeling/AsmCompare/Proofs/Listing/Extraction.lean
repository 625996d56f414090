import AsmCompare.Proofs.Body.Relabeling
import AsmCompare.Proofs.Listing.Resolution
import AsmCompare.Proofs.Statement.Lines

/-! # Bodies and what they are cut from

A body is cut from the statements after the definition of its symbol, and the statements that go
with it are the last ones of their sort. Where the statements stand plays no part.
-/
namespace AsmCompare.Listing
open Statement (unplaced)

section Search
variable {p : Statement → Prop} {before after ss : List Statement} {s : Statement}

theorem isGreatest_positions_append (hs : p s) (hafter : ∀ t ∈ after, ¬ p t) :
    IsGreatest (positions p (before ++ s :: after)) before.length := by
  refine ⟨⟨s, by simp, hs⟩, ?_⟩
  rintro i ⟨t, hi, ht⟩
  by_contra hlt
  obtain ⟨k, rfl⟩ : ∃ k, i = before.length + (k + 1) := ⟨i - before.length - 1, by omega⟩
  rw [List.getElem?_append_right (by omega), Nat.add_sub_cancel_left, List.getElem?_cons_succ] at hi
  exact hafter t (List.mem_of_getElem? hi) ht

/-- The statements around the last one with a property. -/
theorem exists_append_of_isGreatest {i : Nat} (h : IsGreatest (positions p ss) i) :
    ∃ before s after, ss = before ++ s :: after ∧ before.length = i ∧ p s ∧ ∀ t ∈ after, ¬ p t := by
  obtain ⟨⟨s, hi, hs⟩, hlast⟩ := h
  obtain ⟨hlt, rfl⟩ := List.getElem?_eq_some_iff.mp hi
  refine ⟨ss.take i, _, ss.drop (i + 1), ?_, by simp; omega, hs, ?_⟩
  · rw [← List.drop_eq_getElem_cons hlt, List.take_append_drop]
  · intro t ht hp
    obtain ⟨k, hk⟩ := List.mem_iff_getElem?.mp ht
    rw [List.getElem?_drop] at hk
    have := hlast ⟨t, hk, hp⟩
    omega

variable [DecidablePred p]

theorem last?_eq_none_iff : last? p ss = none ↔ ∀ s ∈ ss, ¬ p s := by
  simp [last?]

theorem last?_append : last? p (before ++ after) = (last? p after).or (last? p before) := by
  simp [last?, List.find?_append]

theorem last?_congr {q : Statement → Prop} [DecidablePred q] (h : ∀ s ∈ ss, p s ↔ q s) :
    last? p ss = last? q ss := by
  induction ss using List.reverseRecOn with
  | nil => rfl
  | append_singleton ss s ih =>
    have hs := h s (List.mem_append_right ss (List.mem_singleton_self s))
    simp only [last?_concat, hs, ih fun t ht => h t (List.mem_append_left _ ht)]

theorem mem_afterLast_append (hs : s ∈ after) (hafter : ∀ t ∈ after, ¬ p t) :
    s ∈ afterLast p (before ++ after) := by
  have hall : ∀ t ∈ after.reverse, decide (¬ p t) = true := by simpa using hafter
  rw [afterLast, List.reverse_append, List.takeWhile_append_of_pos hall, List.reverse_append,
    List.reverse_reverse]
  exact List.mem_append_right _ hs

theorem last?_append_cons (hs : p s) (hafter : ∀ t ∈ after, ¬ p t) :
    last? p (before ++ s :: after) = some s := by
  rw [List.append_cons, last?_append, last?_eq_none_iff.mpr hafter, last?_concat, if_pos hs]
  rfl

theorem IsLast.bind_getElem? {place : Option Nat} (h : IsLast place (positions p ss)) :
    place.bind (ss[·]?) = last? p ss := by
  cases place with
  | none =>
    refine (last?_eq_none_iff.mpr ?_).symm
    intro s hs hp
    obtain ⟨i, hi⟩ := List.mem_iff_getElem?.mp hs
    have hmem : i ∈ positions p ss := ⟨s, hi, hp⟩
    rw [h.eq_empty] at hmem
    cases hmem
  | some i =>
    obtain ⟨before, s, after, rfl, rfl, hs, hafter⟩ := exists_append_of_isGreatest ((h i).mp rfl)
    rw [last?_append_cons hs hafter]
    simp

/-- The last statement of a narrower sort, if it is the last one of the wider sort. -/
theorem last?_of_imp {q : Statement → Prop} [DecidablePred q] (himp : ∀ s, q s → p s)
    (h : last? p ss = some s) (hq : q s) : last? q ss = some s := by
  induction ss using List.reverseRecOn with
  | nil => cases h
  | append_singleton ss t ih =>
    rw [last?_concat] at h ⊢
    by_cases ht : p t
    · rw [if_pos ht] at h
      cases h
      rw [if_pos hq]
    · rw [if_neg ht] at h
      rw [if_neg fun hqt => ht (himp t hqt), ih h]

end Search

section Kinds
variable {name : String} {s : Statement}

theorem symbol?_of_declares (h : Declares name s) : s.symbol? = some name := by
  rcases h with h | h | h
  · exact h.2
  · exact h.2
  · exact h.2

/-- Statements that neither define a symbol nor give one a kind. -/
def IsAside (s : Statement) : Prop :=
  s.kind ≠ .type ∧ s.kind ≠ .label ∧ s.kind.isCommon = false

theorem isAside_of_isSection (h : s.kind.isSection = true) : IsAside s := by
  unfold IsAside
  revert h
  cases s.kind <;> decide

theorem isAside_of_isAlignment (h : s.kind.isAlignment = true) : IsAside s := by
  unfold IsAside
  revert h
  cases s.kind <;> decide

theorem isAside_of_isData (h : s.kind.isData = true) : IsAside s := by
  unfold IsAside
  revert h
  cases s.kind <;> decide

theorem isAside_of_size (h : s.kind = .size) : IsAside s := by
  unfold IsAside
  rw [h]
  decide

theorem isLabelOf_or_isCommon (h : Defines name s) :
    IsLabelOf name s ∨ s.kind.isCommon = true ∧ s.symbol? = some name := by
  rcases h with h | ⟨hk, hsymbol⟩ | ⟨hk, hsymbol⟩
  · exact .inl h
  · exact .inr ⟨by rw [hk]; rfl, hsymbol⟩
  · exact .inr ⟨by rw [hk]; rfl, hsymbol⟩

theorem isAbout_of_isCommon (hk : s.kind.isCommon = true) (hsymbol : s.symbol? = some name) :
    IsAbout .common name s ∨ IsAbout .localCommon name s := by
  revert hk
  cases hkind : s.kind with
  | common =>
    intro _
    exact .inl ⟨hkind, hsymbol⟩
  | localCommon =>
    intro _
    exact .inr ⟨hkind, hsymbol⟩
  | _ =>
    intro h
    cases h

theorem not_declares_of_kind (htype : s.kind ≠ .type) (hcommon : s.kind.isCommon = false) :
    ¬ Declares name s := by
  rintro (⟨hk, -⟩ | ⟨hk, -⟩ | ⟨hk, -⟩)
  · exact htype hk
  · rw [hk] at hcommon
    cases hcommon
  · rw [hk] at hcommon
    cases hcommon

theorem IsAside.not_defines (h : IsAside s) : ¬ Defines name s := by
  intro hdefines
  rcases isLabelOf_or_isCommon hdefines with hlabel | ⟨hcommon, -⟩
  · exact h.2.1 hlabel.1
  · rw [h.2.2] at hcommon
    cases hcommon

theorem IsAside.not_declares (h : IsAside s) : ¬ Declares name s := not_declares_of_kind h.1 h.2.2

theorem isAbout_or_isCommon (h : Declares name s) :
    IsAbout .type name s ∨ s.kind.isCommon = true ∧ Defines name s := by
  rcases h with h | h | h
  · exact .inl h
  · exact .inr ⟨by rw [h.1]; rfl, .inr (.inl h)⟩
  · exact .inr ⟨by rw [h.1]; rfl, .inr (.inr h)⟩

end Kinds

section Places
variable (file other : String) (ss : List Statement) (name : String) (strip : Bool)

theorem entry_unplaced : (ofStatements other (ss.map unplaced)).symbols.entry name =
    (ofStatements file ss).symbols.entry name := by
  rw [entry_ofStatements, entry_ofStatements, List.zipIdx_map, List.foldl_map]
  rfl

theorem kindOf_unplaced : (ofStatements other (ss.map unplaced)).kindOf name =
    (ofStatements file ss).kindOf name := by
  rw [kindOf_eq, kindOf_eq, entry_unplaced file]

theorem functionStatements_unplaced (start : Nat) :
    (ofStatements other (ss.map unplaced)).functionStatements strip name start =
      ((ofStatements file ss).functionStatements strip name start).map unplaced :=
  functionStatements_map strip rfl Statement.kind_unplaced (fun _ _ => Iff.rfl)
    (fun _ _ => rfl) start

theorem continuesObject_unplaced (s : Statement) :
    (ofStatements other (ss.map unplaced)).continuesObject s.unplaced =
      (ofStatements file ss).continuesObject s := by
  have hstarts : (ofStatements other (ss.map unplaced)).startsSymbol s.unplaced =
      (ofStatements file ss).startsSymbol s := by
    have hlabel : s.unplaced.label? = s.label? := rfl
    unfold startsSymbol
    rw [hlabel]
    cases s.label? with
    | none => rfl
    | some name => simp only [kindOf_unplaced file]
  rw [continuesObject, continuesObject, hstarts]
  rfl

theorem objectStatements_unplaced (start : Nat) :
    (ofStatements other (ss.map unplaced)).objectStatements strip start =
      ((ofStatements file ss).objectStatements strip start).map unplaced :=
  objectStatements_map strip rfl Statement.kind_unplaced
    (fun s _ => continuesObject_unplaced file other ss s) start

end Places

section Bodies
variable {l : Listing} {name : String} {strip : Bool} {kind : Symbol.Kind} {b : Body}

theorem map_statements_body? (l : Listing) (strip : Bool) (name : String) :
    (l.body? strip name).map Body.statements =
      if l.hasFunction name then (l.definedAs? name .function).map (l.functionStatements strip name)
      else (l.definedAs? name .object).map (l.objectStatements strip) := by
  unfold body?
  split
  · exact map_statements_function? l strip name
  · exact map_statements_object? l strip name

theorem map_forms_body?_unplaced (file other : String) (ss : List Statement) (name : String)
    (strip : Bool) : ((ofStatements other (ss.map unplaced)).body? strip name).map Body.forms =
      ((ofStatements file ss).body? strip name).map Body.forms := by
  have hforms : Body.forms = List.map Statement.form ∘ Body.statements := rfl
  have hform : Statement.form ∘ unplaced = Statement.form := rfl
  have hdefined : ∀ kind, (ofStatements other (ss.map unplaced)).definedAs? name kind =
      (ofStatements file ss).definedAs? name kind := by
    intro kind
    rw [definedAs?, definedAs?, entry_unplaced file]
  have hfunction : (ofStatements other (ss.map unplaced)).hasFunction name =
      (ofStatements file ss).hasFunction name := by
    rw [hasFunction, hasFunction, kindOf_unplaced file]
  rw [hforms, ← Option.map_map, ← Option.map_map, map_statements_body?, map_statements_body?,
    hfunction, hdefined, hdefined]
  split
  · rw [Option.map_map, Option.map_map]
    congr 1
    funext start
    rw [Function.comp_apply, Function.comp_apply, functionStatements_unplaced file, List.map_map,
      hform]
  · rw [Option.map_map, Option.map_map]
    congr 1
    funext start
    rw [Function.comp_apply, Function.comp_apply, objectStatements_unplaced file, List.map_map,
      hform]

section Split
variable {before after : List Statement} {first : Statement}
  (hl : l.statements = before ++ first :: after)
include hl

theorem drop_length_succ : l.statements.drop (before.length + 1) = after := by
  simp [hl]

theorem functionStatements_length :
    l.functionStatements strip name before.length =
      (after.takeWhile fun s => !(s.kind = .size && s.symbol? = some name)).filter fun s =>
        !(strip && isFunctionDebug s) := by
  rw [functionStatements_eq, drop_length_succ hl]

theorem objectStatements_length_of_isCommon (hcommon : first.kind.isCommon = true) :
    l.objectStatements strip before.length = [first] :=
  objectStatements_of_isCommon l strip (by simp [hl]) hcommon

theorem objectStatements_length (hcommon : first.kind.isCommon = false) :
    l.objectStatements strip before.length =
      (after.takeWhile l.continuesObject).filter fun s => !(strip && s.kind.isDebug) := by
  rw [objectStatements_of_not_isCommon l strip (by simp [hl]) hcommon, drop_length_succ hl]

end Split

/-- The statements, debug statements apart, of a symbol of this kind that is defined at `start`. -/
def strippedStatements (l : Listing) (name : String) (kind : Symbol.Kind) (start : Nat) :
    List Statement :=
  if kind = .function then l.functionStatements true name start else l.objectStatements true start

theorem mem_of_mem_strippedStatements {start : Nat} {s : Statement}
    (h : s ∈ l.strippedStatements name kind start) : s ∈ l.statements := by
  unfold strippedStatements at h
  split at h
  · exact mem_of_mem_functionStatements h
  · exact mem_of_mem_objectStatements h

theorem exists_body?_of_append {file : String} {before after : List Statement} {first : Statement}
    (hk : kind ≠ .unknown)
    (h : (ofStatements file (before ++ first :: after)).kindOf name = kind)
    (hfirst : Defines name first) (hafter : ∀ s ∈ after, ¬ Defines name s) :
    ∃ b, (ofStatements file (before ++ first :: after)).body? true name = some b ∧
      b.statements = (ofStatements file (before ++ first :: after)).strippedStatements name kind
        before.length := by
  have hstart : (ofStatements file (before ++ first :: after)).definedAs? name kind =
      some before.length := by
    have hsome := (kindOf_eq_iff _ _ hk).mp h
    have hlast := (definedAt_run file name (before ++ first :: after) before.length).mpr
      (isGreatest_positions_append hfirst hafter)
    unfold definedAs? at hsome ⊢
    split
    · exact hlast
    · next hkind =>
      rw [if_neg hkind] at hsome
      cases hsome
  have hstatements := map_statements_body? (ofStatements file (before ++ first :: after)) true name
  cases kind with
  | unknown => exact absurd rfl hk
  | function =>
    have hfunction := decide_eq_true h
    rw [hasFunction, hfunction, if_pos rfl, hstart] at hstatements
    exact Option.map_eq_some_iff.mp hstatements
  | object =>
    have hfunction : (ofStatements file (before ++ first :: after)).hasFunction name = false := by
      rw [hasFunction, h]
      rfl
    rw [hfunction, if_neg Bool.false_ne_true, hstart] at hstatements
    exact Option.map_eq_some_iff.mp hstatements

theorem exists_bodyOf_of_body? (h : l.body? strip name = some b) :
    ∃ symbol range, l.symbol? name = some symbol ∧ b = l.bodyOf symbol range := by
  unfold body? at h
  split at h
  · obtain ⟨symbol, hsymbol, h⟩ := Option.bind_eq_some_iff.mp h
    obtain ⟨start, -, h⟩ := Option.bind_eq_some_iff.mp h
    obtain ⟨-, -, h⟩ := Option.bind_eq_some_iff.mp h
    exact ⟨symbol, _, hsymbol, (Option.some.inj h).symm⟩
  · obtain ⟨symbol, hsymbol, h⟩ := Option.bind_eq_some_iff.mp h
    obtain ⟨start, -, h⟩ := Option.bind_eq_some_iff.mp h
    obtain ⟨-, -, h⟩ := Option.bind_eq_some_iff.mp h
    exact ⟨symbol, _, hsymbol, (Option.some.inj h).symm⟩

end Bodies

/-- What the body of a symbol of a file consists of. -/
structure Extracted (l : Listing) (name : String) (b : Body) : Prop where
  name_eq : b.name = name
  kind_eq : b.kind = l.kindOf name
  sectionStatement : ∀ s ∈ b.sectionStatement, s ∈ l.statements ∧ s.kind.isSection = true
  alignment : ∀ s ∈ b.alignment, s ∈ l.statements ∧ s.kind.isAlignment = true
  typeStatement : b.typeStatement = last? (IsAbout .type name) l.statements
  size : b.size = last? (IsAbout .size name) l.statements
  statements : ∃ before first after, l.statements = before ++ first :: after ∧ Defines name first ∧
    (∀ s ∈ after, ¬ Defines name s) ∧
    b.statements = l.strippedStatements name b.kind before.length

namespace Extracted
variable {l : Listing} {name : String} {b : Body} (hb : Extracted l name b) {s : Statement}
include hb

theorem exists_defines : ∃ first ∈ l.statements, Defines name first := by
  obtain ⟨before, first, after, hsplit, hfirst, -, -⟩ := hb.statements
  refine ⟨first, ?_, hfirst⟩
  rw [hsplit]
  exact List.mem_append_right before List.mem_cons_self

theorem mem_statements (hs : s ∈ b.statements) : s ∈ l.statements := by
  obtain ⟨before, first, after, -, -, -, hstatements⟩ := hb.statements
  rw [hstatements] at hs
  exact mem_of_mem_strippedStatements hs

theorem mem_typeStatement (hs : s ∈ b.typeStatement) : s ∈ l.statements ∧ IsAbout .type name s := by
  rw [hb.typeStatement] at hs
  exact of_last?_eq_some hs

theorem mem_size (hs : s ∈ b.size) : s ∈ l.statements ∧ IsAbout .size name s := by
  rw [hb.size] at hs
  exact of_last?_eq_some hs

end Extracted

theorem mem_and_of_mem_positions {p : Statement → Prop} {l : Listing} {place : Option Nat}
    (h : ∀ i, place = some i → i ∈ positions p l.statements) :
    ∀ s ∈ place.bind (l.statements[·]?), s ∈ l.statements ∧ p s := by
  intro s hs
  obtain ⟨i, hi, hget⟩ := Option.bind_eq_some_iff.mp hs
  obtain ⟨t, ht, hp⟩ := h i hi
  cases hget.symm.trans ht
  exact ⟨List.mem_of_getElem? hget, hp⟩

theorem exists_extracted {file source name : String} (h : (load file source).kindOf name ≠ .unknown) :
    ∃ b, (load file source).body? true name = some b ∧ Extracted (load file source) name b := by
  have hss : ∀ s ∈ (load file source).statements, s.WellFormed := fun s hs =>
    Statement.wellFormed_of_mem_ofSource hs
  have hmarks := bookmarks_run file name hss
  have hentry : (load file source).symbols.entry name =
      ⟨((Scan.run file (load file source).statements).symbols.symbolOf name).kind,
        ((Scan.run file (load file source).statements).symbols.symbolOf name).definedAt⟩ := rfl
  have hdefined : ((Scan.run file (load file source).statements).symbols.symbolOf name).definedAt.isSome =
      true := by
    by_contra hnone
    apply h
    rw [kindOf_eq, hentry]
    exact if_neg hnone
  obtain ⟨d, hd⟩ := Option.isSome_iff_exists.mp hdefined
  obtain ⟨before, first, after, hsplit, -, hfirst, hafter⟩ :=
    exists_append_of_isGreatest ((hmarks.definedAt d).mp hd)
  have hload : load file source = ofStatements file (before ++ first :: after) := by
    rw [← hsplit]
    rfl
  obtain ⟨b, hb, hcut⟩ := exists_body?_of_append h (by rw [hload]) hfirst hafter
  rw [← hload] at hb hcut
  obtain ⟨symbol, range, hsymbol, hbody⟩ := exists_bodyOf_of_body? hb
  have hsame : (Scan.run file (load file source).statements).symbols.symbolOf name = symbol :=
    symbolOf_eq_of_symbol? hsymbol
  rw [hsame] at hmarks hd
  have hkind : b.kind = (load file source).kindOf name := by
    rw [kindOf, hsymbol, hbody]
    simp [bodyOf, Symbol.definedKind, Symbol.isDefined, hd]
  refine ⟨b, hb, ?_, hkind, ?_, ?_, ?_, ?_, before, first, after, hsplit, hfirst, hafter, ?_⟩
  · rw [hbody, bodyOf, ← hsame, Scan.name_run]
  · rw [hbody]
    refine fun s hs => ?_
    obtain ⟨hmem, hselects⟩ := mem_and_of_mem_positions (fun i hi => (hmarks.sectionAt i hi).1) s hs
    exact ⟨hmem, hselects.1⟩
  · rw [hbody]
    refine mem_and_of_mem_positions fun i hi => ?_
    obtain ⟨j, -, haligns⟩ := (hmarks.alignAt i).mp hi
    exact haligns.1
  · rw [hbody]
    exact hmarks.typeAt.bind_getElem?
  · rw [hbody]
    exact hmarks.sizeAt.bind_getElem?
  · rw [hcut, hkind]

end AsmCompare.Listing
