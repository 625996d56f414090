import AsmCompare.Proofs.Listing.Extraction
import Mathlib.Data.List.TakeWhile

/-! # Copies that are loaded again

A copy puts the section, the alignment and the type of a symbol in front of its label and the size
after its body. The type that is copied is the last one of the file, wherever it stood, and the
types of other symbols are not copied. So a function keeps its kind unless a type in its own body
takes it away, an object keeps its kind unless the copied type is that of a function, and an object
keeps its statements unless one of its inner labels could be a symbol.
-/
namespace AsmCompare.Report
open Listing Statement

/-- The statements in front of the label of a copy. -/
def front (b : Body) : List Statement :=
  b.sectionStatement.toList ++ b.alignment.toList ++ b.typeStatement.toList

/-- The statements of a copy that has a label. -/
def written (b : Body) : List Statement :=
  front b ++ ofLabel b.name :: (b.statements ++ b.size.toList)

section Reading
variable {file source name : String} {b : Body} {s : Statement}

theorem accepts_of_isCommon (hs : s ∈ ofSource file source) (hk : s.kind.isCommon = true)
    (hsymbol : s.symbol? = some name) : Token.Kind.identifier.accepts name.toList = true := by
  apply accepts_of_symbol? hs _ hsymbol
  intro hlabel
  rw [hlabel] at hk
  cases hk

theorem isTracked_of_defines (hs : s ∈ ofSource file source) (h : Defines name s) :
    Name.isTracked name = true := by
  rcases isLabelOf_or_isCommon h with h | ⟨hk, hsymbol⟩
  · exact h.2.2
  · exact Token.isTracked_of_accepts (accepts_of_isCommon hs hk hsymbol)

theorem reads_label (hs : s ∈ ofSource file source) (h : Defines name s) :
    Reads (name ++ ":") (ofLabel name) := by
  rcases isLabelOf_or_isCommon h with h | ⟨hk, hsymbol⟩
  · exact reads_label_of_label? hs h.2.1
  · exact reads_label_of_accepts (accepts_of_isCommon hs hk hsymbol)

theorem forall₂_directiveLine {o : Option Statement} (h : ∀ s ∈ o, s ∈ ofSource file source) :
    List.Forall₂ Reads (directiveLine o) o.toList := by
  cases o with
  | none => exact .nil
  | some s => exact .cons (reads_tab (h s rfl)) .nil

end Reading

section Loading
variable {lines : List String} {ss : List Statement} (h : List.Forall₂ Reads lines ss)
  (other name : String)
include h

theorem kindOf_load_unlines :
    (load other (unlines lines)).kindOf name = (ofStatements other ss).kindOf name := by
  have hsame := map_unplaced_ofSource h other
  rw [load, ← kindOf_unplaced other other, hsame, kindOf_unplaced other other]

theorem map_forms_load_unlines : ((load other (unlines lines)).body? true name).map Body.forms =
    ((ofStatements other ss).body? true name).map Body.forms := by
  have hsame := map_unplaced_ofSource h other
  rw [load, ← map_forms_body?_unplaced other other, hsame, map_forms_body?_unplaced other other]

theorem exists_body?_load_unlines {c : Body}
    (hc : (ofStatements other ss).body? true name = some c) :
    ∃ d, (load other (unlines lines)).body? true name = some d ∧ d.forms = c.forms := by
  have hforms := map_forms_load_unlines h other name
  rw [hc] at hforms
  exact Option.map_eq_some_iff.mp hforms

end Loading

theorem copy_singleton {l : Listing} {name : String} {b : Body} (h : l.body? true name = some b) :
    (copy l [name]).1 = unlines (copyLines l b) := by
  simp [copy, h]

theorem commonStatement?_eq_some_iff {b : Body} {s : Statement} :
    commonStatement? b = some s ↔ b.statements = [s] ∧ s.kind.isCommon = true := by
  unfold commonStatement?
  split
  · next t ht =>
    rw [ht]
    split
    · next hk =>
      constructor
      · rintro ⟨⟩
        exact ⟨rfl, hk⟩
      · rintro ⟨⟨⟩, -⟩
        rfl
    · next hk =>
      constructor
      · rintro ⟨⟩
      · rintro ⟨⟨⟩, h⟩
        exact absurd h hk
  · next h =>
    constructor
    · rintro ⟨⟩
    · rintro ⟨hs, -⟩
      exact absurd hs (h s)

theorem not_declares_ofLabel (name label : String) : ¬ Declares name (ofLabel label) :=
  not_declares_of_kind (by simp [ofLabel]) rfl

theorem last?_toList_of_isAside (name : String) {o : Option Statement} (h : ∀ s ∈ o, IsAside s) :
    last? (Declares name) o.toList = none := by
  rw [last?_eq_none_iff]
  intro s hs
  exact (h s (Option.mem_toList.mp hs)).not_declares

theorem wellFormed_of_forall₂ {lines : List String} {ss : List Statement}
    (h : List.Forall₂ Reads lines ss) : ∀ s ∈ ss, s.WellFormed := by
  induction h with
  | nil =>
    intro s hs
    cases hs
  | cons hline _ ih =>
    intro s hs
    rcases List.mem_cons.mp hs with rfl | hs
    · exact hline.wellFormed
    · exact ih s hs

theorem statements_written (other : String) (b : Body) :
    (ofStatements other (written b)).statements =
      front b ++ ofLabel b.name :: (b.statements ++ b.size.toList) := rfl

theorem ofLabel_mem_written (b : Body) : ofLabel b.name ∈ written b :=
  List.mem_append_right _ List.mem_cons_self

theorem takeWhile_append_of_head? {p : Statement → Bool} {xs ys : List Statement}
    (h : ∀ s ∈ ys.head?, p s = false) : (xs ++ ys).takeWhile p = xs.takeWhile p := by
  induction xs with
  | nil =>
    cases ys with
    | nil => rfl
    | cons s ys =>
      rw [List.nil_append, List.takeWhile_cons_of_neg (by simp [h s rfl])]
      rfl
  | cons s xs ih => rw [List.cons_append, List.takeWhile_cons, List.takeWhile_cons, ih]

section Written
variable {file source name : String} {b : Body} (hb : Extracted (load file source) name b)
include hb

theorem forall₂_copyLines (hnone : commonStatement? b = none) :
    List.Forall₂ Reads (copyLines (load file source) b) (written b) := by
  obtain ⟨first, hmem, hfirst⟩ := hb.exists_defines
  have hlabel := reads_label hmem hfirst
  rw [← hb.name_eq] at hlabel
  have hbody : List.Forall₂ Reads (b.statements.map sourceLine) b.statements := by
    rw [List.forall₂_map_left_iff, List.forall₂_same]
    intro s hs
    exact reads_sourceLine (hb.mem_statements hs)
  have hsection := forall₂_directiveLine fun s hs => (hb.sectionStatement s hs).1
  have halignment := forall₂_directiveLine fun s hs => (hb.alignment s hs).1
  have htype := forall₂_directiveLine fun s hs => (hb.mem_typeStatement hs).1
  have hsize := forall₂_directiveLine fun s hs => (hb.mem_size hs).1
  rw [copyLines, hnone, written, front, bodyLines, List.append_assoc _ (_ :: _)]
  exact List.rel_append (List.rel_append (List.rel_append hsection halignment) htype)
    (.cons hlabel (List.rel_append hbody hsize))

theorem exists_forall₂_copyLines {s : Statement} (hsome : commonStatement? b = some s)
    (hsymbol : s.symbol? = some name) :
    ∃ locals, List.Forall₂ Reads (copyLines (load file source) b) (locals ++ [s]) := by
  obtain ⟨hstatements, hk⟩ := commonStatement?_eq_some_iff.mp hsome
  have hmem := hb.mem_statements (by rw [hstatements]; exact List.mem_singleton_self s)
  have hline : List.Forall₂ Reads ["\t" ++ s.text] [s] := .cons (reads_tab hmem) .nil
  obtain ⟨t, hlocal⟩ := exists_reads_local (accepts_of_isCommon hmem hk hsymbol)
  rw [copyLines, hsome, hb.name_eq]
  dsimp only
  split
  · exact ⟨[t], .cons hlocal hline⟩
  · exact ⟨[], hline⟩

theorem exists_after (hnone : commonStatement? b = none) :
    ∃ after : List Statement, (∀ s ∈ after, ¬ Defines name s) ∧
      (b.kind = .function → b.statements =
        (after.takeWhile fun s => !(s.kind = .size && s.symbol? = some name)).filter
          (!isFunctionDebug ·)) ∧
      (b.kind ≠ .function → b.statements =
        (after.takeWhile (load file source).continuesObject).filter (!·.kind.isDebug)) := by
  obtain ⟨before, first, after, hsplit, -, hafter, hstatements⟩ := hb.statements
  refine ⟨after, hafter, ?_, ?_⟩
  · intro hfunction
    rw [hstatements, strippedStatements, if_pos hfunction, functionStatements_length hsplit]
    rfl
  · intro hfunction
    rw [strippedStatements, if_neg hfunction] at hstatements
    cases hcommon : first.kind.isCommon with
    | true =>
      rw [objectStatements_length_of_isCommon hsplit hcommon] at hstatements
      have hsome := commonStatement?_eq_some_iff.mpr ⟨hstatements, hcommon⟩
      rw [hnone] at hsome
      cases hsome
    | false =>
      rw [hstatements, objectStatements_length hsplit hcommon]
      rfl

theorem not_defines_of_mem (hnone : commonStatement? b = none) {s : Statement}
    (hs : s ∈ b.statements) : ¬ Defines name s := by
  obtain ⟨after, hafter, hfunction, hobject⟩ := exists_after hb hnone
  by_cases hk : b.kind = .function
  · rw [hfunction hk] at hs
    exact hafter s ((List.takeWhile_sublist _).subset (List.mem_filter.mp hs).1)
  · rw [hobject hk] at hs
    exact hafter s ((List.takeWhile_sublist _).subset (List.mem_filter.mp hs).1)

theorem isLabelOf_ofLabel : IsLabelOf name (ofLabel b.name) := by
  obtain ⟨first, hmem, hfirst⟩ := hb.exists_defines
  rw [hb.name_eq]
  exact ⟨rfl, rfl, isTracked_of_defines hmem hfirst⟩

/-- Besides its body, a copy only says of the symbol what type it has. -/
theorem mem_written_cases {s : Statement} (hs : s ∈ written b) :
    s = ofLabel b.name ∨ s ∈ b.statements ∨ s ∈ b.typeStatement ∨ IsAside s := by
  rw [written, front] at hs
  simp only [List.mem_append, List.mem_cons, Option.mem_toList] at hs
  rcases hs with ((hs | hs) | hs) | hs | hs | hs
  · exact .inr (.inr (.inr (isAside_of_isSection (hb.sectionStatement s hs).2)))
  · exact .inr (.inr (.inr (isAside_of_isAlignment (hb.alignment s hs).2)))
  · exact .inr (.inr (.inl hs))
  · exact .inl hs
  · exact .inr (.inl hs)
  · exact .inr (.inr (.inr (isAside_of_size (hb.mem_size hs).2.1)))

theorem last?_declares_written :
    last? (Declares name) (written b) = (last? (Declares name) b.statements).or b.typeStatement := by
  have hsection := last?_toList_of_isAside name fun s hs =>
    isAside_of_isSection (hb.sectionStatement s hs).2
  have halignment := last?_toList_of_isAside name fun s hs =>
    isAside_of_isAlignment (hb.alignment s hs).2
  have hsize := last?_toList_of_isAside name fun s hs =>
    isAside_of_size (hb.mem_size hs).2.1
  have hlabel : last? (Declares name) [ofLabel b.name] = none := by
    simp [last?, not_declares_ofLabel]
  have htype : last? (Declares name) b.typeStatement.toList = b.typeStatement := by
    cases ht : b.typeStatement with
    | none => rfl
    | some t =>
      have habout : Declares name t := .inl (hb.mem_typeStatement ht).2
      simp [last?, habout]
  rw [written, front, List.append_cons]
  simp only [last?_append, hsection, halignment, htype, hlabel, hsize, Option.none_or,
    Option.or_none]

theorem wellFormed_of_mem_written (hnone : commonStatement? b = none) :
    ∀ s ∈ written b, s.WellFormed :=
  wellFormed_of_forall₂ (forall₂_copyLines hb hnone)

theorem kindOf_written_eq_function_iff (hnone : commonStatement? b = none) (other : String) :
    (ofStatements other (written b)).kindOf name = .function ↔
      declaredKind name (written b) = .function := by
  rw [kindOf_eq_function_iff (wellFormed_of_mem_written hb hnone) other]
  exact and_iff_right ⟨_, ofLabel_mem_written b, .inl (isLabelOf_ofLabel hb)⟩

theorem not_declares_of_mem_after_label (hbody : ∀ s ∈ b.statements, ¬ Declares name s) :
    ∀ s ∈ ofLabel b.name :: (b.statements ++ b.size.toList), ¬ Declares name s := by
  intro s hs
  rcases List.mem_cons.mp hs with rfl | hs
  · exact not_declares_ofLabel _ _
  · rcases List.mem_append.mp hs with hs | hs
    · exact hbody s hs
    · have hk := (hb.mem_size (Option.mem_toList.mp hs)).2.1
      exact (isAside_of_size hk).not_declares

theorem kindOf_written_eq_object_iff (hnone : commonStatement? b = none)
    (hbody : ∀ s ∈ b.statements, ¬ Declares name s) (other : String) :
    (ofStatements other (written b)).kindOf name = .object ↔
      declaredKind name (written b) ≠ .function := by
  have hafter : ofLabel b.name ∈ afterLast (Declares name) (written b) :=
    mem_afterLast_append List.mem_cons_self (not_declares_of_mem_after_label hb hbody)
  rw [kindOf_eq_object_iff (wellFormed_of_mem_written hb hnone) other,
    and_iff_right ⟨_, ofLabel_mem_written b, .inl (isLabelOf_ofLabel hb)⟩]
  cases hkind : declaredKind name (written b) with
  | function => simp
  | object => simp
  | unknown => simpa using ⟨_, hafter, isLabelOf_ofLabel hb⟩

theorem exists_body?_written (hnone : commonStatement? b = none) {kind : Symbol.Kind}
    (hk : kind ≠ .unknown) {other : String}
    (h : (ofStatements other (written b)).kindOf name = kind) :
    ∃ c, (ofStatements other (written b)).body? true name = some c ∧ c.statements =
      (ofStatements other (written b)).strippedStatements name kind (front b).length := by
  refine exists_body?_of_append hk h (.inl (isLabelOf_ofLabel hb)) ?_
  intro s hs
  rcases List.mem_append.mp hs with hs | hs
  · exact not_defines_of_mem hb hnone hs
  · exact (isAside_of_size (hb.mem_size (Option.mem_toList.mp hs)).2.1).not_defines

section Function
variable (hk : (load file source).kindOf name = .function)
include hk

theorem exists_typeStatement : ∃ t, b.typeStatement = some t ∧ givenKind t = .function := by
  have hss : ∀ s ∈ (load file source).statements, s.WellFormed := fun s hs =>
    Statement.wellFormed_of_mem_ofSource hs
  have hdeclared := ((kindOf_eq_function_iff hss file).mp hk).2
  obtain ⟨t, hlast, htype, hkind⟩ := (declaredKind_eq_function_iff hss).mp hdeclared
  have habout : IsAbout .type name t := by
    rcases isAbout_or_isCommon (of_last?_eq_some hlast).2 with h | ⟨h, -⟩
    · exact h
    · rw [htype] at h
      cases h
  refine ⟨t, ?_, hkind⟩
  rw [hb.typeStatement]
  exact last?_of_imp (fun _ => .inl) hlast habout

variable (hnone : commonStatement? b = none)
include hnone

theorem kindOf_written_function (other : String) :
    (ofStatements other (written b)).kindOf name = .function ↔
      ∀ s, last? (IsAbout .type name) b.statements = some s → givenKind s = .function := by
  obtain ⟨t, ht, hkind⟩ := exists_typeStatement hb hk
  have hbody : last? (Declares name) b.statements = last? (IsAbout .type name) b.statements := by
    apply last?_congr
    intro s hs
    refine ⟨fun h => ?_, .inl⟩
    rcases isAbout_or_isCommon h with h | ⟨-, h⟩
    · exact h
    · exact absurd h (not_defines_of_mem hb hnone hs)
  rw [kindOf_written_eq_function_iff hb hnone, declaredKind, last?_declares_written hb, hbody, ht]
  cases last? (IsAbout .type name) b.statements with
  | none => simp [hkind]
  | some s => simp

theorem functionStatements_written (other : String) :
    (ofStatements other (written b)).functionStatements true name (front b).length =
      b.statements := by
  obtain ⟨after, -, hfunction, -⟩ := exists_after hb hnone
  have hcut := hfunction (hb.kind_eq.trans hk)
  have hsize : ∀ s ∈ b.size.toList.head?, (!(s.kind = .size && s.symbol? = some name)) = false := by
    intro s hs
    obtain ⟨hkind, hsymbol⟩ := (hb.mem_size (Option.mem_toList.mp (List.mem_of_mem_head? hs))).2
    simp [hkind, hsymbol]
  rw [functionStatements_length (statements_written other b), takeWhile_append_of_head? hsize]
  have htake : b.statements.takeWhile (fun s => !(s.kind = .size && s.symbol? = some name)) =
      b.statements := by
    rw [List.takeWhile_eq_self_iff]
    intro s hs
    rw [hcut] at hs
    exact List.all_eq_true.mp List.all_takeWhile s (List.mem_filter.mp hs).1
  rw [htake, List.filter_eq_self]
  intro s hs
  rw [hcut] at hs
  exact (List.mem_filter.mp hs).2

end Function

section Object
variable (hk : (load file source).kindOf name = .object) (hnone : commonStatement? b = none)
include hk hnone

theorem kind_of_mem_object {s : Statement} (hs : s ∈ b.statements) :
    s.kind.isData = true ∨ s.kind = .label ∧ (load file source).startsSymbol s = false := by
  obtain ⟨after, -, -, hobject⟩ := exists_after hb hnone
  rw [hobject (by rw [hb.kind_eq, hk]; decide)] at hs
  obtain ⟨htake, hdebug⟩ := List.mem_filter.mp hs
  have hcontinues := List.mem_takeWhile_imp htake
  simp only [continuesObject, isLabel, Bool.or_eq_true, Bool.and_eq_true, Bool.not_eq_true',
    decide_eq_true_eq] at hcontinues hdebug
  rcases hcontinues with (hdata | hdebug') | hlabel
  · exact .inl hdata
  · rw [hdebug] at hdebug'
    cases hdebug'
  · exact .inr hlabel

theorem not_declares_of_mem_object {other : String} {s : Statement} (hs : s ∈ b.statements) :
    ¬ Declares other s := by
  rcases kind_of_mem_object hb hk hnone hs with hdata | ⟨hlabel, -⟩
  · exact (isAside_of_isData hdata).not_declares
  · exact not_declares_of_kind (by simp [hlabel]) (by simp [hlabel, Kind.isCommon])

theorem kindOf_written_object (other : String) :
    (ofStatements other (written b)).kindOf name = .object ↔
      ∀ s, b.typeStatement = some s → givenKind s ≠ .function := by
  have hbody : ∀ s ∈ b.statements, ¬ Declares name s := fun s hs =>
    not_declares_of_mem_object hb hk hnone hs
  rw [kindOf_written_eq_object_iff hb hnone hbody, declaredKind, last?_declares_written hb,
    last?_eq_none_iff.mpr hbody]
  cases b.typeStatement with
  | none => simp
  | some s => simp

theorem not_declares_of_mem_written {label : String} (hne : label ≠ name) {s : Statement}
    (hs : s ∈ written b) : ¬ Declares label s := by
  rcases mem_written_cases hb hs with rfl | hs | hs | hs
  · exact not_declares_ofLabel _ _
  · exact not_declares_of_mem_object hb hk hnone hs
  · intro h
    have hname := (hb.mem_typeStatement hs).2.2
    rw [symbol?_of_declares h] at hname
    exact hne (Option.some.inj hname)
  · exact hs.not_declares

/-- An inner label has no type in a copy, so it starts an object there if it can. -/
theorem kindOf_written_label {s : Statement} (hs : s ∈ b.statements) {label : String}
    (hlabel : s.label? = some label) (hne : label ≠ name) (other : String) :
    (ofStatements other (written b)).kindOf label =
      if Name.isTracked label then .object else .unknown := by
  have hwf := wellFormed_of_mem_written hb hnone
  have hquiet : ∀ t ∈ written b, ¬ Declares label t := fun t ht =>
    not_declares_of_mem_written hb hk hnone hne ht
  have hmem : s ∈ written b := by
    rw [written]
    exact List.mem_append_right _ (List.mem_cons_of_mem _ (List.mem_append_left _ hs))
  split
  · next htracked =>
    have hdefines : IsLabelOf label s := ⟨(hwf s hmem).kind_eq_label hlabel, hlabel, htracked⟩
    have hunknown : declaredKind label (written b) = .unknown := by
      rw [declaredKind, last?_eq_none_iff.mpr hquiet]
      rfl
    have hafter : s ∈ afterLast (Declares label) ([] ++ written b) := mem_afterLast_append hmem hquiet
    exact (kindOf_eq_object_iff hwf other).mpr
      ⟨⟨s, hmem, .inl hdefines⟩, .inr ⟨hunknown, s, hafter, hdefines⟩⟩
  · next htracked =>
    rw [kindOf_ofStatements other label hwf, if_neg]
    rintro ⟨t, ht, hdefines⟩
    rcases isLabelOf_or_isCommon hdefines with h | ⟨hcommon, hsymbol⟩
    · exact htracked h.2.2
    · exact hquiet t ht (.inr (isAbout_of_isCommon hcommon hsymbol))

theorem continuesObject_written_iff {s : Statement} (hs : s ∈ b.statements) (other : String) :
    (ofStatements other (written b)).continuesObject s = true ↔
      ∀ label, s.label? = some label → Name.isTracked label = false := by
  have hwf := wellFormed_of_mem_ofSource (hb.mem_statements hs)
  rcases kind_of_mem_object hb hk hnone hs with hdata | ⟨hkind, hstarts⟩
  · have hnolabel : s.label? = none := by
      apply hwf.label?_eq_none
      intro hkind
      rw [hkind] at hdata
      cases hdata
    simp [continuesObject, hdata, hnolabel]
  · obtain ⟨label, hlabel⟩ := hwf.exists_label? hkind
    have hne : label ≠ name := by
      rintro rfl
      simp [startsSymbol, hlabel, hk] at hstarts
    have hlater := kindOf_written_label hb hk hnone hs hlabel hne other
    cases htracked : Name.isTracked label <;>
      simp [continuesObject, startsSymbol, isLabel, hkind, hlabel, hlater, htracked, Kind.isData,
        Kind.isDebug]

theorem objectStatements_written (other : String) :
    ((ofStatements other (written b)).objectStatements true (front b).length).map form = b.forms ↔
      ∀ s ∈ b.statements, ∀ label, s.label? = some label → Name.isTracked label = false := by
  have hsize : ∀ s ∈ b.size.toList.head?,
      (ofStatements other (written b)).continuesObject s = false := by
    intro s hs
    have hkind := (hb.mem_size (Option.mem_toList.mp (List.mem_of_mem_head? hs))).2.1
    simp [continuesObject, isLabel, hkind, Kind.isData, Kind.isDebug]
  have hcut : (ofStatements other (written b)).objectStatements true (front b).length =
      (b.statements.takeWhile (ofStatements other (written b)).continuesObject).filter
        (!·.kind.isDebug) := by
    rw [objectStatements_length (statements_written other b) rfl, takeWhile_append_of_head? hsize]
    rfl
  rw [hcut, Body.forms]
  constructor
  · -- what is left of the body is a part of it, and with as many statements it is all of it
    intro h s hs
    have hlength := congrArg List.length h
    rw [List.length_map, List.length_map] at hlength
    have hall := (List.filter_sublist.trans (List.takeWhile_sublist _)).eq_of_length hlength
    rw [← continuesObject_written_iff hb hk hnone hs other]
    rw [← hall] at hs
    exact List.mem_takeWhile_imp (List.mem_filter.mp hs).1
  · intro h
    have htake : b.statements.takeWhile (ofStatements other (written b)).continuesObject =
        b.statements := by
      rw [List.takeWhile_eq_self_iff]
      intro s hs
      exact (continuesObject_written_iff hb hk hnone hs other).mpr (h s hs)
    have hfilter : b.statements.filter (!·.kind.isDebug) = b.statements := by
      obtain ⟨after, -, -, hobject⟩ := exists_after hb hnone
      rw [hobject (by rw [hb.kind_eq, hk]; decide), List.filter_filter]
      simp
    rw [htake, hfilter]

end Object

section Common
variable {s : Statement} (hk : (load file source).kindOf name = .object)
  (hsome : commonStatement? b = some s)
include hk hsome

theorem symbol?_of_commonStatement? : s.symbol? = some name := by
  obtain ⟨hstatements, hcommon⟩ := commonStatement?_eq_some_iff.mp hsome
  obtain ⟨before, first, after, hsplit, hfirst, -, hcut⟩ := hb.statements
  rw [strippedStatements, if_neg (by rw [hb.kind_eq, hk]; decide), hstatements] at hcut
  cases hstart : first.kind.isCommon with
  | true =>
    rw [objectStatements_length_of_isCommon hsplit hstart] at hcut
    cases hcut
    rcases isLabelOf_or_isCommon hfirst with h | h
    · rw [h.1] at hcommon
      cases hcommon
    · exact h.2
  | false =>
    rw [objectStatements_length hsplit hstart] at hcut
    have hs : s ∈ (after.takeWhile (load file source).continuesObject).filter fun s =>
        !(true && s.kind.isDebug) := by
      rw [← hcut]
      exact List.mem_singleton_self s
    have hcontinues := List.mem_takeWhile_imp (List.mem_filter.mp hs).1
    rw [continuesObject, isLabel] at hcontinues
    cases hkind : s.kind <;> rw [hkind] at hcommon hcontinues <;> cases hcommon <;> cases hcontinues

theorem exists_body?_common {locals : List Statement}
    (hwf : ∀ t ∈ locals ++ [s], t.WellFormed) (other : String) :
    (ofStatements other (locals ++ [s])).kindOf name = .object ∧
      ∃ c, (ofStatements other (locals ++ [s])).body? true name = some c ∧ c.statements = [s] := by
  obtain ⟨-, hcommon⟩ := commonStatement?_eq_some_iff.mp hsome
  have habout := isAbout_of_isCommon hcommon (symbol?_of_commonStatement? hb hk hsome)
  have hlast : last? (Declares name) (locals ++ [s]) = some s := by
    rw [last?_concat, if_pos (.inr habout)]
  have hgiven : givenKind s = .object := by
    rcases kind_of_last? hwf hlast with h | h
    · exact h.2
    · rw [hcommon] at h
      cases h.2
  have hkind : (ofStatements other (locals ++ [s])).kindOf name = .object := by
    refine (kindOf_eq_object_iff hwf other).mpr ⟨⟨s, by simp, .inr habout⟩, .inl ?_⟩
    rw [declaredKind, hlast, Option.map_some, hgiven]
    rfl
  obtain ⟨c, hc, hcut⟩ := exists_body?_of_append (by decide) hkind (.inr habout) (by simp)
  refine ⟨hkind, c, hc, ?_⟩
  rw [hcut, strippedStatements, if_neg (by decide)]
  exact objectStatements_length_of_isCommon rfl hcommon

end Common

end Written

/-- What a listing `m` that was loaded from the copy of a symbol of `l` has of it. A function that
consists of one common statement is left out. -/
structure Copied (l m : Listing) (name : String) (b : Body) : Prop where
  function : l.hasFunction name = true → commonStatement? b = none →
    (m.hasFunction name = true ↔
      ∀ s, last? (IsAbout .type name) b.statements = some s → givenKind s = .function)
  functionStatements : l.hasFunction name = true → commonStatement? b = none →
    m.hasFunction name = true → ∃ c, m.body? true name = some c ∧ c.forms = b.forms
  object : l.hasObject name = true →
    (m.hasObject name = true ↔ (commonStatement? b).isSome = true ∨
      ∀ s, b.typeStatement = some s → givenKind s ≠ .function)
  objectStatements : l.hasObject name = true → m.hasObject name = true →
    ∃ c, m.body? true name = some c ∧ (c.forms = b.forms ↔
      ∀ s ∈ b.statements, ∀ label, s.label? = some label → Name.isTracked label = false)

section Loaded
variable {file source name other : String} {b : Body} (hb : Extracted (load file source) name b)
include hb

theorem copied_of_label (hnone : commonStatement? b = none) :
    Copied (load file source) (load other (unlines (copyLines (load file source) b))) name b := by
  have hlines := forall₂_copyLines hb hnone
  constructor
  · intro hk _
    rw [hasFunction, decide_eq_true_eq, kindOf_load_unlines hlines]
    exact kindOf_written_function hb (of_decide_eq_true hk) hnone other
  · intro hk _ hkept
    rw [hasFunction, decide_eq_true_eq, kindOf_load_unlines hlines] at hkept
    obtain ⟨c, hc, hcut⟩ := exists_body?_written hb hnone (by decide) hkept
    obtain ⟨d, hd, hforms⟩ := exists_body?_load_unlines hlines other name hc
    refine ⟨d, hd, ?_⟩
    rw [hforms, Body.forms, hcut, strippedStatements, if_pos rfl,
      functionStatements_written hb (of_decide_eq_true hk) hnone]
    rfl
  · intro hk
    rw [hasObject, decide_eq_true_eq, kindOf_load_unlines hlines, hnone]
    simpa using kindOf_written_object hb (of_decide_eq_true hk) hnone other
  · intro hk hkept
    rw [hasObject, decide_eq_true_eq, kindOf_load_unlines hlines] at hkept
    obtain ⟨c, hc, hcut⟩ := exists_body?_written hb hnone (by decide) hkept
    obtain ⟨d, hd, hforms⟩ := exists_body?_load_unlines hlines other name hc
    refine ⟨d, hd, ?_⟩
    rw [hforms, ← objectStatements_written hb (of_decide_eq_true hk) hnone other, Body.forms, hcut,
      strippedStatements, if_neg (by decide)]

theorem copied_of_common {s : Statement} (hsome : commonStatement? b = some s) :
    Copied (load file source) (load other (unlines (copyLines (load file source) b))) name b := by
  have hexcluded : commonStatement? b ≠ none := by
    rw [hsome]
    exact Option.some_ne_none s
  have hloaded : (load file source).hasObject name = true →
      (load other (unlines (copyLines (load file source) b))).hasObject name = true ∧
        ∃ c, (load other (unlines (copyLines (load file source) b))).body? true name = some c ∧
          c.forms = b.forms := by
    intro hk
    have hk := of_decide_eq_true hk
    obtain ⟨hstatements, -⟩ := commonStatement?_eq_some_iff.mp hsome
    obtain ⟨locals, hlines⟩ :=
      exists_forall₂_copyLines hb hsome (symbol?_of_commonStatement? hb hk hsome)
    obtain ⟨hkept, c, hc, hone⟩ :=
      exists_body?_common hb hk hsome (wellFormed_of_forall₂ hlines) other
    obtain ⟨d, hd, hforms⟩ := exists_body?_load_unlines hlines other name hc
    refine ⟨?_, d, hd, ?_⟩
    · rw [hasObject, decide_eq_true_eq, kindOf_load_unlines hlines, hkept]
    · rw [hforms, Body.forms, Body.forms, hone, hstatements]
  constructor
  · intro _ hnone
    exact absurd hnone hexcluded
  · intro _ hnone
    exact absurd hnone hexcluded
  · intro hk
    simp [(hloaded hk).1, hsome]
  · intro hk _
    obtain ⟨-, c, hc, hforms⟩ := hloaded hk
    refine ⟨c, hc, iff_of_true hforms ?_⟩
    intro t ht label hlabel
    have hkind := (wellFormed_of_mem_ofSource (hb.mem_statements ht)).kind_eq_label hlabel
    obtain ⟨hstatements, hcommon⟩ := commonStatement?_eq_some_iff.mp hsome
    rw [hstatements, List.mem_singleton] at ht
    rw [← ht, hkind] at hcommon
    cases hcommon

end Loaded

/-- What a copy of a function or object keeps when it is loaded. -/
theorem exists_copied (file source other name : String)
    (h : (load file source).hasFunction name = true ∨ (load file source).hasObject name = true) :
    ∃ b, (load file source).body? true name = some b ∧
      Copied (load file source) (load other (copy (load file source) [name]).1) name b := by
  have hknown : (load file source).kindOf name ≠ .unknown := by
    intro hunknown
    simp [hasFunction, hasObject, hunknown] at h
  obtain ⟨b, hbody, hb⟩ := exists_extracted hknown
  refine ⟨b, hbody, ?_⟩
  rw [copy_singleton hbody]
  cases hcommon : commonStatement? b with
  | none => exact copied_of_label hb hcommon
  | some s => exact copied_of_common hb hcommon

/-- A function with a local label and with a type in its body. -/
def loopSource : String :=
  "f:.type f,@function;.L1:jmp .L1;.size f,2"

theorem exists_copied_loop : (load "a.s" loopSource).hasFunction "f" = true ∧
    (load "b.s" (copy (load "a.s" loopSource) ["f"]).1).hasFunction "f" = true ∧
    ∃ b c, (load "a.s" loopSource).body? true "f" = some b ∧
      (load "b.s" (copy (load "a.s" loopSource) ["f"]).1).body? true "f" = some c ∧
      c.forms = b.forms := by
  have hfunction : (load "a.s" loopSource).hasFunction "f" = true := by decide +kernel
  have hread : ((load "a.s" loopSource).body? true "f").map (fun b =>
      (commonStatement? b, (last? (IsAbout .type "f") b.statements).map givenKind)) =
        some (none, some .function) := by
    decide +kernel
  obtain ⟨b, hb, hcopied⟩ := exists_copied "a.s" loopSource "b.s" "f" (.inl hfunction)
  rw [hb, Option.map_some, Option.some.injEq, Prod.mk.injEq] at hread
  obtain ⟨hlabel, htype⟩ := hread
  have hkept := (hcopied.function hfunction hlabel).mpr fun s hs => by
    rw [hs] at htype
    exact Option.some.inj htype
  obtain ⟨c, hc, hforms⟩ := hcopied.functionStatements hfunction hlabel hkept
  exact ⟨hfunction, hkept, b, c, hb, hc, hforms⟩

/-- A symbol has its kind and its statements again when its copy is loaded. -/
def ComesBack (source name : String) : Prop :=
  (load "b.s" (copy (load "a.s" source) [name]).1).kindOf name = (load "a.s" source).kindOf name ∧
    ((load "b.s" (copy (load "a.s" source) [name]).1).body? true name).map Body.forms =
      ((load "a.s" source).body? true name).map Body.forms

instance (source name : String) : Decidable (ComesBack source name) :=
  inferInstanceAs (Decidable (_ ∧ _))

/-- An inner label without a type, a type in front of common storage, and a type after the size:
none of these symbols comes back as it was. -/
theorem copy_changes_symbol :
    ((load "a.s" "x:y:.byte 1;.type y,@notype").hasObject "x" = true ∧
        ¬ ComesBack "x:y:.byte 1;.type y,@notype" "x") ∧
      ((load "a.s" ".type x,@function;.comm x,4;x:").hasObject "x" = true ∧
        ¬ ComesBack ".type x,@function;.comm x,4;x:" "x") ∧
      (load "a.s" "f:.type f,@object;.size f,1;.type f,@function").hasFunction "f" = true ∧
        ¬ ComesBack "f:.type f,@object;.size f,1;.type f,@function" "f" := by
  decide +kernel

end AsmCompare.Report
