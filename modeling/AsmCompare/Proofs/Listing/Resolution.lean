import AsmCompare.Proofs.Listing.Entries
import AsmCompare.Proofs.Listing.Sections
import AsmCompare.Proofs.Token.Spelling

/-! # The kind and the scope of a name

Directives about a name may stand in any order. What is left of them in the end is decided by the
last one that gives the name a kind, by the labels after it, by the last one that lists the name
with a scope, and, if there is none, by the first one that is about the name at all.
-/
namespace AsmCompare.Listing

section Search
variable (p : Statement → Prop) [DecidablePred p]

/-- The last statement with a property. -/
def last? (ss : List Statement) : Option Statement := ss.reverse.find? (p ·)

/-- The statements after the last one with a property; all of them if there is none. -/
def afterLast (ss : List Statement) : List Statement := (ss.reverse.takeWhile (¬ p ·)).reverse

variable {p} in
theorem of_last?_eq_some {ss : List Statement} {s : Statement} (h : last? p ss = some s) :
    s ∈ ss ∧ p s :=
  ⟨List.mem_reverse.mp (List.mem_of_find?_eq_some h), of_decide_eq_true (List.find?_some h :)⟩

theorem last?_concat (ss : List Statement) (s : Statement) :
    last? p (ss ++ [s]) = if p s then some s else last? p ss := by
  by_cases h : p s <;> simp [last?, h]

theorem afterLast_concat (ss : List Statement) (s : Statement) :
    afterLast p (ss ++ [s]) = if p s then [] else afterLast p ss ++ [s] := by
  by_cases h : p s <;> simp [afterLast, h]

theorem find?_concat (ss : List Statement) (s : Statement) :
    (ss ++ [s]).find? (p ·) = (ss.find? (p ·)).or (if p s then some s else none) := by
  by_cases h : p s <;> simp [List.find?_append, h]

end Search

/-- Gives the name a kind: its type, or common storage. -/
def Declares (name : String) (s : Statement) : Prop :=
  IsAbout .type name s ∨ IsAbout .common name s ∨ IsAbout .localCommon name s

/-- A label of the name, or a statement that gives it a kind. -/
def Introduces (name : String) (s : Statement) : Prop := IsLabelOf name s ∨ Declares name s

/-- Gives the name a scope. -/
def Lists (name : String) (s : Statement) : Prop :=
  (s.kind = .globalNames ∨ s.kind = .localNames) ∧ name ∈ s.namedSymbols

instance (name : String) : DecidablePred (Declares name) := fun _ =>
  inferInstanceAs (Decidable (_ ∨ _))

instance (name : String) : DecidablePred (Introduces name) := fun _ =>
  inferInstanceAs (Decidable (_ ∨ _))

instance (name : String) : DecidablePred (Lists name) := fun _ =>
  inferInstanceAs (Decidable (_ ∧ _))

/-- The kind that a statement gives to the symbol it is about. -/
def givenKind (s : Statement) : Symbol.Kind :=
  match s.detail with
  | some (.type _ kind) => kind
  | some (.common _ _ _) => .object
  | _ => .unknown

/-- The kind that a name was given last. -/
def declaredKind (name : String) (ss : List Statement) : Symbol.Kind :=
  ((last? (Declares name) ss).map givenKind).getD .unknown

/-- The scope that a statement lists its names with. -/
def listedScope (s : Statement) : Symbol.Scope := if s.kind = .localNames then .file else .global

/-- The scope of a name that no statement lists, by the statement that introduces it. -/
def firstScope (name : String) (s : Statement) : Symbol.Scope :=
  match s.kind with
  | .localCommon => .file
  | .common => .global
  | _ => if Name.startsWithDot name then .file else .global

theorem listedScope_ne_unknown (s : Statement) : listedScope s ≠ .unknown := by
  unfold listedScope
  split <;> decide

theorem firstScope_ne_unknown (name : String) (s : Statement) : firstScope name s ≠ .unknown := by
  unfold firstScope
  split
  · decide
  · decide
  · split <;> decide

theorem scope_orElse_of_ne {scope : Symbol.Scope} (h : scope ≠ .unknown) (fallback : Symbol.Scope) :
    scope.orElse fallback = scope := if_neg h

/-- What the statements of a file say of the kind and the scope of a name. -/
structure Resolved (name : String) (l : Listing) : Prop where
  function : l.hasFunction name = true ↔ (∃ s ∈ l.statements, Defines name s) ∧
    ∃ s, last? (Declares name) l.statements = some s ∧ s.kind = .type ∧ givenKind s = .function
  object : l.hasObject name = true ↔ (∃ s ∈ l.statements, Defines name s) ∧
    ((∃ s, last? (Declares name) l.statements = some s ∧
        (s.kind.isCommon = true ∨ s.kind = .type ∧ givenKind s = .object)) ∨
      (∀ s, last? (Declares name) l.statements = some s →
        s.kind = .type ∧ givenKind s = .unknown) ∧
      ∃ s ∈ afterLast (Declares name) l.statements, IsLabelOf name s)
  scope : ((l.symbol? name).getD { name }).scope =
    match last? (Lists name) l.statements with
    | some s => listedScope s
    | none => ((l.statements.find? (Introduces name ·)).map (firstScope name)).getD .unknown
  tracked : (l.symbol? name).isSome = true → Name.isTracked name = true

namespace Scan
variable (scan : Scan) (index : Nat) (s : Statement) (name : String) (symbol : Symbol)

theorem kind_revise (hs : s.WellFormed) : (scan.revise index s name symbol).kind =
    if Declares name s then givenKind s
    else if IsLabelOf name s ∧ symbol.kind = .unknown then .object else symbol.kind := by
  have hshape := hs.shape
  cases hk : s.kind with
  | type =>
    rw [hk] at hshape
    obtain ⟨d, hd, hds⟩ := Option.map_eq_some_iff.mp hshape
    cases d with
    | type =>
      simp [revise, givenType, Symbol.withDefaultScope, Declares, IsAbout, IsLabelOf, hk, hd,
        givenKind, apply_ite Symbol.kind]
    | _ => cases hds
  | common | localCommon =>
    rw [hk] at hshape
    obtain ⟨d, hd, hds⟩ := Option.map_eq_some_iff.mp hshape
    cases d with
    | common =>
      simp [revise, definedAsCommon, Declares, IsAbout, IsLabelOf, hk, hd, givenKind,
        apply_ite Symbol.kind]
    | _ => cases hds
  | label =>
    have hdeclares : ¬ Declares name s := by simp [Declares, IsAbout, hk]
    rw [if_neg hdeclares]
    by_cases hlabel : IsLabelOf name s
    · by_cases hkind : symbol.kind = .unknown <;>
        simp [revise, definedByLabel, Symbol.withDefaultScope, hk, hlabel.2, hlabel, hkind]
    · have hname : ¬ (s.label? = some name ∧ Name.isTracked name = true) := by
        intro h
        exact hlabel ⟨hk, h⟩
      simp [revise, hk, hname, hlabel]
  | _ => simp [revise, Declares, IsAbout, IsLabelOf, hk, apply_ite Symbol.kind]

theorem scope_revise (hs : s.WellFormed) (hname : symbol.name = name) :
    (scan.revise index s name symbol).scope =
      if Lists name s then listedScope s
      else if Introduces name s then symbol.scope.orElse (firstScope name s) else symbol.scope := by
  have hshape := hs.shape
  cases hk : s.kind with
  | type =>
    rw [hk] at hshape
    obtain ⟨d, hd, hds⟩ := Option.map_eq_some_iff.mp hshape
    cases d with
    | type =>
      simp [revise, givenType, Symbol.withDefaultScope, hname, Lists, Introduces, Declares, IsAbout,
        IsLabelOf, hk, hd, firstScope, Symbol.Scope.ofName, apply_ite Symbol.scope]
    | _ => cases hds
  | _ =>
    simp [revise, definedByLabel, definedAsCommon, Symbol.withDefaultScope, hname, Lists,
      Introduces, Declares, IsAbout, IsLabelOf, hk, listedScope, firstScope, Symbol.Scope.ofName,
      apply_ite Symbol.scope]

end Scan

theorem declaredKind_concat (name : String) (ss : List Statement) (s : Statement) :
    declaredKind name (ss ++ [s]) = if Declares name s then givenKind s else declaredKind name ss := by
  by_cases h : Declares name s <;> simp [declaredKind, last?_concat, h]

section Run
variable (file name : String) {ss : List Statement} (hss : ∀ s ∈ ss, s.WellFormed)
include hss

/-- The kind is the last one given, unless that is none and a label comes after it. -/
theorem kind_run : ((Scan.run file ss).symbols.symbolOf name).kind =
    if declaredKind name ss = .unknown ∧ ∃ s ∈ afterLast (Declares name) ss, IsLabelOf name s
    then .object else declaredKind name ss := by
  induction ss using List.reverseRecOn with
  | nil =>
    rw [Scan.symbolOf_run_nil]
    rfl
  | append_singleton ss s ih =>
    have hs := hss s (List.mem_append_right ss (List.mem_singleton_self s))
    rw [Scan.symbolOf_run_concat, Scan.kind_revise _ _ _ _ _ hs, declaredKind_concat,
      afterLast_concat, ih fun t ht => hss t (List.mem_append_left _ ht)]
    by_cases hdeclares : Declares name s
    · simp [hdeclares]
    · by_cases hlabel : IsLabelOf name s
      · by_cases hgiven : declaredKind name ss = .unknown
        · by_cases hafter : ∃ t ∈ afterLast (Declares name) ss, IsLabelOf name t
          · simp [hdeclares, hlabel, hgiven, hafter]
          · simp [hdeclares, hlabel, hgiven, hafter]
        · simp [hdeclares, hlabel, hgiven]
      · simp [hdeclares, hlabel]

/-- The scope is the last one listed or else the one of the first statement about the name. -/
theorem scope_run : ((Scan.run file ss).symbols.symbolOf name).scope =
    match last? (Lists name) ss with
    | some s => listedScope s
    | none => ((ss.find? (Introduces name ·)).map (firstScope name)).getD .unknown := by
  induction ss using List.reverseRecOn with
  | nil =>
    rw [Scan.symbolOf_run_nil]
    rfl
  | append_singleton ss s ih =>
    have hs := hss s (List.mem_append_right ss (List.mem_singleton_self s))
    rw [Scan.symbolOf_run_concat, Scan.scope_revise _ _ _ _ _ hs (Scan.name_run file name ss),
      last?_concat, find?_concat, ih fun t ht => hss t (List.mem_append_left _ ht)]
    by_cases hlists : Lists name s
    · simp [hlists]
    · rw [if_neg hlists, if_neg hlists]
      by_cases hintro : Introduces name s
      · rw [if_pos hintro, if_pos hintro]
        cases hlast : last? (Lists name) ss with
        | some t => exact scope_orElse_of_ne (listedScope_ne_unknown t) _
        | none =>
          cases hfirst : ss.find? (Introduces name ·) with
          | some t => exact scope_orElse_of_ne (firstScope_ne_unknown name t) _
          | none => rfl
      · simp [hintro]

end Run

section Names
variable (scan : Scan) (index : Nat) (s : Statement) {name : String}

/-- Puts the name into the table. -/
def Concerns (name : String) (s : Statement) : Prop :=
  IsLabelOf name s ∨ (s.kind ≠ .label ∧ s.symbol? = some name) ∨ name ∈ s.namedSymbols

theorem mem_update_iff {table : SymbolTable} {other : String} {f : Symbol → Symbol} :
    name ∈ table.update other f ↔ other = name ∨ name ∈ table := by
  simp [SymbolTable.update, Std.TreeMap.mem_insert]

theorem mem_setScope {scope : Symbol.Scope} (h : name ∈ (scan.setScope scope s).symbols) :
    name ∈ scan.symbols ∨ name ∈ s.namedSymbols := by
  unfold Scan.setScope at h
  revert h
  induction s.namedSymbols generalizing scan with
  | nil =>
    intro h
    exact .inl h
  | cons first rest ih =>
    intro h
    rcases ih _ h with h | h
    · rcases mem_update_iff.mp h with rfl | h
      · exact .inr List.mem_cons_self
      · exact .inl h
    · exact .inr (List.mem_cons_of_mem first h)

theorem mem_step (file : String) (h : name ∈ (scan.step file index s).symbols) :
    name ∈ scan.symbols ∨ Concerns name s := by
  cases hk : s.kind with
  | label =>
    simp only [Scan.step, hk, Scan.label] at h
    cases hl : s.label? with
    | none =>
      simp only [hl] at h
      exact .inl h
    | some label =>
      simp only [hl] at h
      split at h
      · next ht =>
        rcases mem_update_iff.mp h with rfl | h
        · exact .inr (.inl ⟨hk, hl, ht⟩)
        · exact .inl h
      · exact .inl h
  | common | localCommon =>
    simp only [Scan.step, hk, Scan.common] at h
    cases hsymbol : s.symbol? with
    | none =>
      simp only [hsymbol] at h
      exact .inl h
    | some symbol =>
      simp only [hsymbol] at h
      rcases mem_update_iff.mp h with rfl | h
      · exact .inr (.inr (.inl ⟨by simp [hk], hsymbol⟩))
      · exact .inl h
  | type =>
    simp only [Scan.step, hk, Scan.type] at h
    split at h
    · next hsymbol =>
      rcases mem_update_iff.mp h with rfl | h
      · exact .inr (.inr (.inl ⟨by simp [hk], hsymbol⟩))
      · exact .inl h
    · exact .inl h
  | size =>
    simp only [Scan.step, hk, Scan.size] at h
    split at h
    · next hsymbol =>
      rcases mem_update_iff.mp h with rfl | h
      · exact .inr (.inr (.inl ⟨by simp [hk], hsymbol⟩))
      · exact .inl h
    · exact .inl h
  | localNames | globalNames =>
    simp only [Scan.step, hk] at h
    exact (mem_setScope scan s h).imp_right fun h => .inr (.inr h)
  | namedSection =>
    obtain ⟨_, _, hselect⟩ := Scan.exists_select scan index s
    simp only [Scan.step, hk, hselect] at h
    exact .inl h
  | pushSection =>
    obtain ⟨_, _, _, hpush⟩ := Scan.exists_push scan index s
    simp only [Scan.step, hk, hpush] at h
    exact .inl h
  | popSection =>
    obtain ⟨_, _, _, hpop⟩ := Scan.exists_pop scan s file
    simp only [Scan.step, hk, hpop] at h
    exact .inl h
  | text | data | bss | align | p2align | balign =>
    simp only [Scan.step, hk] at h
    exact .inl h
  | _ =>
    obtain ⟨_, _, hother⟩ := Scan.exists_other scan s file
    simp only [Scan.step, hk, hother] at h
    exact .inl h

theorem exists_concerns_of_mem_run {file : String} {ss : List Statement}
    (h : name ∈ (Scan.run file ss).symbols) : ∃ s ∈ ss, Concerns name s := by
  induction ss using List.reverseRecOn with
  | nil => simp [Scan.run] at h
  | append_singleton ss s ih =>
    rw [Scan.run_concat] at h
    rcases mem_step _ _ _ _ h with h | h
    · obtain ⟨t, ht, hname⟩ := ih h
      exact ⟨t, List.mem_append_left _ ht, hname⟩
    · exact ⟨s, List.mem_append_right ss (List.mem_singleton_self s), h⟩

theorem isTracked_of_concerns {file source : String} (hs : s ∈ Statement.ofSource file source)
    (h : Concerns name s) : Name.isTracked name = true := by
  rcases h with h | ⟨hk, h⟩ | h
  · exact h.2.2
  · exact Token.isTracked_of_accepts (Statement.accepts_of_symbol? hs hk h)
  · exact Token.isTracked_of_accepts (Statement.accepts_of_mem_namedSymbols hs h)

end Names

theorem getD_symbol?_ofStatements (file name : String) (ss : List Statement) :
    ((ofStatements file ss).symbol? name).getD { name } =
      (Scan.run file ss).symbols.symbolOf name :=
  (Std.TreeMap.getD_eq_getD_getElem? ..).symm

theorem symbolOf_eq_of_symbol? {file name : String} {ss : List Statement} {symbol : Symbol}
    (h : (ofStatements file ss).symbol? name = some symbol) :
    (Scan.run file ss).symbols.symbolOf name = symbol := by
  rw [← getD_symbol?_ofStatements, h]
  rfl

theorem kindOf_ofStatements (file name : String) {ss : List Statement}
    (hss : ∀ s ∈ ss, s.WellFormed) : (ofStatements file ss).kindOf name =
      if ∃ s ∈ ss, Defines name s then
        if declaredKind name ss = .unknown ∧ ∃ s ∈ afterLast (Declares name) ss, IsLabelOf name s
        then .object else declaredKind name ss
      else .unknown := by
  have hentry : (ofStatements file ss).symbols.entry name =
      ⟨((Scan.run file ss).symbols.symbolOf name).kind,
        ((Scan.run file ss).symbols.symbolOf name).definedAt⟩ := rfl
  rw [kindOf_eq, hentry, ← kind_run file name hss]
  simp only [(definedAt_run file name ss).isSome_iff]

section Kinds
variable {name : String} {ss : List Statement} (hss : ∀ s ∈ ss, s.WellFormed)
include hss

theorem kindOf_eq_function_iff (file : String) : (ofStatements file ss).kindOf name = .function ↔
    (∃ s ∈ ss, Defines name s) ∧ declaredKind name ss = .function := by
  rw [kindOf_ofStatements file name hss]
  by_cases hdefined : ∃ s ∈ ss, Defines name s
  · rw [if_pos hdefined, and_iff_right hdefined]
    split
    · next h => simp [h.1]
    · rfl
  · simp [hdefined]

theorem kindOf_eq_object_iff (file : String) : (ofStatements file ss).kindOf name = .object ↔
    (∃ s ∈ ss, Defines name s) ∧ (declaredKind name ss = .object ∨
      declaredKind name ss = .unknown ∧ ∃ s ∈ afterLast (Declares name) ss, IsLabelOf name s) := by
  rw [kindOf_ofStatements file name hss]
  by_cases hdefined : ∃ s ∈ ss, Defines name s
  · rw [if_pos hdefined, and_iff_right hdefined]
    split
    · next h => exact iff_of_true rfl (.inr h)
    · next h => exact (or_iff_left h).symm
  · simp [hdefined]

/-- The last statement that gives a kind is about common storage or about the type. -/
theorem kind_of_last? {s : Statement} (h : last? (Declares name) ss = some s) :
    s.kind.isCommon = true ∧ givenKind s = .object ∨ s.kind = .type ∧ s.kind.isCommon = false := by
  obtain ⟨hmem, hdeclares⟩ := of_last?_eq_some h
  have hshape := (hss s hmem).shape
  rcases hdeclares with ⟨hk, -⟩ | ⟨hk, -⟩ | ⟨hk, -⟩
  · exact .inr ⟨hk, by rw [hk]; rfl⟩
  all_goals
    rw [hk] at hshape
    obtain ⟨d, hd, hds⟩ := Option.map_eq_some_iff.mp hshape
    cases d with
    | common => exact .inl ⟨by rw [hk]; rfl, by rw [givenKind, hd]⟩
    | _ => cases hds

theorem declaredKind_eq_function_iff : declaredKind name ss = .function ↔
    ∃ s, last? (Declares name) ss = some s ∧ s.kind = .type ∧ givenKind s = .function := by
  unfold declaredKind
  cases hlast : last? (Declares name) ss with
  | none => simp
  | some s => rcases kind_of_last? hss hlast with ⟨-, h⟩ | ⟨h, -⟩ <;> simp [h]

theorem declaredKind_eq_object_iff : declaredKind name ss = .object ↔
    ∃ s, last? (Declares name) ss = some s ∧
      (s.kind.isCommon = true ∨ s.kind = .type ∧ givenKind s = .object) := by
  unfold declaredKind
  cases hlast : last? (Declares name) ss with
  | none => simp
  | some s =>
    rcases kind_of_last? hss hlast with h | ⟨htype, hcommon⟩
    · simp [h]
    · rw [htype] at hcommon
      simp [htype, hcommon]

theorem declaredKind_eq_unknown_iff : declaredKind name ss = .unknown ↔
    ∀ s, last? (Declares name) ss = some s → s.kind = .type ∧ givenKind s = .unknown := by
  unfold declaredKind
  cases hlast : last? (Declares name) ss with
  | none => simp
  | some s => rcases kind_of_last? hss hlast with ⟨-, h⟩ | ⟨h, -⟩ <;> simp [h]

end Kinds

/-- The kind and the scope of a name follow from the statements about it, in whatever order they
stand. -/
theorem load_resolved (file source name : String) : Resolved name (load file source) := by
  have hss : ∀ s ∈ (load file source).statements, s.WellFormed := fun s hs =>
    Statement.wellFormed_of_mem_ofSource hs
  constructor
  · rw [← declaredKind_eq_function_iff hss]
    exact decide_eq_true_iff.trans (kindOf_eq_function_iff hss file)
  · rw [← declaredKind_eq_object_iff hss, ← declaredKind_eq_unknown_iff hss]
    exact decide_eq_true_iff.trans (kindOf_eq_object_iff hss file)
  · have hscope := scope_run file name hss
    rw [← getD_symbol?_ofStatements] at hscope
    exact hscope
  · intro h
    have hmem : name ∈ (Scan.run file (Statement.ofSource file source)).symbols :=
      Std.TreeMap.mem_iff_isSome_getElem?.mpr h
    obtain ⟨s, hs, hname⟩ := exists_concerns_of_mem_run hmem
    exact isTracked_of_concerns s hs hname

end AsmCompare.Listing
