import AsmCompare.Listing.Basic

/-! # One step of the pass over a file

What a statement makes of the symbol of a name, of the waiting alignment and of the sections. All
that is known about a pass follows from these three.
-/
namespace AsmCompare.Listing

/-- The symbol of a name; a name that the table does not have has a blank one. -/
def SymbolTable.symbolOf (table : SymbolTable) (name : String) : Symbol := table.getD name { name }

namespace SymbolTable
variable (table : SymbolTable) (name : String)

theorem symbolOf_empty : symbolOf ∅ name = { name } := by
  simp [symbolOf]

theorem symbolOf_update (other : String) (f : Symbol → Symbol) :
    (table.update other f).symbolOf name =
      if other = name then f (table.symbolOf name) else table.symbolOf name := by
  by_cases h : other = name
  · subst h
    simp [symbolOf, update]
  · simp [symbolOf, update, Std.TreeMap.getD_insert, h]

end SymbolTable

namespace Scan
variable (scan : Scan) (index : Nat) (s : Statement) (name : String)

/-- What a statement makes of the symbol of a name. -/
def revise (symbol : Symbol) : Symbol :=
  match s.kind with
  | .label =>
    if s.label? = some name ∧ Name.isTracked name = true then scan.definedByLabel index symbol
    else symbol
  | .common | .localCommon =>
    if s.symbol? = some name then scan.definedAsCommon index s.kind symbol else symbol
  | .type =>
    match s.detail with
    | some (.type _ kind) => if s.symbol? = some name then givenType index kind symbol else symbol
    | _ => symbol
  | .localNames => if name ∈ s.namedSymbols then { symbol with scope := .file } else symbol
  | .globalNames => if name ∈ s.namedSymbols then { symbol with scope := .global } else symbol
  | .size => if s.symbol? = some name then { symbol with sizeAt := some index } else symbol
  | _ => symbol

theorem exists_select :
    ∃ inForce anchors, scan.select index s = { scan with inForce, anchors } := by
  simp only [select]
  split
  · exact ⟨_, _, rfl⟩
  · split <;> exact ⟨_, _, rfl⟩

theorem exists_push :
    ∃ inForce anchors saved, scan.push index s = { scan with inForce, anchors, saved } := by
  simp only [push]
  split
  · exact ⟨_, _, _, rfl⟩
  · obtain ⟨inForce, anchors, h⟩ := exists_select { scan with saved := scan.inForce :: scan.saved }
      index s
    exact ⟨inForce, anchors, _, h⟩

theorem exists_pop (file : String) :
    ∃ inForce saved messages, scan.pop file s = { scan with inForce, saved, messages } := by
  unfold pop
  split <;> exact ⟨_, _, _, rfl⟩

theorem exists_label :
    ∃ symbols, scan.label index s =
      { scan with
        symbols
        alignment := if s.label?.any Name.isTracked then none else scan.alignment } := by
  unfold label
  cases s.label? with
  | none => exact ⟨_, rfl⟩
  | some name =>
    cases ht : Name.isTracked name with
    | false =>
      simp only [Option.any_some, ht]
      exact ⟨_, rfl⟩
    | true =>
      simp only [Option.any_some, ht]
      exact ⟨_, rfl⟩

theorem exists_common :
    ∃ symbols, scan.common index s = { scan with symbols, alignment := none } := by
  unfold common
  cases s.symbol? <;> exact ⟨_, rfl⟩

theorem exists_type : ∃ symbols, scan.type index s = { scan with symbols } := by
  unfold type
  split <;> exact ⟨_, rfl⟩

theorem exists_size : ∃ symbols, scan.size index s = { scan with symbols } := by
  unfold size
  split <;> exact ⟨_, rfl⟩

theorem exists_setScope (scope : Symbol.Scope) :
    ∃ symbols, scan.setScope scope s = { scan with symbols } := by
  unfold setScope
  induction s.namedSymbols generalizing scan with
  | nil => exact ⟨_, rfl⟩
  | cons first rest ih => exact ih _

theorem exists_other (file : String) :
    ∃ uninterpreted messages,
      scan.other file s = { scan with alignment := none, uninterpreted, messages } := by
  simp only [other]
  split <;> exact ⟨_, _, rfl⟩

theorem symbolOf_label (hk : s.kind = .label) :
    (scan.label index s).symbols.symbolOf name =
      scan.revise index s name (scan.symbols.symbolOf name) := by
  simp only [label, revise, hk]
  cases hl : s.label? with
  | none => simp
  | some label =>
    by_cases hname : label = name
    · subst hname
      by_cases ht : Name.isTracked label = true
      · simp [ht, update, SymbolTable.symbolOf_update]
      · simp [ht]
    · by_cases ht : Name.isTracked label = true
      · simp [ht, update, SymbolTable.symbolOf_update, hname]
      · simp [ht, hname]

theorem symbolOf_common (hk : s.kind.isCommon = true) :
    (scan.common index s).symbols.symbolOf name =
      scan.revise index s name (scan.symbols.symbolOf name) := by
  have hrevise : scan.revise index s name (scan.symbols.symbolOf name) =
      if s.symbol? = some name then scan.definedAsCommon index s.kind (scan.symbols.symbolOf name)
      else scan.symbols.symbolOf name := by
    revert hk
    unfold revise
    cases s.kind <;> simp [Statement.Kind.isCommon]
  rw [hrevise]
  unfold common
  cases hs : s.symbol? with
  | none => simp
  | some symbol => simp [update, SymbolTable.symbolOf_update]

theorem symbolOf_type (hk : s.kind = .type) :
    (scan.type index s).symbols.symbolOf name =
      scan.revise index s name (scan.symbols.symbolOf name) := by
  simp only [type, revise, hk]
  cases s.detail with
  | none => rfl
  | some d =>
    cases d with
    | type symbol kind =>
      cases hs : s.symbol? with
      | none => simp
      | some symbol =>
        by_cases hname : symbol = name
        · subst hname
          simp [update, SymbolTable.symbolOf_update]
        · simp [update, SymbolTable.symbolOf_update, hname]
    | _ => rfl

theorem symbolOf_size (hk : s.kind = .size) :
    (scan.size index s).symbols.symbolOf name =
      scan.revise index s name (scan.symbols.symbolOf name) := by
  simp only [size, revise, hk]
  cases hs : s.symbol? with
  | none => simp
  | some symbol => simp [update, SymbolTable.symbolOf_update]

theorem symbolOf_setScope (scope : Symbol.Scope) :
    (scan.setScope scope s).symbols.symbolOf name =
      if name ∈ s.namedSymbols then { scan.symbols.symbolOf name with scope }
      else scan.symbols.symbolOf name := by
  unfold setScope
  induction s.namedSymbols generalizing scan with
  | nil => simp
  | cons first rest ih =>
    rw [List.foldl_cons, ih, update, SymbolTable.symbolOf_update]
    by_cases hfirst : first = name
    · subst hfirst
      by_cases hrest : first ∈ rest <;> simp [hrest]
    · simp [hfirst, Ne.symm hfirst]

/-- A step changes the symbol of each name by itself. -/
theorem symbolOf_step (file : String) :
    (scan.step file index s).symbols.symbolOf name =
      scan.revise index s name (scan.symbols.symbolOf name) := by
  cases hk : s.kind with
  | label =>
    rw [← symbolOf_label scan index s name hk, step]
    simp only [hk]
  | common | localCommon =>
    rw [← symbolOf_common scan index s name (by rw [hk]; rfl), step]
    simp only [hk]
  | type =>
    rw [← symbolOf_type scan index s name hk, step]
    simp only [hk]
  | size =>
    rw [← symbolOf_size scan index s name hk, step]
    simp only [hk]
  | localNames | globalNames => simp only [step, hk, symbolOf_setScope, revise]
  | namedSection =>
    obtain ⟨_, _, h⟩ := exists_select scan index s
    simp only [step, hk, h, revise]
  | pushSection =>
    obtain ⟨_, _, _, h⟩ := exists_push scan index s
    simp only [step, hk, h, revise]
  | popSection =>
    obtain ⟨_, _, _, h⟩ := exists_pop scan s file
    simp only [step, hk, h, revise]
  | text | data | bss | align | p2align | balign => simp only [step, hk, revise]
  | _ =>
    obtain ⟨_, _, h⟩ := exists_other scan s file
    simp only [step, hk, h, revise]

/-- Statements that an alignment waits past: those on names and sections, and untracked labels. -/
def passesAlignment (s : Statement) : Bool :=
  match s.kind with
  | .type | .globalNames | .localNames | .size | .popSection => true
  | .label => !s.label?.any Name.isTracked
  | kind => kind.isSection

theorem alignment_step (file : String) :
    (scan.step file index s).alignment =
      if s.kind.isAlignment then some index
      else if passesAlignment s then scan.alignment else none := by
  unfold passesAlignment
  cases hk : s.kind with
  | label =>
    obtain ⟨_, h⟩ := exists_label scan index s
    simp only [step, hk, h]
    cases s.label?.any Name.isTracked <;> rfl
  | common | localCommon =>
    obtain ⟨_, h⟩ := exists_common scan index s
    simp only [step, hk, h]
    rfl
  | type =>
    obtain ⟨_, h⟩ := exists_type scan index s
    simp only [step, hk, h]
    rfl
  | size =>
    obtain ⟨_, h⟩ := exists_size scan index s
    simp only [step, hk, h]
    rfl
  | localNames =>
    obtain ⟨_, h⟩ := exists_setScope scan s .file
    simp only [step, hk, h]
    rfl
  | globalNames =>
    obtain ⟨_, h⟩ := exists_setScope scan s .global
    simp only [step, hk, h]
    rfl
  | namedSection =>
    obtain ⟨_, _, h⟩ := exists_select scan index s
    simp only [step, hk, h]
    rfl
  | pushSection =>
    obtain ⟨_, _, _, h⟩ := exists_push scan index s
    simp only [step, hk, h]
    rfl
  | popSection =>
    obtain ⟨_, _, _, h⟩ := exists_pop scan s file
    simp only [step, hk, h]
    rfl
  | text | data | bss | align | p2align | balign =>
    simp only [step, hk]
    rfl
  | _ =>
    obtain ⟨_, _, h⟩ := exists_other scan s file
    simp only [step, hk, h]
    rfl

/-- Only statements on sections change what is known of them. -/
theorem exists_step_of_kind (hsection : s.kind.isSection = false) (hpop : s.kind ≠ .popSection)
    (file : String) :
    ∃ symbols alignment uninterpreted messages,
      scan.step file index s = { scan with symbols, alignment, uninterpreted, messages } := by
  unfold step
  cases hk : s.kind with
  | namedSection | text | data | bss | pushSection =>
    rw [hk] at hsection
    cases hsection
  | popSection => exact absurd hk hpop
  | label =>
    obtain ⟨_, h⟩ := exists_label scan index s
    exact ⟨_, _, _, _, h⟩
  | common | localCommon =>
    obtain ⟨_, h⟩ := exists_common scan index s
    exact ⟨_, _, _, _, h⟩
  | type =>
    obtain ⟨_, h⟩ := exists_type scan index s
    exact ⟨_, _, _, _, h⟩
  | size =>
    obtain ⟨_, h⟩ := exists_size scan index s
    exact ⟨_, _, _, _, h⟩
  | localNames | globalNames =>
    obtain ⟨_, h⟩ := exists_setScope scan s _
    exact ⟨_, _, _, _, h⟩
  | align | p2align | balign => exact ⟨_, _, _, _, rfl⟩
  | _ =>
    obtain ⟨_, _, h⟩ := exists_other scan s file
    exact ⟨_, _, _, _, h⟩

theorem run_concat (file : String) (ss : List Statement) :
    run file (ss ++ [s]) = (run file ss).step file ss.length s := by
  simp [run, List.zipIdx_append]

theorem symbolOf_run_nil (file : String) : (run file []).symbols.symbolOf name = { name } :=
  SymbolTable.symbolOf_empty name

theorem symbolOf_run_concat (file : String) (ss : List Statement) :
    (run file (ss ++ [s])).symbols.symbolOf name =
      (run file ss).revise ss.length s name ((run file ss).symbols.symbolOf name) := by
  rw [run_concat, symbolOf_step]

end Scan

end AsmCompare.Listing
