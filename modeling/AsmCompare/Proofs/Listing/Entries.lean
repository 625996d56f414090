import AsmCompare.Listing.Extract
import AsmCompare.Proofs.Listing.Steps

/-! # What the pass over a file leaves for one name

The kind and the place of definition of a name follow from the statements alone, name by name, and
so do the statements of its body: sections, scopes, sizes and alignments play no part in them.
-/
namespace AsmCompare.Listing

/-- The part of a symbol that decides what its body is. -/
structure Entry where
  kind : Symbol.Kind := .unknown
  definedAt : Option Nat := none
  deriving DecidableEq, Repr

namespace Entry

def ofSymbol (symbol : Symbol) : Entry := ⟨symbol.kind, symbol.definedAt⟩

/-- A symbol with this entry and nothing else. -/
def toSymbol (e : Entry) : Symbol := { name := "", kind := e.kind, definedAt := e.definedAt }

/-- What a statement at a position makes of the entry of a name. -/
def after (name : String) (e : Entry) (p : Statement × Nat) : Entry :=
  ofSymbol (Scan.revise {} p.2 p.1 name e.toSymbol)

/-- Neither the rest of the symbol nor the state of the pass matters to the entry. -/
theorem ofSymbol_revise (scan : Scan) (index : Nat) (s : Statement) (name : String)
    (symbol : Symbol) :
    ofSymbol (scan.revise index s name symbol) = (ofSymbol symbol).after name (s, index) := by
  unfold after Scan.revise
  cases s.kind with
  | label | common | localCommon | size | localNames | globalNames => dsimp only; split <;> rfl
  | type =>
    cases s.detail with
    | none => rfl
    | some d =>
      cases d with
      | type => dsimp only; split <;> rfl
      | _ => rfl
  | _ => rfl

end Entry

def SymbolTable.entry (table : SymbolTable) (name : String) : Entry :=
  .ofSymbol (table.symbolOf name)

theorem Scan.entry_step (scan : Scan) (index : Nat) (s : Statement) (name file : String) :
    (scan.step file index s).symbols.entry name =
      (scan.symbols.entry name).after name (s, index) := by
  rw [SymbolTable.entry, symbolOf_step, Entry.ofSymbol_revise, SymbolTable.entry]

theorem entry_ofStatements (file : String) (statements : List Statement) (name : String) :
    (ofStatements file statements).symbols.entry name =
      statements.zipIdx.foldl (Entry.after name) {} := by
  have hstart : SymbolTable.entry ∅ name = {} :=
    congrArg Entry.ofSymbol (SymbolTable.symbolOf_empty name)
  rw [← hstart]
  refine (List.foldl_hom (fun scan : Scan => scan.symbols.entry name) ?_).symm
  intro scan p
  exact (Scan.entry_step scan p.2 p.1 name file).symm

variable (l : Listing) (strip : Bool) (name : String)

/-- Where a name is defined, if it is of this kind. -/
def definedAs? (kind : Symbol.Kind) : Option Nat :=
  if (l.symbols.entry name).kind = kind then (l.symbols.entry name).definedAt else none

theorem entry_eq_of_symbol? {symbol : Symbol} (h : l.symbol? name = some symbol) :
    l.symbols.entry name = ⟨symbol.kind, symbol.definedAt⟩ := by
  have hget : l.symbols[name]? = some symbol := h
  rw [SymbolTable.entry, SymbolTable.symbolOf, Std.TreeMap.getD_eq_getD_getElem?, hget]
  rfl

theorem entry_eq_of_symbol?_eq_none (h : l.symbol? name = none) : l.symbols.entry name = {} := by
  have hget : l.symbols[name]? = none := h
  rw [SymbolTable.entry, SymbolTable.symbolOf, Std.TreeMap.getD_eq_getD_getElem?, hget]
  rfl

theorem kindOf_eq : l.kindOf name =
    if (l.symbols.entry name).definedAt.isSome then (l.symbols.entry name).kind else .unknown := by
  unfold kindOf
  cases hs : l.symbol? name with
  | none =>
    rw [entry_eq_of_symbol?_eq_none l name hs]
    rfl
  | some symbol =>
    rw [entry_eq_of_symbol? l name hs]
    rfl

theorem kindOf_eq_iff {kind : Symbol.Kind} (hk : kind ≠ .unknown) :
    l.kindOf name = kind ↔ (l.definedAs? name kind).isSome = true := by
  rw [kindOf_eq, definedAs?]
  cases (l.symbols.entry name).definedAt with
  | none => simp [hk.symm]
  | some start => by_cases hkind : (l.symbols.entry name).kind = kind <;> simp [hkind]

/-- The statements of the function that is defined at `start`. -/
def functionStatements (start : Nat) : List Statement :=
  (l.functionRange strip name start).map Prod.fst

/-- The statements of the object that is defined at `start`. -/
def objectStatements (start : Nat) : List Statement := (l.objectRange strip start).map Prod.fst

theorem map_fst_filter_runAfter (start : Nat) (p q : Statement → Bool) :
    ((l.runAfter start p).filter fun r => q r.1).map Prod.fst =
      ((l.statements.drop (start + 1)).takeWhile p).filter q := by
  have hrun : (l.runAfter start p).map Prod.fst = (l.statements.drop (start + 1)).takeWhile p :=
    List.zipIdx_map_fst (start + 1) _
  rw [← hrun, List.filter_map]
  rfl

theorem functionStatements_eq (start : Nat) :
    l.functionStatements strip name start =
      ((l.statements.drop (start + 1)).takeWhile fun s =>
        !(s.kind = .size && s.symbol? = some name)).filter fun s => !(strip && isFunctionDebug s) :=
  map_fst_filter_runAfter l start _ fun s => !(strip && isFunctionDebug s)

section Object
variable {start : Nat} {first : Statement}

theorem objectStatements_of_none (h : l.statements[start]? = none) :
    l.objectStatements strip start = [] := by
  rw [objectStatements, objectRange, h]
  rfl

theorem objectStatements_of_isCommon (h : l.statements[start]? = some first)
    (hcommon : first.kind.isCommon = true) : l.objectStatements strip start = [first] := by
  rw [objectStatements, objectRange, h]
  exact congrArg (List.map Prod.fst) (if_pos hcommon)

theorem objectStatements_of_not_isCommon (h : l.statements[start]? = some first)
    (hcommon : first.kind.isCommon = false) :
    l.objectStatements strip start =
      ((l.statements.drop (start + 1)).takeWhile l.continuesObject).filter fun s =>
        !(strip && s.kind.isDebug) := by
  rw [objectStatements, objectRange, h]
  refine (congrArg (List.map Prod.fst) (if_neg (Bool.eq_false_iff.mp hcommon))).trans ?_
  exact map_fst_filter_runAfter l start _ fun s => !(strip && s.kind.isDebug)

end Object

theorem map_takeWhile_filter {statements : List Statement} {f : Statement → Statement}
    {p q p' q' : Statement → Bool} (hp : ∀ s ∈ statements, p' (f s) = p s)
    (hq : ∀ s ∈ statements, q' (f s) = q s) (k : Nat) :
    (((statements.map f).drop k).takeWhile p').filter q' =
      (((statements.drop k).takeWhile p).filter q).map f := by
  have htake : ∀ l : List Statement, (∀ s ∈ l, s ∈ statements) →
      ((l.map f).takeWhile p').filter q' = ((l.takeWhile p).filter q).map f := by
    intro l
    induction l with
    | nil =>
      intro _
      rfl
    | cons s rest ih =>
      intro hl
      have hrest := ih fun t ht => hl t (List.mem_cons_of_mem _ ht)
      have hmem := hl s List.mem_cons_self
      rw [List.map_cons, List.takeWhile_cons, List.takeWhile_cons, hp s hmem]
      cases p s with
      | false => rfl
      | true =>
        simp only [↓reduceIte, List.filter_cons, hq s hmem, hrest]
        split <;> rfl
  rw [← List.map_drop]
  exact htake _ fun s h => List.mem_of_mem_drop h

section Mapped
variable {l} {m : Listing} {f : Statement → Statement} (hm : m.statements = l.statements.map f)
  (hkind : ∀ s, (f s).kind = s.kind)
include hm hkind

theorem functionStatements_map {name name' : String}
    (hsymbol : ∀ s ∈ l.statements, (f s).symbol? = some name' ↔ s.symbol? = some name)
    (hdebug : ∀ s ∈ l.statements, isFunctionDebug (f s) = isFunctionDebug s) (start : Nat) :
    m.functionStatements strip name' start = (l.functionStatements strip name start).map f := by
  rw [functionStatements_eq, functionStatements_eq, hm]
  refine map_takeWhile_filter ?_ ?_ (start + 1)
  · intro s hs
    simp only [hkind, hsymbol s hs]
  · intro s hs
    rw [hdebug s hs]

theorem objectStatements_map
    (hcontinues : ∀ s ∈ l.statements, m.continuesObject (f s) = l.continuesObject s)
    (start : Nat) : m.objectStatements strip start = (l.objectStatements strip start).map f := by
  have hget : m.statements[start]? = l.statements[start]?.map f := by
    rw [hm, List.getElem?_map]
  cases hfirst : l.statements[start]? with
  | none =>
    rw [hfirst] at hget
    rw [objectStatements_of_none m strip hget, objectStatements_of_none l strip hfirst]
    rfl
  | some first =>
    rw [hfirst] at hget
    cases hcommon : first.kind.isCommon with
    | true =>
      rw [objectStatements_of_isCommon m strip hget (by rw [hkind, hcommon]),
        objectStatements_of_isCommon l strip hfirst hcommon]
      rfl
    | false =>
      rw [objectStatements_of_not_isCommon m strip hget (by rw [hkind, hcommon]),
        objectStatements_of_not_isCommon l strip hfirst hcommon, hm]
      refine map_takeWhile_filter hcontinues ?_ (start + 1)
      intro s _
      rw [hkind]

end Mapped

theorem guard_bind {α : Type} (p : Prop) [Decidable p] (x : Option α) :
    ((guard p : Option Unit).bind fun _ => x) = if p then x else none := by
  by_cases h : p
  · rw [if_pos h]
    exact congrArg (Option.bind · fun _ => x) (if_pos h)
  · rw [if_neg h]
    exact congrArg (Option.bind · fun _ => x) (if_neg h)

/-- The statements of a body that is cut out at the definition of a symbol of this kind. -/
theorem map_statements_bodyOf (kind : Symbol.Kind) (range : Nat → List (Statement × Nat)) :
    ((l.symbol? name).bind fun symbol => symbol.definedAt.bind fun start =>
        (guard (symbol.kind = kind) : Option Unit).bind fun _ =>
          some (l.bodyOf symbol (range start))).map Body.statements =
      (l.definedAs? name kind).map fun start => (range start).map Prod.fst := by
  unfold definedAs?
  cases hs : l.symbol? name with
  | none =>
    rw [entry_eq_of_symbol?_eq_none l name hs, ite_self]
    rfl
  | some symbol =>
    rw [entry_eq_of_symbol? l name hs, Option.bind_some]
    cases hd : symbol.definedAt with
    | none =>
      rw [ite_self]
      rfl
    | some start =>
      rw [Option.bind_some, guard_bind]
      by_cases hk : symbol.kind = kind
      · rw [if_pos hk, if_pos hk]
        rfl
      · rw [if_neg hk, if_neg hk]
        rfl

theorem map_statements_function? :
    (l.function? strip name).map Body.statements =
      (l.definedAs? name .function).map (l.functionStatements strip name) :=
  map_statements_bodyOf l name .function (l.functionRange strip name)

theorem map_statements_object? :
    (l.object? strip name).map Body.statements =
      (l.definedAs? name .object).map (l.objectStatements strip) :=
  map_statements_bodyOf l name .object (l.objectRange strip)

variable {l : Listing} {strip : Bool} {name : String} {kind : Symbol.Kind} {b : Body}

theorem mem_of_mem_functionStatements {start : Nat} {s : Statement}
    (h : s ∈ l.functionStatements strip name start) : s ∈ l.statements := by
  rw [functionStatements_eq] at h
  have htake := (List.mem_filter.mp h).1
  exact List.mem_of_mem_drop ((List.takeWhile_sublist _).subset htake)

theorem mem_of_mem_objectStatements {start : Nat} {s : Statement}
    (h : s ∈ l.objectStatements strip start) : s ∈ l.statements := by
  cases hfirst : l.statements[start]? with
  | none =>
    rw [objectStatements_of_none l strip hfirst] at h
    cases h
  | some first =>
    cases hcommon : first.kind.isCommon with
    | true =>
      rw [objectStatements_of_isCommon l strip hfirst hcommon] at h
      obtain rfl := List.mem_singleton.mp h
      exact List.mem_of_getElem? hfirst
    | false =>
      rw [objectStatements_of_not_isCommon l strip hfirst hcommon] at h
      have htake := (List.mem_filter.mp h).1
      exact List.mem_of_mem_drop ((List.takeWhile_sublist _).subset htake)

theorem mem_of_bodyOfKind? (h : l.bodyOfKind? kind strip name = some b) {s : Statement}
    (hs : s ∈ b.statements) : s ∈ l.statements := by
  unfold bodyOfKind? at h
  split at h
  · have hst := map_statements_function? l strip name
    rw [h, Option.map_some] at hst
    obtain ⟨start, -, heq⟩ := Option.map_eq_some_iff.mp hst.symm
    rw [← heq] at hs
    exact mem_of_mem_functionStatements hs
  · have hst := map_statements_object? l strip name
    rw [h, Option.map_some] at hst
    obtain ⟨start, -, heq⟩ := Option.map_eq_some_iff.mp hst.symm
    rw [← heq] at hs
    exact mem_of_mem_objectStatements hs

theorem exists_bodyOfKind?_of_kindOf (hk : kind ≠ .unknown) (h : l.kindOf name = kind)
    (strip : Bool) : ∃ b, l.bodyOfKind? kind strip name = some b := by
  obtain ⟨start, hstart⟩ := Option.isSome_iff_exists.mp ((kindOf_eq_iff l name hk).mp h)
  unfold bodyOfKind?
  cases kind with
  | unknown => exact absurd rfl hk
  | function =>
    have hst := map_statements_function? l strip name
    rw [hstart] at hst
    obtain ⟨b, hb, -⟩ := Option.map_eq_some_iff.mp hst
    exact ⟨b, hb⟩
  | object =>
    have hst := map_statements_object? l strip name
    rw [hstart] at hst
    obtain ⟨b, hb, -⟩ := Option.map_eq_some_iff.mp hst
    exact ⟨b, hb⟩

theorem mem_of_function? (h : l.function? strip name = some b) {s : Statement}
    (hs : s ∈ b.statements) : s ∈ l.statements := by
  have hbody : l.bodyOfKind? .function strip name = some b := h
  exact mem_of_bodyOfKind? hbody hs

/-- A function without its debug statements comes from the full one. -/
theorem exists_full_of_function? (h : l.function? true name = some b) :
    ∃ f, l.function? false name = some f ∧
      b.statements = f.statements.filter fun s => !isFunctionDebug s := by
  have hstripped := map_statements_function? l true name
  rw [h, Option.map_some] at hstripped
  obtain ⟨start, hstart, hb⟩ := Option.map_eq_some_iff.mp hstripped.symm
  have hfull := map_statements_function? l false name
  rw [hstart, Option.map_some] at hfull
  obtain ⟨f, hf, hst⟩ := Option.map_eq_some_iff.mp hfull
  refine ⟨f, hf, ?_⟩
  rw [← hb, hst, functionStatements_eq, functionStatements_eq]
  simp

end AsmCompare.Listing
