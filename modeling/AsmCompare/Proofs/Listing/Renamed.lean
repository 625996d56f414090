import AsmCompare.Proofs.Listing.Entries
import AsmCompare.Proofs.Statement.MapNames
import Mathlib.Logic.Equiv.Basic

/-! # A file with other generated names

A map on names that keeps the tests on names carries the symbol table of a file and the statements
of its bodies over to the file with the new names.
-/
namespace AsmCompare

/-- Generated names are replaced by generated names of the same classes, and no two become one. -/
structure Name.IsChurn (σ : String → String) : Prop where
  injective : Function.Injective σ
  named : ∀ x, isGenerated x = false → σ x = x
  generated : ∀ x, isGenerated x = true → isGenerated (σ x) = true
  tracked : ∀ x, isTracked (σ x) = isTracked x
  localLabel : ∀ x, isLocalLabel (σ x) = isLocalLabel x
  debugLabel : ∀ x, isDebugLabel (σ x) = isDebugLabel x

namespace Name.IsChurn
variable {σ : String → String} (hσ : IsChurn σ)
include hσ

theorem eq_empty_iff (x : String) : σ x = "" ↔ x = "" := by
  have hempty : σ "" = "" := hσ.named "" (by decide)
  constructor
  · intro h
    exact hσ.injective (h.trans hempty.symm)
  · rintro rfl
    exact hempty

theorem map_eq_some_iff {o : Option String} {x : String} : o.map σ = some (σ x) ↔ o = some x := by
  rw [Option.map_eq_some_iff]
  constructor
  · rintro ⟨y, rfl, hy⟩
    rw [hσ.injective hy]
  · rintro rfl
    exact ⟨x, rfl, rfl⟩

omit hσ in
/-- Two generated names of the same classes can change places. -/
theorem swap {x y : String} (hgen : isGenerated x = true ∧ isGenerated y = true)
    (htracked : isTracked x = isTracked y) (hlocal : isLocalLabel x = isLocalLabel y)
    (hdebug : isDebugLabel x = isDebugLabel y) : IsChurn (Equiv.swap x y) := by
  have hclass : ∀ p : String → Bool, p x = p y → ∀ z, p (Equiv.swap x y z) = p z := by
    intro p hp z
    rw [Equiv.swap_apply_def]
    split
    · next h => rw [h, hp]
    · split
      · next h => rw [h, hp]
      · rfl
  have hgenerated := hclass isGenerated (hgen.1.trans hgen.2.symm)
  refine ⟨(Equiv.swap x y).injective, fun z hz => ?_, fun z hz => ?_, hclass _ htracked,
    hclass _ hlocal, hclass _ hdebug⟩
  · refine Equiv.swap_apply_of_ne_of_ne ?_ ?_
    · rintro rfl
      rw [hgen.1] at hz
      cases hz
    · rintro rfl
      rw [hgen.2] at hz
      cases hz
  · rw [hgenerated, hz]

theorem comp {τ : String → String} (hτ : IsChurn τ) : IsChurn (τ ∘ σ) where
  injective := hτ.injective.comp hσ.injective
  named x hx := by rw [Function.comp_apply, hσ.named x hx, hτ.named x hx]
  generated x hx := hτ.generated _ (hσ.generated x hx)
  tracked x := (hτ.tracked _).trans (hσ.tracked x)
  localLabel x := (hτ.localLabel _).trans (hσ.localLabel x)
  debugLabel x := (hτ.debugLabel _).trans (hσ.debugLabel x)

end Name.IsChurn

namespace Listing

/-- The symbol table is that of the statements, and these are well formed. -/
structure Loaded (l : Listing) : Prop where
  symbols : l.symbols = (ofStatements l.file l.statements).symbols
  wellFormed : ∀ s ∈ l.statements, s.WellFormed

/-- The file with other names in all its statements. -/
def withNames (l : Listing) (file : String) (σ : String → String) : Listing :=
  ofStatements file (l.statements.map (Statement.mapNames σ))

theorem loaded_load (file source : String) : (load file source).Loaded :=
  ⟨rfl, fun _ h => Statement.wellFormed_of_mem_ofSource h⟩

theorem Loaded.entry {l : Listing} (hl : l.Loaded) (name : String) :
    l.symbols.entry name = l.statements.zipIdx.foldl (Entry.after name) {} := by
  rw [hl.symbols, entry_ofStatements]

variable {σ : String → String} (hσ : Name.IsChurn σ)
include hσ

theorem after_mapNames {s : Statement} (h : s.WellFormed) (name : String) (e : Entry) (i : Nat) :
    e.after (σ name) (s.mapNames σ, i) = e.after name (s, i) := by
  have hlabel : (s.mapNames σ).label? = some (σ name) ↔ s.label? = some name := by
    rw [h.label?_mapNames, hσ.map_eq_some_iff]
  have hsymbol : (s.mapNames σ).symbol? = some (σ name) ↔ s.symbol? = some name := by
    rw [h.symbol?_mapNames hσ.eq_empty_iff, hσ.map_eq_some_iff]
  unfold Entry.after Scan.revise
  simp only [Statement.kind_mapNames, hlabel, hsymbol, hσ.tracked]
  cases hk : s.kind with
  | localNames | globalNames => dsimp only; split <;> split <;> rfl
  | type =>
    have hd := Statement.detail_mapNames σ (s := s) (by rw [hk]; rfl)
    rw [hd]
    cases s.detail with
    | none => rfl
    | some d => cases d <;> rfl
  | _ => rfl

theorem foldl_after_mapNames {ps : List (Statement × Nat)} (h : ∀ p ∈ ps, p.1.WellFormed)
    (name : String) (e : Entry) :
    (ps.map (Prod.map (Statement.mapNames σ) id)).foldl (Entry.after (σ name)) e =
      ps.foldl (Entry.after name) e := by
  induction ps generalizing e with
  | nil => rfl
  | cons p rest ih =>
    obtain ⟨s, i⟩ := p
    have hstep := after_mapNames hσ (h (s, i) List.mem_cons_self) name e i
    rw [List.map_cons, List.foldl_cons, List.foldl_cons, Prod.map_apply, id, hstep]
    exact ih (fun p hp => h p (List.mem_cons_of_mem _ hp)) _

variable {l : Listing} (hl : l.Loaded) (file : String)
include hl

theorem entry_renamed (name : String) :
    (l.withNames file σ).symbols.entry (σ name) = l.symbols.entry name := by
  rw [withNames, entry_ofStatements, hl.entry, List.zipIdx_map]
  refine foldl_after_mapNames hσ (fun p hp => ?_) name {}
  exact hl.wellFormed p.1 (List.fst_mem_of_mem_zipIdx hp)

theorem kindOf_renamed (name : String) :
    (l.withNames file σ).kindOf (σ name) = l.kindOf name := by
  rw [kindOf_eq, kindOf_eq, entry_renamed hσ hl file]

theorem definedAs?_renamed (name : String) (kind : Symbol.Kind) :
    (l.withNames file σ).definedAs? (σ name) kind = l.definedAs? name kind := by
  rw [definedAs?, definedAs?, entry_renamed hσ hl file]

theorem continuesObject_renamed {s : Statement} (h : s.WellFormed) :
    (l.withNames file σ).continuesObject (s.mapNames σ) = l.continuesObject s := by
  have hstarts : (l.withNames file σ).startsSymbol (s.mapNames σ) = l.startsSymbol s := by
    unfold startsSymbol
    rw [h.label?_mapNames]
    cases s.label? with
    | none => rfl
    | some name => simp only [Option.map_some, kindOf_renamed hσ hl file]
  rw [continuesObject, continuesObject, hstarts, Statement.isLabel, Statement.isLabel,
    Statement.kind_mapNames]

omit hl in
theorem isFunctionDebug_mapNames {s : Statement} (h : s.WellFormed) :
    isFunctionDebug (s.mapNames σ) = isFunctionDebug s := by
  have hlabel : Name.isDebugLabel ((s.mapNames σ).label?.getD "") =
      Name.isDebugLabel (s.label?.getD "") := by
    rw [h.label?_mapNames]
    cases s.label? with
    | none => rfl
    | some name => exact hσ.debugLabel name
  rw [isFunctionDebug, isFunctionDebug, hlabel, Statement.isLabel, Statement.isLabel,
    Statement.kind_mapNames]

theorem functionStatements_renamed (strip : Bool) (name : String) (start : Nat) :
    (l.withNames file σ).functionStatements strip (σ name) start =
      (l.functionStatements strip name start).map (Statement.mapNames σ) := by
  refine functionStatements_map strip rfl (Statement.kind_mapNames σ) ?_ ?_ start
  · intro s hs
    rw [(hl.wellFormed s hs).symbol?_mapNames hσ.eq_empty_iff, hσ.map_eq_some_iff]
  · intro s hs
    exact isFunctionDebug_mapNames hσ (hl.wellFormed s hs)

theorem objectStatements_renamed (strip : Bool) (start : Nat) :
    (l.withNames file σ).objectStatements strip start =
      (l.objectStatements strip start).map (Statement.mapNames σ) := by
  refine objectStatements_map strip rfl (Statement.kind_mapNames σ) ?_ start
  intro s hs
  exact continuesObject_renamed hσ hl file (hl.wellFormed s hs)

/-- The body of a renamed symbol has the renamed statements. -/
theorem map_statements_bodyOfKind?_renamed (kind : Symbol.Kind) (strip : Bool) (name : String) :
    ((l.withNames file σ).bodyOfKind? kind strip (σ name)).map Body.statements =
      ((l.bodyOfKind? kind strip name).map Body.statements).map
        (List.map (Statement.mapNames σ)) := by
  unfold bodyOfKind?
  by_cases hk : kind = .function
  · simp only [hk, ↓reduceIte, map_statements_function?, Option.map_map,
      definedAs?_renamed hσ hl file]
    congr 1
    funext start
    exact functionStatements_renamed hσ hl file strip name start
  · simp only [hk, ↓reduceIte, map_statements_object?, Option.map_map,
      definedAs?_renamed hσ hl file]
    congr 1
    funext start
    exact objectStatements_renamed hσ hl file strip start

end Listing

end AsmCompare
