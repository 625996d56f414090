import AsmCompare.Proofs.Comparison.FileRun
import AsmCompare.Proofs.Listing.Extraction
import AsmCompare.Proofs.Listing.Resolution
import AsmCompare.Report.Table

/-! # The lines of a symbol table

A table selects symbols by kind and scope together, so a symbol that had the one without the other
would be in no group. None has: whatever gives a name its kind also gives it a scope.
-/
namespace AsmCompare

namespace Listing
variable {l : Listing} {file source name : String} {symbol : Symbol}

theorem sortedSymbols_eq (l : Listing) : l.sortedSymbols = l.symbols.toList.map Prod.snd := by
  have hfold : l.sortedSymbols = l.symbols.foldr (fun _ symbol rest => symbol :: rest) [] := rfl
  rw [hfold, Std.TreeMap.foldr_eq_foldr_toList]
  induction l.symbols.toList with
  | nil => rfl
  | cons entry rest ih => rw [List.foldr_cons, ih, List.map_cons]

theorem mem_sortedSymbols_iff : symbol ∈ l.sortedSymbols ↔ ∃ name, l.symbol? name = some symbol := by
  rw [sortedSymbols_eq, List.mem_map]
  constructor
  · rintro ⟨⟨name, _⟩, hentry, rfl⟩
    exact ⟨name, Std.TreeMap.mem_toList_iff_getElem?_eq_some.mp hentry⟩
  · rintro ⟨name, hname⟩
    exact ⟨(name, symbol), Std.TreeMap.mem_toList_iff_getElem?_eq_some.mpr hname, rfl⟩

theorem name_of_symbol? (h : (load file source).symbol? name = some symbol) : symbol.name = name := by
  rw [← symbolOf_eq_of_symbol? h]
  exact Scan.name_run file name _

/-- The symbols of a file stand in the order of their names. -/
theorem pairwise_sortedSymbols (file source : String) :
    (load file source).sortedSymbols.Pairwise (·.name < ·.name) := by
  have hnames := Change.pairwise_names (load file source)
  rw [names, ← Std.TreeMap.map_fst_toList_eq_keys, List.pairwise_map] at hnames
  rw [sortedSymbols_eq, List.pairwise_map]
  refine hnames.imp_of_mem fun {a b} ha hb hab => ?_
  have hname : ∀ entry ∈ (load file source).symbols.toList, entry.2.name = entry.1 :=
    fun entry hentry => name_of_symbol? (Std.TreeMap.mem_toList_iff_getElem?_eq_some.mp hentry)
  rw [hname a ha, hname b hb]
  exact hab

/-- A name with a kind has a label or a statement that declares it. -/
theorem exists_introduces_of_kind_ne_unknown {ss : List Statement}
    (hss : ∀ s ∈ ss, s.WellFormed)
    (h : ((Scan.run file ss).symbols.symbolOf name).kind ≠ .unknown) :
    ∃ s ∈ ss, Introduces name s := by
  rw [kind_run file name hss] at h
  split at h
  · next hlabel =>
    obtain ⟨-, s, hs, hname⟩ := hlabel
    have hmem : s ∈ ss :=
      List.mem_reverse.mp (List.takeWhile_subset _ (List.mem_reverse.mp hs))
    exact ⟨s, hmem, .inl hname⟩
  · unfold declaredKind at h
    cases hlast : last? (Declares name) ss with
    | none =>
      rw [hlast] at h
      exact absurd rfl h
    | some s =>
      obtain ⟨hmem, hdeclares⟩ := of_last?_eq_some hlast
      exact ⟨s, hmem, .inr hdeclares⟩

/-- A symbol with a kind has a scope. -/
theorem scope_ne_unknown (h : (load file source).symbol? name = some symbol)
    (hkind : symbol.kind ≠ .unknown) : symbol.scope ≠ .unknown := by
  have hss : ∀ s ∈ Statement.ofSource file source, s.WellFormed := fun s hs =>
    Statement.wellFormed_of_mem_ofSource hs
  rw [← symbolOf_eq_of_symbol? h] at hkind ⊢
  rw [scope_run file name hss]
  cases last? (Lists name) (Statement.ofSource file source) with
  | some s => exact listedScope_ne_unknown s
  | none =>
    obtain ⟨s, hs, hintro⟩ := exists_introduces_of_kind_ne_unknown hss hkind
    have hfound : ((Statement.ofSource file source).find? (Introduces name ·)).isSome = true :=
      List.find?_isSome.mpr ⟨s, hs, decide_eq_true hintro⟩
    obtain ⟨t, ht⟩ := Option.isSome_iff_exists.mp hfound
    rw [ht]
    exact firstScope_ne_unknown name t

end Listing

namespace Report
variable {l : Listing} {symbol : Symbol} (o : TableOptions)

/-- The switches for the kind and for the scope are on. -/
def TableOptions.enables (o : TableOptions) (kind : Symbol.Kind) (scope : Symbol.Scope) : Bool :=
  (match kind with
    | .function => o.functions
    | .object => o.objects
    | .unknown => false) &&
  (match scope with
    | .global => o.globals
    | .file => o.locals
    | .unknown => false)

/-- Functions before objects, of either kind the global ones before the local ones, and symbols of
one group by name. -/
def Precedes (s t : Symbol) : Prop :=
  s.kind = .function ∧ t.kind = .object ∨
  s.kind = t.kind ∧ (s.scope = .global ∧ t.scope = .file ∨ s.scope = t.scope ∧ s.name < t.name)

/-- The symbols of one group. -/
def members (l : Listing) (kind : Symbol.Kind) (scope : Symbol.Scope) : List Symbol :=
  l.sortedSymbols.filter fun s => s.kind = kind && s.scope = scope

/-- The symbols that a table lists, in its order. -/
def listed (l : Listing) (o : TableOptions) : List Symbol :=
  (tableGroups o).flatMap fun group => members l group.1 group.2

theorem table_eq (l : Listing) : table l o = (listed l o).map tableLine := List.map_flatMap.symm

theorem mem_members_iff {kind : Symbol.Kind} {scope : Symbol.Scope} :
    symbol ∈ members l kind scope ↔
      symbol ∈ l.sortedSymbols ∧ symbol.kind = kind ∧ symbol.scope = scope := by
  rw [members, List.mem_filter, Bool.and_eq_true, decide_eq_true_iff, decide_eq_true_iff]

theorem filter_members (kind : Symbol.Kind) (scope : Symbol.Scope) :
    (members l kind scope).filter (fun s => o.enables s.kind s.scope) =
      if o.enables kind scope then members l kind scope else [] := by
  have hmember : ∀ s ∈ members l kind scope,
      o.enables s.kind s.scope = o.enables kind scope := by
    intro s hs
    rw [(mem_members_iff.mp hs).2.1, (mem_members_iff.mp hs).2.2]
  rw [List.filter_congr hmember]
  split
  · next h => simp [h]
  · next h => simp [h]

/-- The full table without the groups that are switched off. -/
theorem listed_eq_filter (l : Listing) :
    listed l o = (listed l {}).filter fun s => o.enables s.kind s.scope := by
  simp only [listed, tableGroups, Bool.and_true, ↓reduceIte, List.flatMap_append,
    List.flatMap_singleton, List.filter_append, filter_members]
  congr 1
  · congr 1
    · congr 1
      · cases h : o.functions && o.globals <;> simp [TableOptions.enables, h]
      · cases h : o.functions && o.locals <;> simp [TableOptions.enables, h]
    · cases h : o.objects && o.globals <;> simp [TableOptions.enables, h]
  · cases h : o.objects && o.locals <;> simp [TableOptions.enables, h]

theorem mem_listed_iff : symbol ∈ listed l {} ↔
    symbol ∈ l.sortedSymbols ∧ symbol.kind ≠ .unknown ∧ symbol.scope ≠ .unknown := by
  simp only [listed, tableGroups, Bool.and_true, ↓reduceIte, List.flatMap_append,
    List.flatMap_singleton, List.mem_append, mem_members_iff]
  cases symbol.kind <;> cases symbol.scope <;> simp

theorem pairwise_precedes (h : l.sortedSymbols.Pairwise (·.name < ·.name)) :
    (listed l {}).Pairwise Precedes := by
  unfold listed
  refine List.pairwise_flatMap.mpr ⟨?_, ?_⟩
  · rintro ⟨kind, scope⟩ -
    refine (h.filter _).imp_of_mem fun hs ht hlt => ?_
    obtain ⟨-, hsk, hss⟩ := mem_members_iff.mp hs
    obtain ⟨-, htk, hts⟩ := mem_members_iff.mp ht
    exact .inr ⟨hsk.trans htk.symm, .inr ⟨hss.trans hts.symm, hlt⟩⟩
  · have hgroups : (tableGroups {}).Pairwise fun g h =>
        g.1 = .function ∧ h.1 = .object ∨ g.1 = h.1 ∧ g.2 = .global ∧ h.2 = .file := by decide
    refine hgroups.imp fun {g h} hgh s hs t ht => ?_
    obtain ⟨-, hsk, hss⟩ := mem_members_iff.mp hs
    obtain ⟨-, htk, hts⟩ := mem_members_iff.mp ht
    rw [← hsk, ← hss, ← htk, ← hts] at hgh
    exact hgh.imp_right fun ⟨hkind, hscope⟩ => ⟨hkind, .inl hscope⟩

/-- Every symbol with a kind has its one line in the full table, in the order of the groups and of
the names, and the switches take lines away and change nothing else. -/
theorem table_load (file source : String) :
    (∀ name symbol, (Listing.load file source).symbol? name = some symbol →
      symbol.kind ≠ .unknown → symbol.scope = .global ∨ symbol.scope = .file) ∧
    ∃ symbols : List Symbol, symbols.Pairwise Precedes ∧
      (∀ symbol, symbol ∈ symbols ↔
        symbol.kind ≠ .unknown ∧ ∃ name, (Listing.load file source).symbol? name = some symbol) ∧
      table (.load file source) {} = symbols.map tableLine ∧
      ∀ o : TableOptions, table (.load file source) o =
        (symbols.filter fun s => o.enables s.kind s.scope).map tableLine := by
  refine ⟨?_, listed (.load file source) {},
    pairwise_precedes (Listing.pairwise_sortedSymbols file source), ?_, table_eq _ _, ?_⟩
  · intro name symbol h hkind
    have hscope := Listing.scope_ne_unknown h hkind
    cases hs : symbol.scope with
    | global => exact .inl rfl
    | file => exact .inr rfl
    | unknown => exact absurd hs hscope
  · intro symbol
    rw [mem_listed_iff, Listing.mem_sortedSymbols_iff]
    constructor
    · rintro ⟨hname, hkind, -⟩
      exact ⟨hkind, hname⟩
    · rintro ⟨hkind, name, h⟩
      exact ⟨⟨name, h⟩, hkind, Listing.scope_ne_unknown h hkind⟩
  · intro o
    rw [table_eq, listed_eq_filter]

end Report

end AsmCompare
