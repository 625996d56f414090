import AsmCompare.Proofs.Listing.Steps
import AsmCompare.Proofs.Statement.MapNames
import Mathlib.Data.List.Induction
import Mathlib.Order.Bounds.Basic
import Mathlib.Data.Nat.SuccPred

/-! # The bookmarks of a symbol

A symbol of a loaded file keeps positions in the list of statements. The definition, the size and
the type of a name are the last statements of their sort, the section is one that was selected in
front of the definition, and the alignment is the last one that reached a label of the name.
-/
namespace AsmCompare.Listing

/-- The positions of the statements with a property. -/
def positions (p : Statement → Prop) (ss : List Statement) : Set Nat :=
  {i | ∃ s, ss[i]? = some s ∧ p s}

/-- The last of some positions, or none if there are none. -/
def IsLast (place : Option Nat) (S : Set Nat) : Prop := ∀ i, place = some i ↔ IsGreatest S i

/-- The first of some positions, or none if there are none. -/
def IsFirst (place : Option Nat) (S : Set Nat) : Prop := ∀ i, place = some i ↔ IsLeast S i

section Positions
variable {p : Statement → Prop} {ss : List Statement} {s : Statement} {i : Nat}

theorem lt_of_mem_positions (h : i ∈ positions p ss) : i < ss.length := by
  obtain ⟨_, hi, -⟩ := h
  exact (List.getElem?_eq_some_iff.mp hi).1

theorem le_of_mem_positions_concat (h : i ∈ positions p (ss ++ [s])) : i ≤ ss.length := by
  have hlt := lt_of_mem_positions h
  rw [List.length_append, List.length_singleton] at hlt
  omega

theorem mem_positions_concat_of_lt (h : i < ss.length) :
    i ∈ positions p (ss ++ [s]) ↔ i ∈ positions p ss := by
  simp only [positions, Set.mem_ofPred_eq, List.getElem?_append_left h]

theorem length_mem_positions_concat : ss.length ∈ positions p (ss ++ [s]) ↔ p s := by
  simp [positions]

theorem mem_positions_concat :
    i ∈ positions p (ss ++ [s]) ↔ i ∈ positions p ss ∨ i = ss.length ∧ p s := by
  constructor
  · intro h
    rcases Nat.lt_or_eq_of_le (le_of_mem_positions_concat h) with hi | rfl
    · exact .inl ((mem_positions_concat_of_lt hi).mp h)
    · exact .inr ⟨rfl, length_mem_positions_concat.mp h⟩
  · rintro (h | ⟨rfl, h⟩)
    · exact (mem_positions_concat_of_lt (lt_of_mem_positions h)).mpr h
    · exact length_mem_positions_concat.mpr h

theorem mem_positions_take {j : Nat} :
    i ∈ positions p (ss.take j) ↔ i < j ∧ i ∈ positions p ss := by
  by_cases h : i < j <;> simp [positions, List.getElem?_take, h]

theorem isLast_nil (p : Statement → Prop) : IsLast none (positions p []) := by
  intro i
  constructor
  · intro h
    cases h
  · intro h
    exact absurd (lt_of_mem_positions h.1) (Nat.not_lt_zero i)

theorem IsLast.concat {place : Option Nat} (h : IsLast place (positions p ss)) [Decidable (p s)] :
    IsLast (if p s then some ss.length else place) (positions p (ss ++ [s])) := by
  by_cases hp : p s
  · have hlast : IsGreatest (positions p (ss ++ [s])) ss.length := by
      refine ⟨length_mem_positions_concat.mpr hp, ?_⟩
      intro i hi
      exact le_of_mem_positions_concat hi
    intro i
    rw [if_pos hp, Option.some.injEq]
    exact ⟨fun hi => hi ▸ hlast, fun hi => hlast.unique hi⟩
  · have hsame : positions p (ss ++ [s]) = positions p ss := by
      ext i
      rw [mem_positions_concat]
      simp [hp]
    rw [if_neg hp, hsame]
    exact h

theorem IsLast.eq_empty (h : IsLast none (positions p ss)) : positions p ss = ∅ := by
  rw [Set.eq_empty_iff_forall_notMem]
  intro i hi
  have hbound : BddAbove (positions p ss) := ⟨ss.length, fun k hk => (lt_of_mem_positions hk).le⟩
  obtain ⟨last, hlast⟩ := hbound.exists_isGreatest_of_nonempty ⟨i, hi⟩
  cases (h last).mpr hlast

theorem IsLast.isSome_iff {place : Option Nat} (h : IsLast place (positions p ss)) :
    place.isSome = true ↔ ∃ s ∈ ss, p s := by
  constructor
  · intro hsome
    obtain ⟨i, hi⟩ := Option.isSome_iff_exists.mp hsome
    obtain ⟨s, hs, hp⟩ := ((h i).mp hi).1
    exact ⟨s, List.mem_of_getElem? hs, hp⟩
  · rintro ⟨s, hs, hp⟩
    obtain ⟨i, hi⟩ := List.mem_iff_getElem?.mp hs
    cases place with
    | some _ => rfl
    | none =>
      have hmem : i ∈ positions p ss := ⟨s, hi, hp⟩
      rw [h.eq_empty] at hmem
      cases hmem

theorem IsLast.exists_le {place : Option Nat} (h : IsLast place (positions p ss))
    (hi : i ∈ positions p ss) : ∃ last, place = some last ∧ i ≤ last := by
  cases place with
  | some last => exact ⟨last, rfl, ((h last).mp rfl).2 hi⟩
  | none =>
    rw [h.eq_empty] at hi
    cases hi

theorem IsFirst.eq_empty {S : Set Nat} (h : IsFirst none S) : S = ∅ := by
  rw [Set.eq_empty_iff_forall_notMem]
  intro i hi
  obtain ⟨first, hfirst⟩ := (OrderBot.bddBelow S).exists_isLeast_of_nonempty ⟨i, hi⟩
  cases (h first).mpr hfirst

theorem isFirst_nil (p : Statement → Prop) : IsFirst none (positions p []) := by
  intro i
  constructor
  · intro h
    cases h
  · intro h
    exact absurd (lt_of_mem_positions h.1) (Nat.not_lt_zero i)

theorem IsFirst.concat {place : Option Nat} (h : IsFirst place (positions p ss)) [Decidable (p s)] :
    IsFirst (place <|> if p s then some ss.length else none) (positions p (ss ++ [s])) := by
  cases place with
  | some first =>
    have hfirst := (h first).mp rfl
    have hleast : IsLeast (positions p (ss ++ [s])) first := by
      refine ⟨mem_positions_concat.mpr (.inl hfirst.1), ?_⟩
      intro i hi
      rcases mem_positions_concat.mp hi with hi | ⟨rfl, -⟩
      · exact hfirst.2 hi
      · exact (lt_of_mem_positions hfirst.1).le
    intro i
    exact ⟨fun hi => Option.some.inj hi ▸ hleast, fun hi => congrArg some (hleast.unique hi)⟩
  | none =>
    have hnew : ∀ i, i ∈ positions p (ss ++ [s]) ↔ i = ss.length ∧ p s := by
      intro i
      rw [mem_positions_concat, h.eq_empty]
      simp
    intro i
    by_cases hp : p s
    · rw [if_pos hp]
      constructor
      · rintro ⟨⟩
        exact ⟨(hnew _).mpr ⟨rfl, hp⟩, fun k hk => ((hnew k).mp hk).1.ge⟩
      · intro hi
        exact congrArg some ((hnew i).mp hi.1).1.symm
    · rw [if_neg hp]
      exact ⟨nofun, fun hi => absurd ((hnew i).mp hi.1).2 hp⟩

end Positions

/-- A label of this name, which the table keeps. -/
def IsLabelOf (name : String) (s : Statement) : Prop :=
  s.kind = .label ∧ s.label? = some name ∧ Name.isTracked name = true

/-- A directive of this kind about this name. -/
def IsAbout (kind : Statement.Kind) (name : String) (s : Statement) : Prop :=
  s.kind = kind ∧ s.symbol? = some name

def Defines (name : String) (s : Statement) : Prop :=
  IsLabelOf name s ∨ IsAbout .common name s ∨ IsAbout .localCommon name s

/-- All statements for sections but a `.pushsection` that only saves the one in force. -/
def SelectsSection (s : Statement) : Prop :=
  s.kind.isSection = true ∧ (s.kind = .pushSection → sectionName s ≠ "")

instance (name : String) (s : Statement) : Decidable (IsLabelOf name s) :=
  inferInstanceAs (Decidable (_ ∧ _))

instance (kind : Statement.Kind) (name : String) (s : Statement) :
    Decidable (IsAbout kind name s) :=
  inferInstanceAs (Decidable (_ ∧ _))

instance (name : String) (s : Statement) : Decidable (Defines name s) :=
  inferInstanceAs (Decidable (_ ∨ _))

/-- The alignment at `i` reaches the end of the statements. -/
def Waits (ss : List Statement) (i : Nat) : Prop :=
  i ∈ positions (·.kind.isAlignment) ss ∧
    ∀ k, i < k → k < ss.length → k ∈ positions (Scan.passesAlignment ·) ss

/-- The alignment at `i` reaches the label of a name at `j`. -/
def Aligns (name : String) (ss : List Statement) (i j : Nat) : Prop :=
  i ∈ positions (·.kind.isAlignment) ss ∧ j ∈ positions (IsLabelOf name) ss ∧ i < j ∧
    ∀ k, i < k → k < j → k ∈ positions (Scan.passesAlignment ·) ss

/-- What the places of a symbol say about the statements. -/
structure Bookmarks (name : String) (ss : List Statement) (symbol : Symbol) : Prop where
  definedAt : IsLast symbol.definedAt (positions (Defines name) ss)
  sizeAt : IsLast symbol.sizeAt (positions (IsAbout .size name) ss)
  typeAt : IsLast symbol.typeAt (positions (IsAbout .type name) ss)
  sectionAt : ∀ i, symbol.sectionAt = some i →
    i ∈ positions SelectsSection ss ∧ ∃ d, symbol.definedAt = some d ∧ i < d
  alignAt : ∀ i, symbol.alignAt = some i ↔
    ∃ j, IsGreatest {k | ∃ h, Aligns name ss h k} j ∧ Aligns name ss i j
  aligns_le : ∀ i j, Aligns name ss i j → ∃ d, symbol.definedAt = some d ∧ j ≤ d

section Alignments
variable {name : String} {ss : List Statement} {s : Statement} {i j : Nat}

theorem not_isAlignment_of_passesAlignment (h : Scan.passesAlignment s = true) :
    s.kind.isAlignment = false := by
  unfold Scan.passesAlignment at h
  revert h
  cases s.kind <;> simp [Statement.Kind.isAlignment, Statement.Kind.isSection]

theorem waits_concat : Waits (ss ++ [s]) i ↔
    i = ss.length ∧ s.kind.isAlignment = true ∨ Scan.passesAlignment s = true ∧ Waits ss i := by
  have hlength : (ss ++ [s]).length = ss.length + 1 := List.length_append
  constructor
  · rintro ⟨hi, hpass⟩
    rcases mem_positions_concat.mp hi with hi | hi
    · have hlt := lt_of_mem_positions hi
      refine .inr ⟨length_mem_positions_concat.mp (hpass _ hlt (by omega)), hi, ?_⟩
      intro k hik hk
      exact (mem_positions_concat_of_lt hk).mp (hpass k hik (by omega))
    · exact .inl hi
  · rintro (hi | ⟨hs, hi, hpass⟩)
    · refine ⟨mem_positions_concat.mpr (.inr hi), ?_⟩
      intro k hik hk
      omega
    · refine ⟨mem_positions_concat.mpr (.inl hi), ?_⟩
      intro k hik hk
      rcases Nat.lt_or_ge k ss.length with hlt | hge
      · exact (mem_positions_concat_of_lt hlt).mpr (hpass k hik hlt)
      · exact mem_positions_concat.mpr (.inr ⟨by omega, hs⟩)

theorem aligns_concat : Aligns name (ss ++ [s]) i j ↔
    Aligns name ss i j ∨ j = ss.length ∧ IsLabelOf name s ∧ Waits ss i := by
  constructor
  · rintro ⟨hi, hj, hij, hpass⟩
    have hle := le_of_mem_positions_concat hj
    have hi' := (mem_positions_concat_of_lt (by omega)).mp hi
    have hpass' : ∀ k, i < k → k < j → k ∈ positions (Scan.passesAlignment ·) ss := by
      intro k hik hkj
      exact (mem_positions_concat_of_lt (by omega)).mp (hpass k hik hkj)
    rcases mem_positions_concat.mp hj with hj | ⟨rfl, hs⟩
    · exact .inl ⟨hi', hj, hij, hpass'⟩
    · exact .inr ⟨rfl, hs, hi', hpass'⟩
  · rintro (⟨hi, hj, hij, hpass⟩ | ⟨rfl, hs, hi, hpass⟩)
    · refine ⟨mem_positions_concat.mpr (.inl hi), mem_positions_concat.mpr (.inl hj), hij, ?_⟩
      intro k hik hkj
      exact mem_positions_concat.mpr (.inl (hpass k hik hkj))
    · refine ⟨mem_positions_concat.mpr (.inl hi), length_mem_positions_concat.mpr hs,
        lt_of_mem_positions hi, ?_⟩
      intro k hik hk
      exact mem_positions_concat.mpr (.inl (hpass k hik hk))

end Alignments

namespace Scan
variable (scan : Scan) (index : Nat) (s : Statement) (name : String) (symbol : Symbol)

/-- A statement on the type leaves all places alone but its own. -/
theorem exists_revise_of_type (hk : s.kind = .type) :
    ∃ kind typeAt scope,
      scan.revise index s name symbol = { symbol with kind, typeAt, scope } := by
  simp only [revise, hk]
  split
  · split <;> exact ⟨_, _, _, rfl⟩
  · exact ⟨_, _, _, rfl⟩

theorem definedAt_revise : (scan.revise index s name symbol).definedAt =
    if Defines name s then some index else symbol.definedAt := by
  cases hk : s.kind with
  | type =>
    obtain ⟨_, _, _, h⟩ := exists_revise_of_type scan index s name symbol hk
    simp [h, Defines, IsLabelOf, IsAbout, hk]
  | _ =>
    simp [revise, definedByLabel, definedAsCommon, Symbol.withDefaultScope, Defines, IsLabelOf,
      IsAbout, hk, apply_ite Symbol.definedAt]

theorem sectionAt_revise : (scan.revise index s name symbol).sectionAt =
    if Defines name s then scan.inForce else symbol.sectionAt := by
  cases hk : s.kind with
  | type =>
    obtain ⟨_, _, _, h⟩ := exists_revise_of_type scan index s name symbol hk
    simp [h, Defines, IsLabelOf, IsAbout, hk]
  | _ =>
    simp [revise, definedByLabel, definedAsCommon, Symbol.withDefaultScope, Defines, IsLabelOf,
      IsAbout, hk, apply_ite Symbol.sectionAt]

theorem sizeAt_revise : (scan.revise index s name symbol).sizeAt =
    if IsAbout .size name s then some index else symbol.sizeAt := by
  cases hk : s.kind with
  | type =>
    obtain ⟨_, _, _, h⟩ := exists_revise_of_type scan index s name symbol hk
    simp [h, IsAbout, hk]
  | _ =>
    simp [revise, definedByLabel, definedAsCommon, Symbol.withDefaultScope, IsAbout, hk,
      apply_ite Symbol.sizeAt]

theorem alignAt_revise : (scan.revise index s name symbol).alignAt =
    if IsLabelOf name s then scan.alignment <|> symbol.alignAt else symbol.alignAt := by
  cases hk : s.kind with
  | type =>
    obtain ⟨_, _, _, h⟩ := exists_revise_of_type scan index s name symbol hk
    simp [h, IsLabelOf, hk]
  | _ =>
    simp [revise, definedByLabel, definedAsCommon, Symbol.withDefaultScope, IsLabelOf, hk,
      apply_ite Symbol.alignAt]

theorem typeAt_revise (hs : s.WellFormed) : (scan.revise index s name symbol).typeAt =
    if IsAbout .type name s then some index else symbol.typeAt := by
  cases hk : s.kind with
  | type =>
    have hshape := hs.shape
    rw [hk] at hshape
    obtain ⟨d, hd, hds⟩ := Option.map_eq_some_iff.mp hshape
    cases d with
    | type =>
      simp [revise, givenType, Symbol.withDefaultScope, IsAbout, hk, hd, apply_ite Symbol.typeAt]
    | _ => cases hds
  | _ =>
    simp [revise, definedByLabel, definedAsCommon, Symbol.withDefaultScope, IsAbout, hk,
      apply_ite Symbol.typeAt]

theorem name_revise : (scan.revise index s name symbol).name = symbol.name := by
  cases hk : s.kind with
  | type =>
    obtain ⟨_, _, _, h⟩ := exists_revise_of_type scan index s name symbol hk
    rw [h]
  | _ =>
    simp [revise, definedByLabel, definedAsCommon, Symbol.withDefaultScope, hk,
      apply_ite Symbol.name]

theorem name_run (file name : String) (ss : List Statement) :
    ((run file ss).symbols.symbolOf name).name = name := by
  induction ss using List.reverseRecOn with
  | nil => rw [symbolOf_run_nil]
  | append_singleton ss s ih => rw [symbolOf_run_concat, name_revise, ih]

variable {name} in
/-- A place that statements of one sort set, and no others, is that of the last of them. -/
theorem isLast_run {p : Statement → Prop} [DecidablePred p] {place : Symbol → Option Nat}
    {ss : List Statement} (hblank : place { name } = none)
    (hrevise : ∀ s ∈ ss, ∀ (scan : Scan) (index : Nat) (symbol : Symbol),
      place (scan.revise index s name symbol) = if p s then some index else place symbol)
    (file : String) :
    IsLast (place ((run file ss).symbols.symbolOf name)) (positions p ss) := by
  induction ss using List.reverseRecOn with
  | nil =>
    rw [symbolOf_run_nil, hblank]
    exact isLast_nil p
  | append_singleton ss s ih =>
    rw [symbolOf_run_concat, hrevise s (List.mem_append_right ss (List.mem_singleton_self s))]
    exact (ih fun t ht => hrevise t (List.mem_append_left _ ht)).concat

/-- The sections that the pass knows were selected. -/
structure SectionsSelected (ss : List Statement) (scan : Scan) : Prop where
  inForce : ∀ i, scan.inForce = some i → i ∈ positions SelectsSection ss
  saved : ∀ i, some i ∈ scan.saved → i ∈ positions SelectsSection ss
  anchors : ∀ (name : String) i, scan.anchors[name]? = some i → i ∈ positions SelectsSection ss

namespace SectionsSelected
variable {scan index s} {ss : List Statement} (h : SectionsSelected ss scan)
include h

theorem concat (s : Statement) : SectionsSelected (ss ++ [s]) scan where
  inForce i hi := mem_positions_concat.mpr (.inl (h.inForce i hi))
  saved i hi := mem_positions_concat.mpr (.inl (h.saved i hi))
  anchors name i hi := mem_positions_concat.mpr (.inl (h.anchors name i hi))

theorem put {place : Option Nat} (hplace : ∀ i, place = some i → i ∈ positions SelectsSection ss) :
    SectionsSelected ss { scan with inForce := place } :=
  ⟨hplace, h.saved, h.anchors⟩

theorem select (hindex : index ∈ positions SelectsSection ss) :
    SectionsSelected ss (scan.select index s) := by
  have hplace : ∀ i, some index = some i → i ∈ positions SelectsSection ss := by
    rintro _ ⟨⟩
    exact hindex
  simp only [Scan.select]
  split
  · exact h.put hplace
  · split
    · next first hfirst =>
      apply h.put
      rintro _ ⟨⟩
      exact h.anchors _ _ hfirst
    · refine ⟨hplace, h.saved, ?_⟩
      intro name i hi
      rw [Std.TreeMap.getElem?_insert] at hi
      split at hi
      · exact hplace i hi
      · exact h.anchors name i hi

theorem save : SectionsSelected ss { scan with saved := scan.inForce :: scan.saved } := by
  refine ⟨h.inForce, ?_, h.anchors⟩
  intro i hi
  rcases List.mem_cons.mp hi with heq | hi
  · exact h.inForce i heq.symm
  · exact h.saved i hi

theorem pop (file : String) : SectionsSelected ss (scan.pop file s) := by
  unfold Scan.pop
  split
  · next top rest hsaved =>
    refine ⟨?_, ?_, h.anchors⟩
    · intro i hi
      apply h.saved
      rw [hsaved, ← hi]
      exact List.mem_cons_self
    · intro i hi
      apply h.saved
      rw [hsaved]
      exact List.mem_cons_of_mem top hi
  · exact ⟨h.inForce, h.saved, h.anchors⟩

theorem step (file : String) : SectionsSelected (ss ++ [s]) (scan.step file ss.length s) := by
  have hkept := h.concat s
  have hlength : SelectsSection s → ss.length ∈ positions SelectsSection (ss ++ [s]) :=
    length_mem_positions_concat.mpr
  cases hk : s.kind with
  | text | data | bss =>
    simp only [Scan.step, hk]
    apply hkept.put
    rintro _ ⟨⟩
    apply hlength
    simp [SelectsSection, hk, Statement.Kind.isSection]
  | namedSection =>
    simp only [Scan.step, hk]
    apply hkept.select
    apply hlength
    simp [SelectsSection, hk, Statement.Kind.isSection]
  | pushSection =>
    simp only [Scan.step, hk, Scan.push]
    split
    · exact hkept.save
    · next hname =>
      apply hkept.save.select
      apply hlength
      simp [SelectsSection, hk, Statement.Kind.isSection, hname]
  | popSection =>
    simp only [Scan.step, hk]
    exact hkept.pop file
  | _ =>
    have hsection : s.kind.isSection = false := by
      rw [hk]
      rfl
    have hpop : s.kind ≠ .popSection := by
      rw [hk]
      decide
    obtain ⟨_, _, _, _, heq⟩ := exists_step_of_kind scan ss.length s hsection hpop file
    rw [heq]
    exact ⟨hkept.inForce, hkept.saved, hkept.anchors⟩

end SectionsSelected

theorem sectionsSelected_run (file : String) (ss : List Statement) :
    SectionsSelected ss (run file ss) := by
  induction ss using List.reverseRecOn with
  | nil => exact ⟨nofun, nofun, fun _ _ hi => by simp [run] at hi⟩
  | append_singleton ss s ih =>
    rw [run_concat]
    exact ih.step file

theorem alignment_run (file : String) (ss : List Statement) (i : Nat) :
    (run file ss).alignment = some i ↔ Waits ss i := by
  induction ss using List.reverseRecOn with
  | nil => exact ⟨nofun, fun h => absurd (lt_of_mem_positions h.1) (Nat.not_lt_zero i)⟩
  | append_singleton ss s ih =>
    rw [run_concat, alignment_step, waits_concat, ← ih]
    by_cases hpass : passesAlignment s = true
    · simp [hpass, not_isAlignment_of_passesAlignment hpass]
    · by_cases halign : s.kind.isAlignment = true
      · simp [hpass, halign, eq_comm]
      · simp [hpass, halign]

end Scan

/-- The section in force in front of a position. -/
def inForceAt (file : String) (ss : List Statement) (i : Nat) : Option Nat :=
  (Scan.run file (ss.take i)).inForce

section InForce
variable {file : String} {ss : List Statement} {s : Statement} {i : Nat}

theorem inForceAt_concat (h : i ≤ ss.length) :
    inForceAt file (ss ++ [s]) i = inForceAt file ss i := by
  rw [inForceAt, List.take_append_of_le_length h, inForceAt]

theorem inForceAt_length : inForceAt file ss ss.length = (Scan.run file ss).inForce := by
  rw [inForceAt, List.take_length]

theorem of_inForceAt_eq_some {d : Nat} (h : inForceAt file ss d = some i) :
    i < d ∧ i ∈ positions SelectsSection ss :=
  mem_positions_take.mp ((Scan.sectionsSelected_run file (ss.take d)).inForce i h)

end InForce

section Run
variable (file name : String) (ss : List Statement)

theorem definedAt_run :
    IsLast ((Scan.run file ss).symbols.symbolOf name).definedAt (positions (Defines name) ss) :=
  Scan.isLast_run rfl (fun s _ scan index => Scan.definedAt_revise scan index s name) file

/-- A symbol gets the section in force in front of its definition. -/
theorem sectionAt_run : ((Scan.run file ss).symbols.symbolOf name).sectionAt =
    ((Scan.run file ss).symbols.symbolOf name).definedAt.bind (inForceAt file ss) := by
  induction ss using List.reverseRecOn with
  | nil =>
    rw [Scan.symbolOf_run_nil]
    rfl
  | append_singleton ss s ih =>
    rw [Scan.symbolOf_run_concat, Scan.sectionAt_revise, Scan.definedAt_revise]
    by_cases hdef : Defines name s
    · rw [if_pos hdef, if_pos hdef, Option.bind_some, inForceAt_concat (Nat.le_refl _),
        inForceAt_length]
    · rw [if_neg hdef, if_neg hdef, ih]
      cases hd : ((Scan.run file ss).symbols.symbolOf name).definedAt with
      | none => rfl
      | some d =>
        have hlast := (definedAt_run file name ss d).mp hd
        exact (inForceAt_concat (lt_of_mem_positions hlast.1).le).symm

variable {name ss} in
/-- A label takes the alignment that waits for it; any other statement leaves it where it is. -/
theorem alignAt_revise_iff {s : Statement} {symbol : Symbol} {scan : Scan}
    (h : ∀ i, symbol.alignAt = some i ↔
      ∃ j, IsGreatest {k | ∃ h, Aligns name ss h k} j ∧ Aligns name ss i j)
    (ha : ∀ i, scan.alignment = some i ↔ Waits ss i) (i : Nat) :
    (scan.revise ss.length s name symbol).alignAt = some i ↔
      ∃ j, IsGreatest {k | ∃ h, Aligns name (ss ++ [s]) h k} j ∧ Aligns name (ss ++ [s]) i j := by
  rw [Scan.alignAt_revise]
  by_cases hnew : IsLabelOf name s ∧ ∃ w, Waits ss w
  · -- The label takes the alignment that waits, and no label stands behind it.
    obtain ⟨hlabel, w, hw⟩ := hnew
    have hlast : IsGreatest {k | ∃ h, Aligns name (ss ++ [s]) h k} ss.length := by
      refine ⟨⟨w, aligns_concat.mpr (.inr ⟨rfl, hlabel, hw⟩)⟩, ?_⟩
      rintro k ⟨_, hk⟩
      exact le_of_mem_positions_concat hk.2.1
    have hwaits : ∀ v, Aligns name (ss ++ [s]) v ss.length → Waits ss v := by
      intro v hv
      rcases aligns_concat.mp hv with hv | hv
      · exact absurd (lt_of_mem_positions hv.2.1) (Nat.lt_irrefl _)
      · exact hv.2.2
    have htaken : (if IsLabelOf name s then scan.alignment <|> symbol.alignAt else symbol.alignAt) =
        some w := by
      rw [if_pos hlabel, (ha w).mpr hw]
      rfl
    rw [htaken]
    constructor
    · rintro ⟨⟩
      exact ⟨_, hlast, aligns_concat.mpr (.inr ⟨rfl, hlabel, hw⟩)⟩
    · rintro ⟨j, hj, hi⟩
      obtain rfl := hj.unique hlast
      rw [← (ha w).mpr hw]
      exact (ha i).mpr (hwaits i hi)
  · have hsame : ∀ i j, Aligns name (ss ++ [s]) i j ↔ Aligns name ss i j := by
      intro i j
      rw [aligns_concat, or_iff_left]
      rintro ⟨-, hlabel, hi⟩
      exact hnew ⟨hlabel, i, hi⟩
    have hkept : (if IsLabelOf name s then scan.alignment <|> symbol.alignAt else symbol.alignAt) =
        symbol.alignAt := by
      by_cases hlabel : IsLabelOf name s
      · have hnone : scan.alignment = none := by
          apply Option.eq_none_iff_forall_ne_some.mpr
          intro w hw
          exact hnew ⟨hlabel, w, (ha w).mp hw⟩
        rw [if_pos hlabel, hnone]
        rfl
      · exact if_neg hlabel
    simp only [hkept, hsame]
    exact h i

theorem alignAt_run (i : Nat) : ((Scan.run file ss).symbols.symbolOf name).alignAt = some i ↔
    ∃ j, IsGreatest {k | ∃ h, Aligns name ss h k} j ∧ Aligns name ss i j := by
  induction ss using List.reverseRecOn generalizing i with
  | nil =>
    rw [Scan.symbolOf_run_nil]
    exact ⟨nofun, fun ⟨_, _, h⟩ => absurd (lt_of_mem_positions h.1) (Nat.not_lt_zero i)⟩
  | append_singleton ss s ih =>
    rw [Scan.symbolOf_run_concat]
    exact alignAt_revise_iff ih (Scan.alignment_run file ss) i

variable {ss} in
theorem bookmarks_run (hss : ∀ s ∈ ss, s.WellFormed) :
    Bookmarks name ss ((Scan.run file ss).symbols.symbolOf name) where
  definedAt := definedAt_run file name ss
  sizeAt := Scan.isLast_run rfl (fun s _ scan index => Scan.sizeAt_revise scan index s name) file
  typeAt := Scan.isLast_run rfl
    (fun s hs scan index symbol => Scan.typeAt_revise scan index s name symbol (hss s hs)) file
  sectionAt := by
    intro i hi
    rw [sectionAt_run] at hi
    obtain ⟨d, hd, hinForce⟩ := Option.bind_eq_some_iff.mp hi
    obtain ⟨hlt, hmem⟩ := of_inForceAt_eq_some hinForce
    exact ⟨hmem, d, hd, hlt⟩
  alignAt := alignAt_run file name ss
  aligns_le := by
    intro i j haligns
    obtain ⟨s, hs, hlabel⟩ := haligns.2.1
    exact (definedAt_run file name ss).exists_le ⟨s, hs, .inl hlabel⟩

end Run

/-- The symbol of every name keeps its places; a name that the file does not have keeps none. -/
theorem load_bookmarks (file source name : String) :
    Bookmarks name (load file source).statements
      (((load file source).symbol? name).getD { name }) := by
  have hsymbol : (((load file source).symbol? name).getD { name }) =
      (Scan.run file (Statement.ofSource file source)).symbols.symbolOf name :=
    (Std.TreeMap.getD_eq_getD_getElem? ..).symm
  rw [hsymbol]
  exact bookmarks_run file name fun s hs => Statement.wellFormed_of_mem_ofSource hs

-- The alignment reaches the label past the section and the type.
example : (load "a.s" ".align 4; .data; .type x, @object; x: .byte 1; .size x, 1").symbol? "x" =
    some { name := "x", kind := .object, scope := .global, definedAt := some 3, sizeAt := some 5,
           sectionAt := some 1, alignAt := some 0, typeAt := some 2 } := by
  decide +kernel

end AsmCompare.Listing
