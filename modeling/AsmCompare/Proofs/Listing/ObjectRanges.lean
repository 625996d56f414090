import AsmCompare.Proofs.Listing.Extraction

/-! # Data belongs to one object

An object ends where a statement fails to continue it, which depends on the whole symbol table. The
statement that defines an object continues no other one. So the statements of an object all lie
between its definition and the next definition of an object, wherever the names are defined besides,
and two objects have no statement in common.
-/
namespace AsmCompare.Listing
variable {l : Listing} {strip : Bool} {name x y : String} {start i j : Nat} {s : Statement}

theorem of_getElem?_takeWhile {ss : List Statement} {p : Statement → Bool}
    (h : (ss.takeWhile p)[i]? = some s) : ss[i]? = some s ∧ p s = true := by
  obtain ⟨hlt, rfl⟩ := List.getElem?_eq_some_iff.mp h
  refine ⟨List.prefix_iff_getElem?.mp (List.takeWhile_prefix p) i hlt, ?_⟩
  exact List.all_eq_true.mp List.all_takeWhile _ (List.getElem_mem hlt)

/-- A run goes from statement to statement without a gap. -/
theorem of_mem_runAfter {p : Statement → Bool} {q : Statement × Nat}
    (h : q ∈ l.runAfter start p) : l.statements[q.2]? = some q.1 ∧ start < q.2 ∧
      ∀ k, start < k → k ≤ q.2 → k ∈ positions (p ·) l.statements := by
  obtain ⟨hle, hget⟩ := List.mem_zipIdx_iff_le_and_getElem?_sub.mp h
  have hplace : ∀ k, start < k → (l.statements.drop (start + 1))[k - (start + 1)]? =
      l.statements[k]? := by
    intro k hk
    rw [List.getElem?_drop, Nat.add_sub_cancel' hk]
  refine ⟨?_, hle, fun k hk hkq => ?_⟩
  · rw [← hplace q.2 hle]
    exact (of_getElem?_takeWhile hget).1
  · have hlt := (List.getElem?_eq_some_iff.mp hget).1
    obtain ⟨hs, hp⟩ := of_getElem?_takeWhile (List.getElem?_eq_getElem
      (show k - (start + 1) < ((l.statements.drop (start + 1)).takeWhile p).length by omega))
    rw [hplace k hk] at hs
    exact ⟨_, hs, hp⟩

/-- The statements of an object and how they lie in the file. -/
theorem of_mem_objectRange {q : Statement × Nat} (h : q ∈ l.objectRange strip start) :
    l.statements[q.2]? = some q.1 ∧ start ≤ q.2 ∧
      ∀ k, start < k → k ≤ q.2 → k ∈ positions (l.continuesObject ·) l.statements := by
  unfold objectRange at h
  split at h
  · cases h
  · next first hfirst =>
    split at h
    · obtain rfl := List.mem_singleton.mp h
      refine ⟨hfirst, le_rfl, fun k hk hk' => ?_⟩
      omega
    · obtain ⟨hget, hlt, hrun⟩ := of_mem_runAfter (List.mem_filter.mp h).1
      exact ⟨hget, hlt.le, hrun⟩

/-- A statement defines one name at most. -/
theorem eq_of_defines (hx : Defines x s) (hy : Defines y s) : x = y := by
  have hsymbol : ∀ name, Defines name s → s.symbol? = some name := by
    rintro name (⟨-, hlabel, -⟩ | h | h)
    · rw [Statement.symbol?, Statement.label?_eq_some_iff.mp hlabel]
      rfl
    · exact h.2
    · exact h.2
  exact Option.some.inj ((hsymbol x hx).symm.trans (hsymbol y hy))

/-- What defines a function or an object ends the object in front of it. -/
theorem continuesObject_eq_false (h : Defines name s) (hk : l.kindOf name ≠ .unknown) :
    l.continuesObject s = false := by
  rcases isLabelOf_or_isCommon h with ⟨hlabel, hname, -⟩ | ⟨hcommon, -⟩
  · have hstarts : l.startsSymbol s = true := by
      rw [startsSymbol, hname]
      exact decide_eq_true hk
    rw [continuesObject, hstarts, hlabel]
    simp [Statement.Kind.isData, Statement.Kind.isDebug]
  · unfold continuesObject Statement.isLabel
    revert hcommon
    cases s.kind <;> simp [Statement.Kind.isCommon, Statement.Kind.isData, Statement.Kind.isDebug]

theorem lt_of_mem_objectRange {q : Statement × Nat} (hq : q ∈ l.objectRange strip i) (hij : i < j)
    (hj : j ∈ positions (Defines name) l.statements) (hk : l.kindOf name ≠ .unknown) : q.2 < j := by
  obtain ⟨-, -, hrun⟩ := of_mem_objectRange hq
  by_contra hle
  obtain ⟨s, hs, hdefines⟩ := hj
  obtain ⟨t, ht, hcontinues⟩ := hrun j hij (by omega)
  cases hs.symm.trans ht
  rw [continuesObject_eq_false hdefines hk] at hcontinues
  cases hcontinues

/-- Two objects that are defined at different places share no position. -/
theorem disjoint_objectRange {strip' : Bool} (hij : i ≠ j)
    (hi : i ∈ positions (Defines x) l.statements) (hx : l.kindOf x ≠ .unknown)
    (hj : j ∈ positions (Defines y) l.statements) (hy : l.kindOf y ≠ .unknown) :
    ((l.objectRange strip i).map Prod.snd).Disjoint ((l.objectRange strip' j).map Prod.snd) := by
  intro k hk hk'
  obtain ⟨p, hp, rfl⟩ := List.mem_map.mp hk
  obtain ⟨q, hq, hqp⟩ := List.mem_map.mp hk'
  have hip := (of_mem_objectRange hp).2.1
  have hjq := (of_mem_objectRange hq).2.1
  rcases Nat.lt_or_gt_of_ne hij with hlt | hgt
  · have hlast := lt_of_mem_objectRange hp hlt hj hy
    omega
  · have hlast := lt_of_mem_objectRange hq hgt hi hx
    omega

/-- How a body comes from a file: its statements stand there at the given places, and normalization
gives each of them other names. -/
structure CopiedFrom (l : Listing) (strip : Bool) (name : String) (b : Body)
    (source : List (Statement × Nat)) : Prop where
  taken : l.object? strip name = some b
  range : ∃ symbol start, l.symbol? name = some symbol ∧ symbol.definedAt = some start ∧
    source = l.objectRange strip start
  placed : ∀ p ∈ source, l.statements[p.2]? = some p.1
  statements : b.statements = source.map Prod.fst
  normalized : b.normalize.statements = source.map fun p => p.1.substitute b.renames

theorem exists_symbol_of_hasObject (h : l.hasObject name = true) :
    ∃ symbol start, l.symbol? name = some symbol ∧ symbol.kind = .object ∧
      symbol.definedAt = some start := by
  have hkind : l.kindOf name = .object := of_decide_eq_true h
  cases hsymbol : l.symbol? name with
  | none => simp [kindOf, hsymbol] at hkind
  | some symbol =>
    cases hstart : symbol.definedAt with
    | none => simp [kindOf, hsymbol, Symbol.definedKind, Symbol.isDefined, hstart] at hkind
    | some start =>
      refine ⟨symbol, start, rfl, ?_, hstart⟩
      simpa [kindOf, hsymbol, Symbol.definedKind, Symbol.isDefined, hstart] using hkind

theorem copiedFrom_objectRange {symbol : Symbol} (hsymbol : l.symbol? name = some symbol)
    (hkind : symbol.kind = .object) (hstart : symbol.definedAt = some start) (strip : Bool) :
    CopiedFrom l strip name (l.bodyOf symbol (l.objectRange strip start))
      (l.objectRange strip start) where
  taken := by
    rw [object?, hsymbol]
    simp [hstart, hkind]
  range := ⟨symbol, start, hsymbol, hstart, rfl⟩
  placed p hp := (of_mem_objectRange hp).1
  statements := rfl
  normalized := by
    rw [Body.statements_normalize_eq_substitute, bodyOf, List.map_map]
    rfl

/-- A symbol that a file defines stands at a statement that defines it. -/
theorem mem_positions_of_definedAt {file : String} {ss : List Statement} {symbol : Symbol}
    (hsymbol : (ofStatements file ss).symbol? name = some symbol)
    (hstart : symbol.definedAt = some start) : start ∈ positions (Defines name) ss := by
  have hlast := definedAt_run file name ss
  rw [symbolOf_eq_of_symbol? hsymbol] at hlast
  exact ((hlast start).mp hstart).1

/-- Of two objects of a file, whether debug statements are dropped or not and whether the bodies are
normalized or not, no statement of the file is copied into both. -/
theorem exists_disjoint_copiedFrom (file source : String) {x y : String} (hxy : x ≠ y)
    (hx : (load file source).hasObject x = true) (hy : (load file source).hasObject y = true)
    (strip strip' : Bool) :
    ∃ b c s t, CopiedFrom (load file source) strip x b s ∧
      CopiedFrom (load file source) strip' y c t ∧ (s.map Prod.snd).Disjoint (t.map Prod.snd) := by
  have hknown : ∀ name, (load file source).hasObject name = true →
      (load file source).kindOf name ≠ .unknown := by
    intro name h
    rw [of_decide_eq_true h]
    decide
  obtain ⟨symbol, i, hsymbol, hkind, hi⟩ := exists_symbol_of_hasObject hx
  obtain ⟨symbol', j, hsymbol', hkind', hj⟩ := exists_symbol_of_hasObject hy
  have hix := mem_positions_of_definedAt hsymbol hi
  have hjy := mem_positions_of_definedAt hsymbol' hj
  have hij : i ≠ j := by
    rintro rfl
    obtain ⟨s, hs, hdefines⟩ := hix
    obtain ⟨t, ht, hdefines'⟩ := hjy
    cases hs.symm.trans ht
    exact hxy (eq_of_defines hdefines hdefines')
  refine ⟨_, _, _, _, copiedFrom_objectRange hsymbol hkind hi strip,
    copiedFrom_objectRange hsymbol' hkind' hj strip', ?_⟩
  exact disjoint_objectRange hij hix (hknown x hx) hjy (hknown y hy)

/-- A numeric label goes on with the object in front of it, and a name is defined twice. -/
def neighbours : String := "x:.byte 1;y:.byte 2;1:.byte 3;x:.file 1;.byte 4;.comm z,4;.byte 5"

theorem exists_disjoint_copiedFrom_neighbours :
    "x" ≠ "y" ∧ (load "a.s" neighbours).hasObject "x" = true ∧
      (load "a.s" neighbours).hasObject "y" = true ∧
      ∃ b c s t, CopiedFrom (load "a.s" neighbours) true "x" b s ∧
        CopiedFrom (load "a.s" neighbours) false "y" c t ∧
        (s.map Prod.snd).Disjoint (t.map Prod.snd) := by
  have hobjects : (load "a.s" neighbours).hasObject "x" = true ∧
      (load "a.s" neighbours).hasObject "y" = true := by decide +kernel
  have hxy : "x" ≠ "y" := by decide
  exact ⟨hxy, hobjects.1, hobjects.2,
    exists_disjoint_copiedFrom "a.s" neighbours hxy hobjects.1 hobjects.2 true false⟩

example : ((load "a.s" neighbours).objectRange true 6).map Prod.snd = [8] ∧
    ((load "a.s" neighbours).objectRange false 2).map Prod.snd = [3, 4, 5] := by decide +kernel

end AsmCompare.Listing
