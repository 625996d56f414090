import AsmCompare.Report.Diff
import Mathlib.Algebra.Order.Group.Abs
import Mathlib.Algebra.Order.Group.Int

/-! # The lines of a difference

The windows around the changes overlap and are cut off at the ends of the script; together they show
the entries that have a change within the context. The lines follow the script, and a mark stands
wherever the entry before the one shown was left out. A change lies within its own context, so a
script with a change never shows as nothing.
-/
namespace AsmCompare.Report
open Text

section Line

/-- Whether a position, where it is given, is one of a statement of the body. -/
def IsPosition (b : Body) (position : Option Int) : Prop :=
  ∀ i ∈ position, 0 ≤ i ∧ i < b.statements.length

instance (b : Body) (position : Option Int) : Decidable (IsPosition b position) :=
  inferInstanceAs (Decidable (∀ i ∈ position, 0 ≤ i ∧ i < b.statements.length))

/-- The text of the statement at a position; a side without a position is empty. -/
inductive TextAt (b : Body) : Option Int → String → Prop where
  | absent : TextAt b none ""
  | statement {i : Nat} {s : Statement} (h : b.statements[i]? = some s) :
      TextAt b (some i) (statementText (some s))

def tinted (style : DiffStyle) (color : Color) (line : String) : String :=
  if style.color then paint color line else line

/-- What is printed for an entry of a script between two bodies. -/
inductive Renders (old new : Body) (style : DiffStyle) : Edit → String → Prop where
  | kept {i j : Option Int} {left right : String} (hleft : TextAt old i left)
      (hright : TextAt new j right) :
      Renders old new style ⟨.equal, i, j⟩
        (if style.pretty then twoColumns left right else diffIndent ++ " " ++ left)
  | added {i j : Option Int} {right : String} (hright : TextAt new j right) :
      Renders old new style ⟨.added, i, j⟩ (tinted style .green
        (if style.pretty then twoColumns "" right else diffIndent ++ "+" ++ right))
  | removed {i j : Option Int} {left : String} (hleft : TextAt old i left) :
      Renders old new style ⟨.removed, i, j⟩ (tinted style .red
        (if style.pretty then twoColumns left "" else diffIndent ++ "-" ++ left))

theorem textAt_statementAt {b : Body} {position : Option Int} (h : IsPosition b position) :
    TextAt b position (statementText (statementAt b position)) := by
  cases position with
  | none => exact .absent
  | some i =>
    obtain ⟨hleast, hlt⟩ := h i rfl
    obtain ⟨k, rfl⟩ := Int.eq_ofNat_of_zero_le hleast
    have hk : b.statements[k]? = some b.statements[k] := List.getElem?_eq_getElem (by omega)
    have hat : statementAt b (some k) = some b.statements[k] := hk
    rw [hat]
    exact .statement hk

theorem renders_diffLine {old new : Body} (style : DiffStyle) {e : Edit}
    (hold : IsPosition old e.old) (hnew : IsPosition new e.new) :
    Renders old new style e (diffLine old new style e) := by
  obtain ⟨op, i, j⟩ := e
  cases op with
  | equal => exact .kept (textAt_statementAt hold) (textAt_statementAt hnew)
  | added => exact .added (textAt_statementAt hnew)
  | removed => exact .removed (textAt_statementAt hold)

end Line

section Window

theorem mem_changePositions {script : List Edit} {i : Nat} :
    i ∈ changePositions script ↔ ∃ e, script[i]? = some e ∧ e.isChange = true := by
  simp only [changePositions, List.mem_map, List.mem_filter, Prod.exists,
    List.mem_zipIdx_iff_getElem?]
  constructor
  · rintro ⟨e, _, ⟨he, hchange⟩, rfl⟩
    exact ⟨e, he, hchange⟩
  · rintro ⟨e, he, hchange⟩
    exact ⟨e, i, ⟨he, hchange⟩, rfl⟩

theorem mem_window_iff {context : Int} {length change i : Nat} :
    i ∈ window context length change ↔ i < length ∧ |(i : Int) - change| ≤ context := by
  rw [window, List.mem_range'_1, abs_le]
  omega

theorem mem_foldl_insertMany {windows : Nat → List Nat} {changes : List Nat}
    {shown : Std.TreeSet Nat} {i : Nat} :
    i ∈ changes.foldl (fun shown change => shown.insertMany (windows change)) shown ↔
      i ∈ shown ∨ ∃ change ∈ changes, i ∈ windows change := by
  induction changes generalizing shown with
  | nil => simp
  | cons change changes ih =>
    rw [List.foldl_cons, ih, Std.TreeSet.mem_insertMany_list]
    simp [or_assoc]

/-- Whether a change of the script is at most `context` entries away from a position. -/
def InContext (context : Int) (script : List Edit) (i : Nat) : Prop :=
  ∃ (j : Nat) (e : Edit), script[j]? = some e ∧ e.op ≠ .equal ∧ |(i : Int) - j| ≤ context

variable {context : Int} {script : List Edit} {i : Nat}

theorem inContext_iff :
    InContext context script i ↔ ∃ j ∈ changePositions script, |(i : Int) - j| ≤ context := by
  simp only [InContext, mem_changePositions, Edit.isChange, decide_eq_true_eq]
  constructor
  · rintro ⟨j, e, he, hchange, hnear⟩
    exact ⟨j, ⟨e, he, hchange⟩, hnear⟩
  · rintro ⟨j, ⟨e, he, hchange⟩, hnear⟩
    exact ⟨j, e, he, hchange, hnear⟩

instance : DecidablePred (InContext context script) := fun _ => decidable_of_iff' _ inContext_iff

theorem contains_shownPositions (hi : i < script.length) :
    (shownPositions context script).contains i = decide (InContext context script i) := by
  rw [Bool.eq_iff_iff, decide_eq_true_eq, ← Std.TreeSet.mem_iff_contains, shownPositions,
    mem_foldl_insertMany, inContext_iff]
  simp [mem_window_iff, hi]

/-- A change shows itself. -/
theorem inContext_of_isChange (hcontext : 0 ≤ context) {e : Edit} (he : script[i]? = some e)
    (hchange : e.isChange = true) : InContext context script i :=
  inContext_iff.mpr ⟨i, mem_changePositions.mpr ⟨e, he, hchange⟩, by simpa using hcontext⟩

/-- A context as long as the script shows every entry if there is a change. -/
theorem inContext_of_length_le (hcontext : script.length ≤ context) (hi : i < script.length)
    {e : Edit} (he : e ∈ script) (hchange : e.op ≠ .equal) : InContext context script i := by
  obtain ⟨j, hj⟩ := List.mem_iff_getElem?.mp he
  have hlt : j < script.length := (List.getElem?_eq_some_iff.mp hj).1
  refine ⟨j, e, hj, hchange, ?_⟩
  rw [abs_le]
  omega

end Window

section Lines
variable (line : Edit → String) (Shown : Nat → Prop) [DecidablePred Shown]

/-- The lines of an entry that is shown: its own, after a mark if there is an entry before it that
is not shown. -/
def entryLines (p : Edit × Nat) : List String :=
  (if 0 < p.2 ∧ ¬ Shown (p.2 - 1) then [gapLine] else []) ++ [line p.1]

/-- The position after the last entry shown is the one of the next entry exactly at the start or if
the entry before was shown; every entry keeps it so. -/
theorem shownLines_eq {next first : Nat} (entries : List Edit) (hle : next ≤ first)
    (hnext : next = first ↔ first = 0 ∨ Shown (first - 1)) :
    shownLines line (fun i => decide (Shown i)) next (entries.zipIdx first) =
      ((entries.zipIdx first).filter fun p => Shown p.2).flatMap (entryLines line Shown) := by
  induction entries generalizing next first with
  | nil => rfl
  | cons e entries ih =>
    rw [List.zipIdx_cons, shownLines, List.filter_cons]
    by_cases hshown : Shown first
    · have hgap : first = next ↔ ¬ (0 < first ∧ ¬ Shown (first - 1)) := by
        rw [eq_comm, hnext, not_and_or, not_not, Nat.pos_iff_ne_zero, not_not]
      have hrest := @ih (first + 1) (first + 1) le_rfl (iff_of_true rfl (.inr hshown))
      simp only [hshown, decide_true, if_true, List.flatMap_cons, entryLines, hgap, ite_not, hrest]
      rw [List.append_assoc, List.singleton_append]
    · have hskip : next = first + 1 ↔ first + 1 = 0 ∨ Shown first :=
        iff_of_false (by omega) (not_or.mpr ⟨Nat.succ_ne_zero first, hshown⟩)
      simp only [hshown, decide_false, Bool.false_eq_true, if_false, ih (by omega) hskip]

theorem shownLines_congr {shown other : Nat → Bool} {entries : List (Edit × Nat)}
    (h : ∀ p ∈ entries, shown p.2 = other p.2) (next : Nat) :
    shownLines line shown next entries = shownLines line other next entries := by
  induction entries generalizing next with
  | nil => rfl
  | cons p entries ih =>
    have hrest := ih fun q hq => h q (List.mem_cons_of_mem p hq)
    rw [shownLines, shownLines, h p List.mem_cons_self, hrest, hrest]

/-- Without a gap the lines are those of the entries. -/
theorem flatMap_entryLines_of_forall {entries : List Edit} (h : ∀ i < entries.length, Shown i) :
    (entries.zipIdx.filter fun p => Shown p.2).flatMap (entryLines line Shown) =
      entries.map line := by
  have hall : (entries.zipIdx.filter fun p => Shown p.2) = entries.zipIdx :=
    List.filter_eq_self.mpr fun p hp => decide_eq_true (h p.2 (List.snd_lt_of_mem_zipIdx hp))
  have hlines : ∀ p ∈ entries.zipIdx, entryLines line Shown p = [line p.1] := by
    intro p hp
    have hlt := List.snd_lt_of_mem_zipIdx hp
    have hbefore : ¬ (0 < p.2 ∧ ¬ Shown (p.2 - 1)) := fun hgap => hgap.2 (h _ (by omega))
    rw [entryLines, if_neg hbefore, List.nil_append]
  calc (entries.zipIdx.filter fun p => Shown p.2).flatMap (entryLines line Shown)
      = entries.zipIdx.flatMap fun p => [line p.1] := by
        rw [hall, List.flatMap_def, List.map_congr_left hlines, ← List.flatMap_def]
    _ = (entries.zipIdx.map Prod.fst).map line := by
        rw [List.map_map, ← List.map_eq_flatMap]
        rfl
    _ = entries.map line := by rw [List.zipIdx_map_fst]

end Lines

theorem diffLines_eq_flatMap (old new : Body) (script : List Edit) (style : DiffStyle) :
    diffLines old new script style =
      (script.zipIdx.filter fun p => InContext style.context script p.2).flatMap
        (entryLines (diffLine old new style) (InContext style.context script)) := by
  rw [← shownLines_eq _ _ script le_rfl (iff_of_true rfl (.inl rfl))]
  refine shownLines_congr _ ?_ 0
  intro p hp
  exact contains_shownPositions (List.snd_lt_of_mem_zipIdx hp)

theorem diffLines_ne_nil (old new : Body) {script : List Edit} {style : DiffStyle}
    (hcontext : 0 ≤ style.context) {e : Edit} (he : e ∈ script) (hchange : e.isChange = true) :
    diffLines old new script style ≠ [] := by
  obtain ⟨i, hi⟩ := List.mem_iff_getElem?.mp he
  have hshown := inContext_of_isChange hcontext hi hchange
  rw [diffLines_eq_flatMap, ne_eq, List.flatMap_eq_nil_iff]
  intro hnone
  have hentry : (e, i) ∈ script.zipIdx.filter fun p => InContext style.context script p.2 :=
    List.mem_filter.mpr ⟨List.mem_zipIdx_iff_getElem?.mpr hi, decide_eq_true hshown⟩
  have hempty := hnone (e, i) hentry
  simp [entryLines] at hempty

/-- A difference shows the entries that have a change within the context, in the order of the
script, with a mark in front of each whose predecessor is not shown. A context as long as the script
shows every entry and no mark. -/
theorem diffLines_eq_windows {old new : Body} {script : List Edit}
    (hvalid : ∀ e ∈ script, IsPosition old e.old ∧ IsPosition new e.new) (style : DiffStyle) :
    (∀ e ∈ script, Renders old new style e (diffLine old new style e)) ∧
      diffLines old new script style =
        (script.zipIdx.filter fun p => InContext style.context script p.2).flatMap
          (entryLines (diffLine old new style) (InContext style.context script)) ∧
      ((∃ e ∈ script, e.op ≠ .equal) → script.length ≤ style.context →
        diffLines old new script style = script.map (diffLine old new style)) := by
  refine ⟨fun e he => renders_diffLine style (hvalid e he).1 (hvalid e he).2,
    diffLines_eq_flatMap old new script style, ?_⟩
  rintro ⟨e, he, hchange⟩ hcontext
  rw [diffLines_eq_flatMap]
  exact flatMap_entryLines_of_forall _ _ fun i hi => inContext_of_length_le hcontext hi he hchange

def idleThenLeave : Body :=
  { name := "f", kind := .function
    statements := Statement.ofSource "a.s" "nop;nop;nop;nop;leave" }

def idleWithReturn : Body :=
  { name := "f", kind := .function
    statements := Statement.ofSource "b.s" "nop;ret;nop;nop;nop" }

def returnForLeave : List Edit := [.keep 0 0, .add 1, .keep 1 2, .keep 2 3, .keep 3 4, .remove 4]

theorem diffLines_eq_windows_returnForLeave :
    (∀ e ∈ returnForLeave, IsPosition idleThenLeave e.old ∧ IsPosition idleWithReturn e.new) ∧
      diffLines idleThenLeave idleWithReturn returnForLeave ⟨1, false, false⟩ =
        ["         nop", "        +ret", "         nop", "         [...]", "         nop",
          "        -leave"] := by
  have hvalid : ∀ e ∈ returnForLeave,
      IsPosition idleThenLeave e.old ∧ IsPosition idleWithReturn e.new := by decide +kernel
  refine ⟨hvalid, ?_⟩
  rw [(diffLines_eq_windows hvalid _).2.1]
  decide +kernel

end AsmCompare.Report
