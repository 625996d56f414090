import AsmCompare.Body
import AsmCompare.Proofs.Statement.Substitution
import Mathlib.Data.List.Induction
import Std.Data.String.ToNat

/-! # Normalization as one map on names

A canonical name is no local label, so no later renaming touches it: giving the local labels of a
body their canonical names one after the other is the same as giving them all at once.
-/
namespace AsmCompare

namespace Name

theorem toList_canonical (n : Nat) :
    (canonical n).toList = "~ASMTOOL".toList ++ Nat.toDigits 10 n := by
  rw [canonical, String.toList_append, Nat.toList_repr]

theorem isLocalLabel_canonical (n : Nat) : isLocalLabel (canonical n) = false := by
  unfold isLocalLabel
  rw [toList_canonical]
  simp

theorem isGenerated_canonical (n : Nat) : isGenerated (canonical n) = false := by
  have hdigits : '.' ∉ Nat.toDigits 10 n := by
    intro h
    have := Nat.isDigit_of_mem_toDigits (by decide) (by decide) h
    revert this
    decide
  unfold isGenerated
  rw [toList_canonical]
  simp [hdigits]

theorem canonical_injective : Function.Injective canonical := by
  intro m n h
  have hlist := congrArg String.toList h
  rw [toList_canonical, toList_canonical] at hlist
  have hdigits := List.append_cancel_left hlist
  rw [← Nat.toList_repr, ← Nat.toList_repr] at hdigits
  exact Nat.repr_injective (String.toList_injective hdigits)

end Name

theorem distinct_map {f : String → String} {l : List String}
    (hf : ∀ x ∈ l, ∀ y ∈ l, f x = f y → x = y) : distinct (l.map f) = (distinct l).map f := by
  induction l with
  | nil => rfl
  | cons x rest ih =>
    have hrest : distinct (rest.map f) = (distinct rest).map f :=
      ih fun y hy z hz => hf y (List.mem_cons_of_mem x hy) z (List.mem_cons_of_mem x hz)
    have hfilter : ((distinct rest).map f).filter (· ≠ f x) =
        ((distinct rest).filter (· ≠ x)).map f := by
      rw [List.filter_map]
      congr 1
      refine List.filter_congr fun y hy => ?_
      have hmem : y ∈ x :: rest := List.mem_cons_of_mem x (mem_distinct.mp hy)
      have hiff : f y = f x ↔ y = x := ⟨hf y hmem x List.mem_cons_self, congrArg f⟩
      simp [hiff]
    rw [List.map_cons, distinct, hrest, hfilter]
    rfl

theorem idxOf?_map {f : String → String} {l : List String} {x : String}
    (hf : ∀ y ∈ l, f y = f x → y = x) : (l.map f).idxOf? (f x) = l.idxOf? x := by
  induction l with
  | nil => rfl
  | cons y rest ih =>
    rw [List.map_cons, List.idxOf?_cons, List.idxOf?_cons,
      ih fun z hz => hf z (List.mem_cons_of_mem y hz)]
    have hiff : f y = f x ↔ y = x := ⟨hf y List.mem_cons_self, congrArg f⟩
    simp [hiff]

namespace Body

/-- Renamings of which none gives a name that another takes away act at once. -/
theorem renameAll_eq_map {renames : List (String × String)}
    (h : ∀ p ∈ renames, ∀ q ∈ renames, q.1 ≠ p.2) (statements : List Statement) :
    renameAll renames statements = statements.map (Statement.substitute renames) := by
  induction renames using List.reverseRecOn with
  | nil =>
    have hid : Statement.substitute [] = id := funext fun _ => Statement.substitute_nil
    rw [hid, List.map_id]
    rfl
  | append_singleton renames r ih =>
    have hold : r.1 ∉ renames.map Prod.snd := by
      intro hmem
      obtain ⟨p, hp, heq⟩ := List.mem_map.mp hmem
      exact h p (List.mem_append_left _ hp) r (by simp) heq.symm
    have hrest : ∀ p ∈ renames, ∀ q ∈ renames, q.1 ≠ p.2 := fun p hp q hq =>
      h p (List.mem_append_left _ hp) q (List.mem_append_left _ hq)
    calc renameAll (renames ++ [r]) statements
        = (renameAll renames statements).map (Statement.rename r.1 r.2) := by
          rw [renameAll, List.foldl_concat, renameAll]
      _ = (statements.map (Statement.substitute renames)).map (Statement.rename r.1 r.2) := by
          rw [ih hrest]
      _ = statements.map (Statement.substitute (renames ++ [r])) := by
          rw [List.map_map]
          exact List.map_congr_left fun s _ => Statement.rename_substitute hold

/-- The canonical name of a local label, and any other name as it is. -/
def canonicalName (labels : List String) (x : String) : String :=
  match labels.idxOf? x with
  | some n => Name.canonical n
  | none => x

theorem lookup_zipIdx (labels : List String) (k : Nat) (x : String) :
    ((labels.zipIdx k).map fun p => (p.1, Name.canonical p.2)).lookup x =
      (labels.idxOf? x).map fun n => Name.canonical (k + n) := by
  induction labels generalizing k with
  | nil => rfl
  | cons label rest ih =>
    rw [List.zipIdx_cons, List.map_cons, List.lookup_cons, List.idxOf?_cons, ih]
    by_cases hx : x = label
    · simp [hx]
    · have hx' : (label == x) = false := by simpa using fun heq => hx heq.symm
      simp [beq_false_of_ne hx, hx', Function.comp_def, Nat.add_assoc, Nat.add_comm 1]

/-- The labels of the body as they come. -/
def labels (b : Body) : List String := b.statements.filterMap Statement.label?

variable {b : Body}

theorem mem_labels_iff {x : String} : x ∈ b.labels ↔ ∃ s ∈ b.statements, s.label? = some x :=
  List.mem_filterMap

theorem localLabels_eq (b : Body) :
    b.localLabels = distinct (b.labels.filter Name.isLocalLabel) := rfl

theorem mem_localLabels_iff {x : String} :
    x ∈ b.localLabels ↔ Name.isLocalLabel x = true ∧ ∃ s ∈ b.statements, s.label? = some x := by
  rw [localLabels, mem_distinct, List.mem_filter, List.mem_filterMap, and_comm]

/-- A map that keeps the labels apart, and the local ones among them local. -/
theorem localLabels_eq_map {a b : Body} {σ : String → String} (h : b.labels = a.labels.map σ)
    (hinj : ∀ x ∈ a.labels, ∀ y ∈ a.labels, σ x = σ y → x = y)
    (hlocal : ∀ x ∈ a.labels, Name.isLocalLabel (σ x) = Name.isLocalLabel x) :
    b.localLabels = a.localLabels.map σ := by
  have hfilter : a.labels.filter (Name.isLocalLabel ∘ σ) = a.labels.filter Name.isLocalLabel :=
    List.filter_congr hlocal
  rw [localLabels_eq, localLabels_eq, h, List.filter_map, hfilter]
  refine distinct_map fun x hx y hy => ?_
  exact hinj x (List.mem_filter.mp hx).1 y (List.mem_filter.mp hy).1

theorem image_renames (b : Body) : Statement.image b.renames = canonicalName b.localLabels := by
  funext x
  have hlookup := lookup_zipIdx b.localLabels 0 x
  rw [Statement.image, renames, hlookup, canonicalName]
  cases b.localLabels.idxOf? x with
  | none => rfl
  | some n => simp

/-- Old names are local labels, and new ones are none. -/
theorem fst_ne_snd_of_mem_renames : ∀ p ∈ b.renames, ∀ q ∈ b.renames, q.1 ≠ p.2 := by
  intro p hp q hq heq
  obtain ⟨⟨x, m⟩, -, rfl⟩ := List.mem_map.mp hp
  obtain ⟨⟨y, n⟩, hy, rfl⟩ := List.mem_map.mp hq
  have hmem : y ∈ b.localLabels := (List.mem_zipIdx hy).2.2 ▸ List.getElem_mem _
  have hlocal := (mem_localLabels_iff.mp hmem).1
  rw [show y = Name.canonical m from heq, Name.isLocalLabel_canonical] at hlocal
  cases hlocal

variable (b) in
/-- Normalization renames one label after the other, which is the same as all at once. -/
theorem statements_normalize_eq_substitute :
    b.normalize.statements = b.statements.map (Statement.substitute b.renames) :=
  renameAll_eq_map fst_ne_snd_of_mem_renames b.statements

/-- Normalization maps the names of all statements at once. -/
theorem statements_normalize (h : ∀ s ∈ b.statements, s.WellFormed) :
    b.normalize.statements =
      b.statements.map (Statement.mapNames (canonicalName b.localLabels)) := by
  rw [statements_normalize_eq_substitute, ← image_renames]
  exact List.map_congr_left fun s hs => (h s hs).substitute_eq_mapNames

theorem canonicalName_of_not_mem {labels : List String} {x : String} (h : x ∉ labels) :
    canonicalName labels x = x := by
  rw [canonicalName, List.idxOf?_eq_none_iff.mpr h]

theorem exists_canonicalName_eq {labels : List String} {x : String} (h : x ∈ labels) :
    ∃ n, labels.idxOf? x = some n ∧ canonicalName labels x = Name.canonical n := by
  cases hx : labels.idxOf? x with
  | none => exact absurd h (List.idxOf?_eq_none_iff.mp hx)
  | some n => exact ⟨n, rfl, by rw [canonicalName, hx]⟩

theorem canonicalName_map_of_mem {labels : List String} {σ : String → String} {x : String}
    (hσ : ∀ y ∈ labels, σ y = σ x → y = x) (hx : x ∈ labels) :
    canonicalName (labels.map σ) (σ x) = canonicalName labels x := by
  rw [canonicalName, canonicalName, idxOf?_map hσ]
  obtain ⟨n, hn, -⟩ := exists_canonicalName_eq hx
  rw [hn]

theorem canonicalName_map_of_not_mem {labels : List String} {σ : String → String} {x : String}
    (hσ : ∀ y ∈ labels, σ y = σ x → y = x) (hx : x ∉ labels) :
    canonicalName (labels.map σ) (σ x) = σ x := by
  refine canonicalName_of_not_mem fun hmem => ?_
  obtain ⟨y, hy, hyx⟩ := List.mem_map.mp hmem
  exact hx (hσ y hy hyx ▸ hy)

/-- Only a name that is canonical already can be taken for one of another number. -/
theorem idxOf?_eq_of_canonicalName_eq {labels labels' : List String} {x y : String}
    (hx : ∀ n, x ≠ Name.canonical n) (hy : ∀ n, y ≠ Name.canonical n)
    (h : canonicalName labels x = canonicalName labels' y) :
    labels.idxOf? x = labels'.idxOf? y ∧ (labels.idxOf? x = none → x = y) := by
  by_cases hmx : x ∈ labels
  · obtain ⟨n, hn, hxn⟩ := exists_canonicalName_eq hmx
    rw [hxn] at h
    by_cases hmy : y ∈ labels'
    · obtain ⟨m, hm, hym⟩ := exists_canonicalName_eq hmy
      rw [hym] at h
      obtain rfl := Name.canonical_injective h
      rw [hn, hm]
      exact ⟨rfl, fun hnone => by cases hnone⟩
    · rw [canonicalName_of_not_mem hmy] at h
      exact absurd h.symm (hy n)
  · rw [canonicalName_of_not_mem hmx] at h
    by_cases hmy : y ∈ labels'
    · obtain ⟨m, -, hym⟩ := exists_canonicalName_eq hmy
      rw [hym] at h
      exact absurd h (hx m)
    · rw [canonicalName_of_not_mem hmy] at h
      rw [List.idxOf?_eq_none_iff.mpr hmx, List.idxOf?_eq_none_iff.mpr hmy]
      exact ⟨rfl, fun _ => h⟩

theorem eq_of_canonicalName_eq {labels : List String} {x y : String}
    (hx : ∀ n, x ≠ Name.canonical n) (hy : ∀ n, y ≠ Name.canonical n)
    (h : canonicalName labels x = canonicalName labels y) : x = y := by
  obtain ⟨hindex, hother⟩ := idxOf?_eq_of_canonicalName_eq hx hy h
  cases hn : labels.idxOf? x with
  | none => exact hother hn
  | some n =>
    obtain ⟨_, hnx, -⟩ := List.idxOf?_eq_some_iff.mp hn
    obtain ⟨_, hny, -⟩ := List.idxOf?_eq_some_iff.mp (hindex ▸ hn)
    rw [← hnx, ← hny]

end Body

end AsmCompare
