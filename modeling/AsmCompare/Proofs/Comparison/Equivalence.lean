import AsmCompare.Proofs.Comparison.Swap

/-! # Flat equality as a relation between symbols

Two symbols are flat-equal if their bodies agree, each taken from its own file and normalized on its
own. Nothing else of the two files counts, so the verdicts on several files fit together: they are
symmetric and transitive for every kind. A symbol is flat-equal to itself as soon as it has a body,
which is so for functions and objects, and not for a symbol of which the file gives no kind.
-/
namespace AsmCompare

theorem Listing.kindOf_of_object? {l : Listing} {strip : Bool} {name : String} {b : Body}
    (h : l.object? strip name = some b) : l.kindOf name = .object := by
  have hst := map_statements_object? l strip name
  rw [h, Option.map_some] at hst
  obtain ⟨start, hstart, -⟩ := Option.map_eq_some_iff.mp hst.symm
  rw [kindOf_eq_iff l name (by decide), hstart]
  rfl

namespace Comparison

/-- The body of a symbol as it is compared. -/
def comparedBody? (kind : Symbol.Kind) (x : Listing × String) : Option Body :=
  (x.1.bodyOfKind? kind true x.2).map Body.normalize

/-- A comparison of its own finds two symbols flat-equal, each given by a file and a name. -/
def SameBody (kind : Symbol.Kind) (x y : Listing × String) : Prop :=
  (compare x.1 y.1 {} ⟨kind, x.2, y.2⟩).1.flatEqual = true

instance (kind : Symbol.Kind) (x y : Listing × String) : Decidable (SameBody kind x y) :=
  decidable_of_iff' _ compare_flatEqual_iff

variable {kind : Symbol.Kind} {x y z : Listing × String}

theorem sameBody_iff :
    SameBody kind x y ↔ ∃ a b, comparedBody? kind x = some a ∧ comparedBody? kind y = some b ∧
      Agree a b := by
  rw [SameBody, compare_flatEqual_iff, FlatEqual]
  refine exists_congr fun a => exists_congr fun b => ?_
  rw [← and_assoc]
  refine and_congr_left fun _ => ?_
  unfold bodies? comparedBody?
  cases x.1.bodyOfKind? kind true x.2 with
  | none => simp
  | some f => cases y.1.bodyOfKind? kind true y.2 <;> simp

theorem agree_trans {a b c : Body} (hab : Agree a b) (hbc : Agree b c) : Agree a c :=
  Statement.forall₂_trans hab hbc fun _ _ _ => Statement.agrees_trans

theorem SameBody.symm (h : SameBody kind x y) : SameBody kind y x := by
  obtain ⟨a, b, ha, hb, hab⟩ := sameBody_iff.mp h
  exact sameBody_iff.mpr ⟨b, a, hb, ha, agree_symm hab⟩

theorem SameBody.trans (hxy : SameBody kind x y) (hyz : SameBody kind y z) : SameBody kind x z := by
  obtain ⟨a, b, ha, hb, hab⟩ := sameBody_iff.mp hxy
  obtain ⟨b', c, hb', hc, hbc⟩ := sameBody_iff.mp hyz
  rw [hb] at hb'
  cases hb'
  exact sameBody_iff.mpr ⟨a, c, ha, hc, agree_trans hab hbc⟩

theorem sameBody_self_iff : SameBody kind x x ↔ (comparedBody? kind x).isSome = true := by
  rw [sameBody_iff, Option.isSome_iff_exists]
  constructor
  · rintro ⟨a, -, ha, -, -⟩
    exact ⟨a, ha⟩
  · rintro ⟨a, ha⟩
    exact ⟨a, a, ha, ha, agree_self a⟩

theorem comparedBody?_isSome_iff (h : x.1.kindOf x.2 = kind) :
    (comparedBody? kind x).isSome = true ↔ kind ≠ .unknown := by
  rw [comparedBody?, Option.isSome_map, Option.isSome_iff_exists]
  constructor
  · rintro ⟨b, hb⟩ rfl
    have hobject := Listing.kindOf_of_object? hb
    rw [h] at hobject
    cases hobject
  · intro hk
    exact Listing.exists_bodyOfKind?_of_kindOf hk h true

/-- Flat equality is symmetric and transitive over all files and names, for every kind. Symbols of a
known kind are flat-equal to themselves, so on these it is an equivalence. -/
theorem sameBody_equivalence (kind : Symbol.Kind) :
    (∀ x y, SameBody kind x y → SameBody kind y x) ∧
      (∀ x y z, SameBody kind x y → SameBody kind y z → SameBody kind x z) ∧
      ∀ x : Listing × String, x.1.kindOf x.2 = kind → (SameBody kind x x ↔ kind ≠ .unknown) := by
  refine ⟨fun _ _ h => h.symm, fun _ _ _ hxy hyz => hxy.trans hyz, ?_⟩
  intro x hx
  rw [sameBody_self_iff]
  exact comparedBody?_isSome_iff hx

/-- A function that jumps over an instruction. -/
def skipFirst : Listing := .load "a.s" ".type f,@function;f:jmp .L1;call x.1;.L1:ret"

def skipSecond : Listing := .load "b.s" ".type g,@function;g:jmp .L2;call x.2;.L2:ret"

def skipThird : Listing := .load "c.s" ".type h,@function;h:jmp a;call y.1;a:ret"

theorem sameBody_equivalence_skip :
    skipFirst.kindOf "f" = .function ∧
      SameBody .function (skipFirst, "f") (skipFirst, "f") ∧
      SameBody .function (skipSecond, "g") (skipFirst, "f") ∧
      SameBody .function (skipFirst, "f") (skipThird, "h") := by
  have hrun : skipFirst.kindOf "f" = .function ∧
      SameBody .function (skipFirst, "f") (skipSecond, "g") ∧
      SameBody .function (skipSecond, "g") (skipThird, "h") := by decide +kernel
  obtain ⟨hkind, hfirst, hsecond⟩ := hrun
  obtain ⟨hsymm, htrans, hself⟩ := sameBody_equivalence .function
  exact ⟨hkind, (hself (skipFirst, "f") hkind).mpr (by decide), hsymm _ _ hfirst,
    htrans _ _ _ hfirst hsecond⟩

/-- A symbol that is declared and not defined. -/
def declaredOnly : Listing := .load "a.s" ".globl x"

theorem not_sameBody_declaredOnly :
    (declaredOnly.symbol? "x").map Symbol.kind = some .unknown ∧
      declaredOnly.kindOf "x" = .unknown ∧
      ¬ SameBody .unknown (declaredOnly, "x") (declaredOnly, "x") := by
  decide +kernel

end Comparison

end AsmCompare
