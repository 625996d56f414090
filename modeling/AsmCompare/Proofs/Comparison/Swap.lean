import AsmCompare.Proofs.Comparison.Churn
import Mathlib.Data.List.Zip

/-! # Comparing in the other direction

Agreement of bodies and correspondence of names are symmetric. The map of corresponding names is
not: it is read from the new side and keeps one old name for each new one, and so does the cache.
Two files compared in both directions are therefore related through everything that corresponds,
kept or not: a direction in which no followed name is ambiguous visits all of it.
-/
namespace AsmCompare

namespace SymbolMap
variable {a b : Body} {newName oldName : String}

theorem mem_zip_swap {α β : Type} {l : List α} {m : List β} {x : α} {y : β}
    (h : (x, y) ∈ l.zip m) : (y, x) ∈ m.zip l := by
  rw [← List.zip_swap]
  exact List.mem_map.mpr ⟨(x, y), h, rfl⟩

theorem mem_correspondingNames_iff :
    (newName, oldName) ∈ correspondingNames a b ↔
      ∃ s t, (s, t) ∈ a.statements.zip b.statements ∧ t.kind.isSymbolic = true ∧
        ∃ o p, (o, p) ∈ s.operands.zip t.operands ∧ ∃ u v, (u, v) ∈ List.zip o p ∧
          u.isIdentifier = true ∧ v.isIdentifier = true ∧ v.text = newName ∧
            u.text = oldName := by
  unfold correspondingNames statementNames operandNames
  simp only [List.mem_flatMap, Prod.exists]
  refine exists_congr fun s => exists_congr fun t => and_congr_right fun _ => ?_
  split
  · next hsym => simp [hsym, and_assoc]
  · next hsym => simp [hsym]

theorem exists_mem_insert (body : String) (map : SymbolMap) (e : String × String) :
    ∃ x, (e.1, x) ∈ (insert body map e).entries := by
  unfold insert
  split
  · exact ⟨e.2, by simp⟩
  · next kept hkept =>
    obtain ⟨before, after, hsplit, -⟩ := List.lookup_eq_some_iff.mp hkept
    have hmem : (e.1, kept) ∈ map.entries := by
      rw [hsplit]
      simp
    exact ⟨kept, by split <;> exact hmem⟩

theorem mem_insert_of_mem {body : String} {map : SymbolMap} {e first : String × String}
    (h : e ∈ map.entries) : e ∈ (insert body map first).entries := by
  unfold insert
  split
  · exact List.mem_append_left _ h
  · split <;> exact h

theorem mem_foldl_of_mem {body : String} {es : List (String × String)} {map : SymbolMap}
    {e : String × String} (h : e ∈ map.entries) : e ∈ (es.foldl (insert body) map).entries := by
  induction es generalizing map with
  | nil => exact h
  | cons first rest ih => exact ih (mem_insert_of_mem h)

theorem exists_mem_foldl {body : String} {es : List (String × String)} (map : SymbolMap)
    {e : String × String} (h : e ∈ es) :
    ∃ x, (e.1, x) ∈ (es.foldl (insert body) map).entries := by
  induction es generalizing map with
  | nil => cases h
  | cons first rest ih =>
    rcases List.mem_cons.mp h with rfl | h
    · obtain ⟨x, hx⟩ := exists_mem_insert body map e
      refine ⟨x, ?_⟩
      rw [List.foldl_cons]
      exact mem_foldl_of_mem hx
    · exact ih _ h

/-- Every new name that corresponds to some name has an entry. -/
theorem exists_mem_entries (h : (newName, oldName) ∈ correspondingNames a b) :
    ∃ x, (newName, x) ∈ (ofBodies a b).entries :=
  exists_mem_foldl {} h

end SymbolMap

def Pairing.swap (p : Pairing) : Pairing := ⟨p.kind, p.new, p.old⟩

namespace Comparison
open Relation

section
variable (old new : Listing)

/-- The names stand at the same place of the bodies of `p`, which agree. -/
def Corresponds (p : Pairing) (newName oldName : String) : Prop :=
  ∃ a b, bodies? old new p = some (a, b) ∧ Agree a b ∧
    (newName, oldName) ∈ SymbolMap.correspondingNames a b

/-- `q` pairs names that correspond in `p`, whether the map of `p` keeps them or not. -/
def Links (p q : Pairing) : Prop := Corresponds old new p q.new q.old ∧ IsReference old new q

def Spans : Pairing → Pairing → Prop := ReflTransGen (Links old new)

/-- No generated new name that is followed from `p` corresponds to a second old name. -/
def Unambiguous (p : Pairing) : Prop :=
  ∀ q r oldName, Spans old new p q → Spans old new p r → Name.isGenerated q.new = true →
    Corresponds old new r q.new oldName → oldName = q.old

end

variable {old new : Listing} {p q : Pairing}

theorem bodies?_swap (old new : Listing) (p : Pairing) :
    bodies? new old p.swap = (bodies? old new p).map Prod.swap := by
  unfold bodies? Pairing.swap
  cases old.bodyOfKind? p.kind true p.old with
  | none => cases new.bodyOfKind? p.kind true p.new <;> rfl
  | some a => cases new.bodyOfKind? p.kind true p.new <;> rfl

theorem agree_self (a : Body) : Agree a a :=
  List.forall₂_same.mpr fun s _ => Statement.agrees_self s

theorem agree_symm {a b : Body} (h : Agree a b) : Agree b a :=
  h.flip.imp fun _ _ hst => Statement.agrees_symm hst

theorem FlatEqual.swap (h : FlatEqual old new p) : FlatEqual new old p.swap := by
  obtain ⟨a, b, hb, hab⟩ := h
  exact ⟨b, a, by rw [bodies?_swap, hb]; rfl, agree_symm hab⟩

namespace Corresponds
variable {newName oldName : String}

theorem swap (h : Corresponds old new p newName oldName) :
    Corresponds new old p.swap oldName newName := by
  obtain ⟨a, b, hb, hab, hmem⟩ := h
  refine ⟨b, a, by rw [bodies?_swap, hb]; rfl, agree_symm hab, ?_⟩
  obtain ⟨s, t, hst, hsym, o, p, hop, u, v, huv, hu, hv, rfl, rfl⟩ :=
    SymbolMap.mem_correspondingNames_iff.mp hmem
  have hkind := (Statement.agrees_iff.mp (List.forall₂_zip hab hst)).1
  rw [← hkind] at hsym
  exact SymbolMap.mem_correspondingNames_iff.mpr ⟨t, s, SymbolMap.mem_zip_swap hst, hsym, p, o,
    SymbolMap.mem_zip_swap hop, v, u, SymbolMap.mem_zip_swap huv, hv, hu, rfl, rfl⟩

/-- A generated name corresponds to generated names only. -/
theorem isGenerated_eq (h : Corresponds old new p newName oldName) :
    Name.isGenerated oldName = Name.isGenerated newName := by
  obtain ⟨a, b, -, hab, hmem⟩ := h
  obtain ⟨s, t, hst, -, o, p, hop, u, v, huv, -, -, rfl, rfl⟩ :=
    SymbolMap.mem_correspondingNames_iff.mp hmem
  have hoperands := (Statement.agrees_iff.mp (List.forall₂_zip hab hst)).2.2
  have htokens := List.forall₂_zip (List.forall₂_zip hoperands hop) huv
  simp only [Statement.tokensAgree, Bool.and_eq_true, Bool.or_eq_true, decide_eq_true_eq] at htokens
  obtain ⟨-, ⟨htext, -⟩ | ⟨⟨-, hu⟩, hv⟩⟩ := htokens
  · rw [htext]
  · rw [hu, hv]

end Corresponds

theorem Links.swap (h : Links old new p q) : Links new old p.swap q.swap := by
  obtain ⟨hcorr, hgen, hkind⟩ := h
  refine ⟨hcorr.swap, hcorr.isGenerated_eq.trans hgen, ?_⟩
  rcases hkind with ⟨hk, hold, hnew⟩ | ⟨hk, hold, hnew⟩
  · exact .inl ⟨hk, hnew, hold⟩
  · exact .inr ⟨hk, hnew, hold⟩

theorem Spans.swap (h : Spans old new p q) : Spans new old p.swap q.swap :=
  ReflTransGen.lift Pairing.swap (fun _ _ => Links.swap) p q h

theorem DependsOn.links (h : DependsOn old new p q) : Links old new p q := by
  obtain ⟨a, b, hb, hab, hmem, href⟩ := h
  exact ⟨⟨a, b, hb, hab, SymbolMap.mem_correspondingNames_of_mem_entries hmem⟩, href⟩

theorem Reaches.spans (h : Reaches old new p q) : Spans old new p q :=
  ReflTransGen.mono (fun _ _ hdep => hdep.links) p q h

theorem IsReference.kind_eq (h : IsReference old new q) : q.kind = new.kindOf q.new := by
  rcases h.2 with ⟨hk, -, hnew⟩ | ⟨hk, -, hnew⟩
  · rw [hk, of_decide_eq_true hnew]
  · rw [hk, of_decide_eq_true hnew]

namespace Unambiguous
variable (h : Unambiguous old new p)
include h

/-- The map keeps whatever is followed. -/
theorem dependsOn (hq : Spans old new p q) {r : Pairing} (hlink : Links old new q r) :
    DependsOn old new q r := by
  obtain ⟨⟨a, b, hb, hab, hmem⟩, href⟩ := id hlink
  obtain ⟨x, hx⟩ := SymbolMap.exists_mem_entries hmem
  have hcorr : Corresponds old new q r.new x :=
    ⟨a, b, hb, hab, SymbolMap.mem_correspondingNames_of_mem_entries hx⟩
  obtain rfl := h r q x (hq.tail hlink) hq href.1 hcorr
  exact ⟨a, b, hb, hab, hx, href⟩

theorem reaches (hq : Spans old new p q) : Reaches old new p q := by
  induction hq with
  | refl => exact .refl
  | tail hpr hlink ih => exact ih.tail (h.dependsOn hpr hlink)

theorem onePartner (hp : p.kind = new.kindOf p.new) : OnePartner (Reaches old new p) := by
  have hkind : ∀ q, Spans old new p q → q.kind = new.kindOf q.new := by
    intro q hq
    cases hq with
    | refl => exact hp
    | tail _ hlink => exact hlink.2.kind_eq
  have hold : ∀ q r, Spans old new p q → Spans old new p r → q.new = r.new → q ≠ p →
      q.old = r.old := by
    intro q r hq hr hnew hne
    cases hq with
    | refl => exact absurd rfl hne
    | tail hpm hlink =>
      refine h r _ q.old hr hpm ?_ ?_
      · rw [← hnew]
        exact hlink.2.1
      · rw [← hnew]
        exact hlink.1
  intro q r hq hr hnew
  have hq := hq.spans
  have hr := hr.spans
  have hk : q.kind = r.kind := by rw [hkind q hq, hkind r hr, hnew]
  have ho : q.old = r.old := by
    by_cases hqp : q = p
    · by_cases hrp : r = p
      · rw [hqp, hrp]
      · exact (hold r q hr hq hnew.symm hrp).symm
    · exact hold q r hq hr hnew hqp
  obtain ⟨kind, o, n⟩ := q
  cases hk
  cases ho
  cases hnew
  rfl

/-- In a direction without ambiguous names, everything that corresponds counts. -/
theorem deepEqual_iff (hp : p.kind = new.kindOf p.new) :
    (compare old new {} p).1.deepEqual = true ↔
      ∀ q, Spans old new p q → FlatEqual old new q := by
  rw [(visits_compare old new {} p).deepEqual_iff_of_empty (h.onePartner hp)]
  exact ⟨fun hall q hq => hall q (h.reaches hq), fun hall q hq => hall q hq.spans⟩

end Unambiguous

/-- A change is found only where two bodies differ. -/
theorem deepEqual_of_forall_flatEqual (h : ∀ q, Reaches old new p q → FlatEqual old new q) :
    (compare old new {} p).1.deepEqual = true := by
  by_contra hc
  have hvisit := visits_compare old new {} p
  obtain ⟨q, -, hfalse⟩ := hvisit.exists_false (by simpa using hc)
  obtain ⟨r, -, hx⟩ := hvisit.exists_explains (results_empty _) hfalse
  obtain ⟨p', hp', hr⟩ := hx.reached
  obtain rfl := List.mem_singleton.mp hp'
  rw [follows_empty] at hr
  cases hx.verdict.mpr (h r hr)

theorem deepEqual_of_forall_spans (h : ∀ q, Spans old new p q → FlatEqual old new q) :
    (compare old new {} p).1.deepEqual = true ∧
      (compare new old {} p.swap).1.deepEqual = true := by
  refine ⟨deepEqual_of_forall_flatEqual fun q hq => h q hq.spans,
    deepEqual_of_forall_flatEqual fun q hq => ?_⟩
  have hflat := h q.swap hq.spans.swap
  exact hflat.swap

theorem Unambiguous.deepEqual_swap (h : Unambiguous old new p) (hp : p.kind = new.kindOf p.new)
    (hc : (compare old new {} p).1.deepEqual = true) :
    (compare new old {} p.swap).1.deepEqual = true :=
  (deepEqual_of_forall_spans ((h.deepEqual_iff hp).mp hc)).2

theorem compareNamed_eq_ok {a b : String} {kind : Symbol.Kind} (ha : old.kindOf a = kind)
    (hb : new.kindOf b = kind) (hk : kind ≠ .unknown) (s : Comparison) :
    compareNamed old new s a b = .ok (compare old new s ⟨kind, a, b⟩) := by
  simp [compareNamed, ha, hb, hk]

/-- Two symbols compared in both directions: both verdicts are positive if all that corresponds is
equal, a positive verdict carries over to the other direction if no name that was followed is
ambiguous, and so the verdicts are the same if neither direction has ambiguous names. -/
theorem compareNamed_swap {old new : Listing} {a b : String} {kind : Symbol.Kind}
    (ha : old.kindOf a = kind) (hb : new.kindOf b = kind) (hk : kind ≠ .unknown) :
    ∃ c s d t, compareNamed old new {} a b = .ok (c, s) ∧
      compareNamed new old {} b a = .ok (d, t) ∧
      ((∀ q, Spans old new ⟨kind, a, b⟩ q → FlatEqual old new q) →
        c.deepEqual = true ∧ d.deepEqual = true) ∧
      (Unambiguous old new ⟨kind, a, b⟩ → c.deepEqual = true → d.deepEqual = true) ∧
      (Unambiguous new old ⟨kind, b, a⟩ → d.deepEqual = true → c.deepEqual = true) ∧
      (Unambiguous old new ⟨kind, a, b⟩ → Unambiguous new old ⟨kind, b, a⟩ →
        c.deepEqual = d.deepEqual) := by
  have hcd := fun h : Unambiguous old new ⟨kind, a, b⟩ => h.deepEqual_swap hb.symm
  have hdc := fun h : Unambiguous new old ⟨kind, b, a⟩ => h.deepEqual_swap ha.symm
  exact ⟨_, _, _, _, compareNamed_eq_ok ha hb hk {}, compareNamed_eq_ok hb ha hk {},
    deepEqual_of_forall_spans, hcd, hdc, fun h h' => Bool.eq_iff_iff.mpr ⟨hcd h, hdc h'⟩⟩

variable (old new) in
/-- The pairs of names at the same places of two agreeing bodies. -/
def correspondences (p : Pairing) : List (String × String) :=
  match bodies? old new p with
  | some (a, b) => if Agree a b then SymbolMap.correspondingNames a b else []
  | none => []

theorem mem_correspondences {newName oldName : String} :
    (newName, oldName) ∈ correspondences old new p ↔ Corresponds old new p newName oldName := by
  unfold correspondences Corresponds
  cases hb : bodies? old new p with
  | none => simp
  | some ab =>
    obtain ⟨a, b⟩ := ab
    by_cases hab : Agree a b <;> simp [hab]

/-- A list of pairings that holds all it links to, with no new name in it corresponding to two old
ones. -/
def IsPlain (old new : Listing) (l : List Pairing) : Prop :=
  ∀ r ∈ l, ∀ e ∈ correspondences old new r,
    (∀ q ∈ reference? old new e.1 e.2, q ∈ l) ∧ ∀ q ∈ l, q.new = e.1 → e.2 = q.old

instance (old new : Listing) (l : List Pairing) : Decidable (IsPlain old new l) :=
  inferInstanceAs (Decidable (∀ r ∈ l, ∀ e ∈ correspondences old new r, _))

theorem IsPlain.unambiguous {l : List Pairing} (h : IsPlain old new l) (hp : p ∈ l) :
    Unambiguous old new p := by
  have hspans : ∀ q, Spans old new p q → q ∈ l := by
    intro q hq
    induction hq with
    | refl => exact hp
    | tail _ hlink ih =>
      refine (h _ ih _ (mem_correspondences.mpr hlink.1)).1 _ ?_
      exact reference?_eq_some_iff.mpr ⟨rfl, rfl, hlink.2⟩
  intro q r x hq hr _ hcorr
  exact (h r (hspans r hr) _ (mem_correspondences.mpr hcorr)).2 q (hspans q hq) rfl

/-- An object that refers to two generated ones. -/
def pairOld : Listing := .load "a.s" "f:.quad x.1;.quad y.1;x.1:.byte 1;y.1:.byte 2"

/-- One of the two changes. -/
def pairNew : Listing := .load "b.s" "f:.quad x.2;.quad y.2;x.2:.byte 1;y.2:.byte 3"

def pairPairings : List Pairing :=
  [⟨.object, "f", "f"⟩, ⟨.object, "x.1", "x.2"⟩, ⟨.object, "y.1", "y.2"⟩]

theorem compareNamed_swap_pair :
    Unambiguous pairOld pairNew ⟨.object, "f", "f"⟩ ∧
      Unambiguous pairNew pairOld ⟨.object, "f", "f"⟩ ∧
      ∃ c s d t, compareNamed pairOld pairNew {} "f" "f" = .ok (c, s) ∧
        compareNamed pairNew pairOld {} "f" "f" = .ok (d, t) ∧ c.deepEqual = d.deepEqual := by
  have hrun : pairOld.kindOf "f" = .object ∧ pairNew.kindOf "f" = .object ∧
      IsPlain pairOld pairNew pairPairings ∧
      IsPlain pairNew pairOld (pairPairings.map Pairing.swap) := by decide +kernel
  obtain ⟨hold, hnew, hplain, hplain'⟩ := hrun
  have huniq : Unambiguous pairOld pairNew ⟨.object, "f", "f"⟩ := hplain.unambiguous (by decide)
  have huniq' : Unambiguous pairNew pairOld ⟨.object, "f", "f"⟩ := hplain'.unambiguous (by decide)
  obtain ⟨c, s, d, t, hc, hd, -, -, -, heq⟩ := compareNamed_swap hold hnew (by decide)
  exact ⟨huniq, huniq', c, s, d, t, hc, hd, heq huniq huniq'⟩

/-- The object refers to a single one twice. -/
def conflictNew : Listing := .load "b.s" "f:.quad z.1;.quad z.1;z.1:.byte 1"

def conflictPairings : List Pairing := [⟨.object, "f", "f"⟩, ⟨.object, "x.1", "z.1"⟩]

/-- The second partner of the new name is never compared; in the other direction it is. -/
theorem compareNamed_swap_ne_conflict :
    pairOld.kindOf "f" = .object ∧ conflictNew.kindOf "f" = .object ∧
      ∃ c s d t, compareNamed pairOld conflictNew {} "f" "f" = .ok (c, s) ∧
        compareNamed conflictNew pairOld {} "f" "f" = .ok (d, t) ∧
        c.deepEqual = true ∧ d.deepEqual = false := by
  have hrun : pairOld.kindOf "f" = .object ∧ conflictNew.kindOf "f" = .object ∧
      (∀ p ∈ conflictPairings, FlatEqual pairOld conflictNew p ∧
        ∀ q ∈ dependencies pairOld conflictNew p, q ∈ conflictPairings) ∧
      IsPlain conflictNew pairOld
        [⟨.object, "f", "f"⟩, ⟨.object, "z.1", "x.1"⟩, ⟨.object, "z.1", "y.1"⟩] ∧
      ⟨.object, "z.1", "y.1"⟩ ∈ dependencies conflictNew pairOld ⟨.object, "f", "f"⟩ ∧
      ¬ FlatEqual conflictNew pairOld ⟨.object, "z.1", "y.1"⟩ := by decide +kernel
  obtain ⟨hold, hnew, hclosed, hplain, hdep, hne⟩ := hrun
  have hforth : (compare pairOld conflictNew {} ⟨.object, "f", "f"⟩).1.deepEqual = true := by
    refine deepEqual_of_forall_flatEqual fun q hq => (hclosed q ?_).1
    exact hq.mem_of_closed (by decide) fun r hr => (hclosed r hr).2
  have hback : (compare conflictNew pairOld {} ⟨.object, "f", "f"⟩).1.deepEqual = false := by
    have huniq : Unambiguous conflictNew pairOld ⟨.object, "f", "f"⟩ :=
      hplain.unambiguous (by decide)
    rw [← Bool.not_eq_true, huniq.deepEqual_iff hold.symm]
    exact fun hall => hne (hall _ (ReflTransGen.single (mem_dependencies.mp hdep).links))
  exact ⟨hold, hnew, _, _, _, _, compareNamed_eq_ok hold hnew (by decide) {},
    compareNamed_eq_ok hnew hold (by decide) {}, hforth, hback⟩

end Comparison

end AsmCompare
