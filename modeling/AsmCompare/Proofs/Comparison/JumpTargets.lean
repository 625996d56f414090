import AsmCompare.Proofs.Comparison.SharedCache
import AsmCompare.Proofs.Listing.Renamed
import AsmCompare.Proofs.Statement.Agreement
import AsmCompare.Proofs.Token.Spelling

/-! # Where the labels of equal functions stand

Functions that compare as equal have the same instructions, and a name in one of them refers to a
label at the same place as the corresponding name in the other: stripping keeps the label,
normalization gives both the same name, and labels agree only with equal names. Three kinds of
names escape this: labels that are dropped as debug labels, generated labels that are not local and
have another name in the other function, and local labels of a body that writes a canonical name
itself.
-/
namespace AsmCompare

def Statement.isInstruction (s : Statement) : Bool := s.kind = .instruction

/-- A label `x` stands after `j` instructions. -/
def Marks (statements : List Statement) (x : String) (j : Nat) : Prop :=
  ∃ n < statements.length, statements[n]?.bind Statement.label? = some x ∧
    (statements.take n).countP Statement.isInstruction = j

instance (statements : List Statement) (x : String) (j : Nat) : Decidable (Marks statements x j) :=
  inferInstanceAs (Decidable (∃ n < statements.length, _ ∧ _))

theorem marks_iff {statements : List Statement} {x : String} {j : Nat} :
    Marks statements x j ↔ ∃ before s after, statements = before ++ s :: after ∧
      s.label? = some x ∧ before.countP Statement.isInstruction = j := by
  constructor
  · rintro ⟨n, hn, hlabel, hcount⟩
    rw [List.getElem?_eq_getElem hn, Option.bind_some] at hlabel
    refine ⟨statements.take n, statements[n], statements.drop (n + 1), ?_, hlabel, hcount⟩
    rw [← List.drop_eq_getElem_cons hn, List.take_append_drop]
  · rintro ⟨before, s, after, rfl, hlabel, hcount⟩
    refine ⟨before.length, by simp, ?_, ?_⟩
    · simpa using hlabel
    · simpa using hcount

theorem countP_filter_of_keeps {keep : Statement → Bool}
    (hinstr : ∀ s, s.isInstruction = true → keep s = true) (statements : List Statement) :
    (statements.filter keep).countP Statement.isInstruction =
      statements.countP Statement.isInstruction := by
  rw [List.countP_filter]
  refine List.countP_congr fun t _ => ?_
  rw [Bool.and_eq_true]
  exact ⟨fun ht => ht.1, fun ht => ⟨ht, hinstr t ht⟩⟩

theorem Marks.exists_mem {statements : List Statement} {x : String} {j : Nat}
    (h : Marks statements x j) : ∃ s ∈ statements, s.label? = some x := by
  obtain ⟨n, -, hlabel, -⟩ := h
  obtain ⟨s, hs, hx⟩ := Option.bind_eq_some_iff.mp hlabel
  exact ⟨s, List.mem_of_getElem? hs, hx⟩

/-- Dropping statements that are neither instructions nor labels `x` keeps the places of `x`. -/
theorem Marks.filter {statements : List Statement} {x : String} {j : Nat} {keep : Statement → Bool}
    (h : Marks statements x j) (hinstr : ∀ s, s.isInstruction = true → keep s = true)
    (hlabel : ∀ s ∈ statements, s.label? = some x → keep s = true) :
    Marks (statements.filter keep) x j := by
  obtain ⟨before, s, after, rfl, hs, hcount⟩ := marks_iff.mp h
  have hkeep := hlabel s (by simp) hs
  refine marks_iff.mpr ⟨before.filter keep, s, after.filter keep, by simp [hkeep], hs, ?_⟩
  rw [countP_filter_of_keeps hinstr, hcount]

theorem Marks.of_filter {statements : List Statement} {x : String} {j : Nat}
    {keep : Statement → Bool} (h : Marks (statements.filter keep) x j)
    (hinstr : ∀ s, s.isInstruction = true → keep s = true) : Marks statements x j := by
  obtain ⟨before, s, after, hsplit, hs, hcount⟩ := marks_iff.mp h
  obtain ⟨l, m, rfl, hbefore, hm⟩ := List.filter_eq_append_iff.mp hsplit
  obtain ⟨dropped, rest, rfl, hdropped, -, -⟩ := List.filter_eq_cons_iff.mp hm
  refine marks_iff.mpr ⟨l ++ dropped, s, rest, by simp, hs, ?_⟩
  have hnone : dropped.countP Statement.isInstruction = 0 := by
    rw [List.countP_eq_zero]
    intro t ht hinst
    exact hdropped t ht (hinstr t hinst)
  rw [List.countP_append, hnone, Nat.add_zero, ← countP_filter_of_keeps hinstr, hbefore, hcount]

theorem forall₂_getElem? {α : Type} {r : α → α → Prop} {l m : List α} (h : List.Forall₂ r l m)
    {i : Nat} {x : α} (hx : l[i]? = some x) : ∃ y, m[i]? = some y ∧ r x y := by
  induction h generalizing i with
  | nil => simp at hx
  | @cons a b l m hab _ ih =>
    cases i with
    | zero =>
      obtain rfl : a = x := by simpa using hx
      exact ⟨b, rfl, hab⟩
    | succ i => exact ih (by simpa using hx)

section
variable {ρ τ : String → String} {F G : List Statement}

/-- Two statements agree under their maps on names. -/
def AgreeUnder (ρ τ : String → String) (s t : Statement) : Prop :=
  (s.mapNames ρ).agrees (t.mapNames τ) = true

theorem AgreeUnder.kind_eq {s t : Statement} (h : AgreeUnder ρ τ s t) : s.kind = t.kind := by
  have hk := (Statement.agrees_iff.mp h).1
  rwa [Statement.kind_mapNames, Statement.kind_mapNames] at hk

theorem AgreeUnder.isInstruction_eq {s t : Statement} (h : AgreeUnder ρ τ s t) :
    s.isInstruction = t.isInstruction := by
  rw [Statement.isInstruction, Statement.isInstruction, h.kind_eq]

theorem forall₂_filter_isInstruction (h : List.Forall₂ (AgreeUnder ρ τ) F G) :
    List.Forall₂ (AgreeUnder ρ τ) (F.filter Statement.isInstruction)
      (G.filter Statement.isInstruction) :=
  List.rel_filter (fun _ _ hst => Bool.eq_iff_iff.mp hst.isInstruction_eq) h

theorem AgreeUnder.label?_eq {s t : Statement} (h : AgreeUnder ρ τ s t) (hs : s.WellFormed)
    (ht : t.WellFormed) {x : String} (hx : s.label? = some x) :
    ∃ z, t.label? = some z ∧ ρ x = τ z := by
  have hks := hs.kind_eq_label hx
  have hkt : t.kind = .label := by rw [← h.kind_eq, hks]
  obtain ⟨z, hz⟩ := ht.exists_label? hkt
  have hmnemonic := (Statement.agrees_iff.mp h).2.1
  rw [Statement.mnemonic_mapNames ρ (by rw [hks]; rfl),
    Statement.mnemonic_mapNames τ (by rw [hkt]; rfl), hx, hz] at hmnemonic
  exact ⟨z, hz, hmnemonic⟩

theorem AgreeUnder.exists_token {s t : Statement} (h : AgreeUnder ρ τ s t)
    (hs : s.isInstruction = true) {k m : Nat} {operand : Operand} {u : Token}
    (ho : s.operands[k]? = some operand) (hu : operand[m]? = some u)
    (hid : u.isIdentifier = true) :
    ∃ other v, t.operands[k]? = some other ∧ other[m]? = some v ∧ v.isIdentifier = true ∧
      (ρ u.text = τ v.text ∨
        Name.isGenerated (ρ u.text) = true ∧ Name.isGenerated (τ v.text) = true) := by
  have hks : s.kind = .instruction := of_decide_eq_true hs
  have hkt : t.kind = .instruction := by rw [← h.kind_eq, hks]
  have hoperands := (Statement.agrees_iff.mp h).2.2
  rw [Statement.operands_mapNames ρ (by rw [hks]; rfl),
    Statement.operands_mapNames τ (by rw [hkt]; rfl), List.forall₂_map_left_iff,
    List.forall₂_map_right_iff] at hoperands
  obtain ⟨other, hother, hrow⟩ := forall₂_getElem? hoperands ho
  rw [List.forall₂_map_left_iff, List.forall₂_map_right_iff] at hrow
  obtain ⟨v, hv, hagree⟩ := forall₂_getElem? hrow hu
  unfold Statement.tokensAgree at hagree
  simp only [Bool.and_eq_true, Bool.or_eq_true, decide_eq_true_eq, Token.kind_mapName] at hagree
  obtain ⟨hkind, htext⟩ := hagree
  have hvid : v.isIdentifier = true := by
    rw [Token.isIdentifier, ← hkind]
    exact hid
  rw [Token.text_mapName_of_isIdentifier hid, Token.text_mapName_of_isIdentifier hvid] at htext
  refine ⟨other, v, hother, hv, hvid, ?_⟩
  rcases htext with ⟨heq, -⟩ | ⟨⟨-, hgen⟩, hgen'⟩
  · exact .inl heq
  · exact .inr ⟨hgen, hgen'⟩

/-- Where a label stands in one list, one with the same name under the maps stands in the other. -/
theorem Marks.exists_of_agreeUnder (hagree : List.Forall₂ (AgreeUnder ρ τ) F G)
    (hF : ∀ s ∈ F, s.WellFormed) (hG : ∀ s ∈ G, s.WellFormed) {x : String} {j : Nat}
    (h : Marks F x j) : ∃ z, Marks G z j ∧ ρ x = τ z := by
  obtain ⟨n, hn, hlabel, hcount⟩ := h
  obtain ⟨s, hs, hsx⟩ := Option.bind_eq_some_iff.mp hlabel
  obtain ⟨t, ht, hst⟩ := forall₂_getElem? hagree hs
  have hsF := hF s (List.mem_of_getElem? hs)
  have htG := hG t (List.mem_of_getElem? ht)
  obtain ⟨z, hz, hname⟩ := hst.label?_eq hsF htG hsx
  refine ⟨z, ⟨n, hagree.length_eq ▸ hn, ?_, ?_⟩, hname⟩
  · rw [ht, Option.bind_some, hz]
  · rw [← hcount, List.countP_eq_length_filter, List.countP_eq_length_filter]
    exact (forall₂_filter_isInstruction (List.forall₂_take n hagree)).length_eq.symm

end

namespace Listing

theorem not_isFunctionDebug_of_isInstruction (s : Statement) (h : s.isInstruction = true) :
    (!isFunctionDebug s) = true := by
  have hk : s.kind = .instruction := of_decide_eq_true h
  simp [isFunctionDebug, Statement.isLabel, hk]

theorem not_isFunctionDebug_of_label? {s : Statement} (h : s.WellFormed) {x : String}
    (hx : s.label? = some x) (hdebug : Name.isDebugLabel x = false) :
    (!isFunctionDebug s) = true := by
  simp [isFunctionDebug, h.kind_eq_label hx, hx, hdebug]

/-- No identifier of a file that was read is a canonical name. -/
theorem text_ne_canonical {l : Listing} {file source : String} (hl : l = .load file source)
    {s : Statement} (hs : s ∈ l.statements) {k m : Nat} {operand : Operand} {u : Token}
    (ho : s.operands[k]? = some operand) (hu : operand[m]? = some u)
    (hid : u.isIdentifier = true) (n : Nat) : u.text ≠ Name.canonical n := by
  rw [hl] at hs
  have hspell := Statement.spelled_of_mem_ofSource hs (List.mem_of_getElem? ho)
    (List.mem_of_getElem? hu)
  exact hspell.text_ne_canonical hid n

end Listing

namespace Body

def instructions (b : Body) : List Statement := b.statements.filter Statement.isInstruction

/-- The token at a place of an instruction: the number of the instruction, of the operand, and of
the token in it. -/
def tokenAt? (b : Body) (i k m : Nat) : Option Token := do
  let s ← b.instructions[i]?
  let operand ← s.operands[k]?
  operand[m]?

/-- A name `x` whose label is found again under the name `y` that stands in its place in `g`, a
function that compares as equal. -/
structure Traceable (g : Body) (x y : String) : Prop where
  kept : Name.isDebugLabel x = false
  named : Name.isLocalLabel x = true ∨ Name.isGenerated x = false ∨ y = x
  distinct : Name.isLocalLabel x = true →
    ∀ s ∈ g.statements, ∀ n, s.label? ≠ some (Name.canonical n)

variable {f g : Body} {labels labels' : List String} {x y : String}

theorem tokenAt?_eq_some_iff {i k m : Nat} {u : Token} :
    f.tokenAt? i k m = some u ↔ ∃ s operand, f.instructions[i]? = some s ∧
      s.operands[k]? = some operand ∧ operand[m]? = some u := by
  simp only [tokenAt?, Option.bind_eq_bind, Option.bind_eq_some_iff]
  constructor
  · rintro ⟨s, hs, operand, ho, hu⟩
    exact ⟨s, operand, hs, ho, hu⟩
  · rintro ⟨s, operand, hs, ho, hu⟩
    exact ⟨s, hs, operand, ho, hu⟩

theorem instructions_eq_filter (f : Body) : f.instructions =
    (f.statements.filter fun s => !Listing.isFunctionDebug s).filter Statement.isInstruction := by
  rw [instructions, List.filter_filter]
  refine List.filter_congr fun s _ => ?_
  cases hs : s.isInstruction with
  | false => rfl
  | true => rw [Listing.not_isFunctionDebug_of_isInstruction s hs, Bool.and_self]

theorem isGenerated_canonicalName
    (h : x ∈ labels ∨ Name.isGenerated x = false) :
    Name.isGenerated (canonicalName labels x) = false := by
  by_cases hx : x ∈ labels
  · obtain ⟨n, -, hn⟩ := exists_canonicalName_eq hx
    rw [hn, Name.isGenerated_canonical]
  · rw [canonicalName_of_not_mem hx]
    exact h.resolve_left hx

/-- Names that agree because both are generated are traceable only if they are equal. -/
theorem Traceable.canonicalName_eq (h : g.Traceable x y)
    (hlabels : x ∈ labels ↔ Name.isLocalLabel x = true)
    (hlabels' : ∀ z ∈ labels', Name.isLocalLabel z = true)
    (hxy : canonicalName labels x = canonicalName labels' y ∨
      Name.isGenerated (canonicalName labels x) = true ∧
        Name.isGenerated (canonicalName labels' y) = true) :
    canonicalName labels x = canonicalName labels' y := by
  by_cases hplain : x ∈ labels ∨ Name.isGenerated x = false
  · refine hxy.resolve_right fun hboth => ?_
    rw [isGenerated_canonicalName hplain] at hboth
    cases hboth.1
  · have hmem : x ∉ labels := fun hx => hplain (.inl hx)
    have hmem' : x ∉ labels' := fun hx => hmem (hlabels.mpr (hlabels' x hx))
    obtain hlocal | hnamed | rfl := h.named
    · exact absurd (hlabels.mpr hlocal) hmem
    · exact absurd (.inr hnamed) hplain
    · rw [canonicalName_of_not_mem hmem, canonicalName_of_not_mem hmem']

/-- The label of a traceable name stands where the label of the corresponding name stands. -/
theorem marks_of_agreeUnder
    (hagree : List.Forall₂ (AgreeUnder (canonicalName labels) (canonicalName labels'))
      (f.statements.filter fun s => !Listing.isFunctionDebug s)
      (g.statements.filter fun s => !Listing.isFunctionDebug s))
    (hf : ∀ s ∈ f.statements, s.WellFormed) (hg : ∀ s ∈ g.statements, s.WellFormed)
    (hlabels : ∀ x, x ∈ labels ↔ Name.isLocalLabel x = true ∧
      ∃ s ∈ f.statements.filter fun s => !Listing.isFunctionDebug s, s.label? = some x)
    (hlabels' : ∀ x ∈ labels', Name.isLocalLabel x = true)
    (hx : ∀ n, x ≠ Name.canonical n) (hy : ∀ n, y ≠ Name.canonical n)
    (hxy : canonicalName labels x = canonicalName labels' y ∨
      Name.isGenerated (canonicalName labels x) = true ∧
        Name.isGenerated (canonicalName labels' y) = true)
    (htrace : g.Traceable x y) {j : Nat} (h : Marks f.statements x j) :
    Marks g.statements y j := by
  have hkept := h.filter Listing.not_isFunctionDebug_of_isInstruction fun s hs hsx =>
    Listing.not_isFunctionDebug_of_label? (hf s hs) hsx htrace.kept
  have hlocal : x ∈ labels ↔ Name.isLocalLabel x = true :=
    ⟨fun hx => ((hlabels x).mp hx).1, fun hx => (hlabels x).mpr ⟨hx, hkept.exists_mem⟩⟩
  have heq := htrace.canonicalName_eq hlocal hlabels' hxy
  obtain ⟨z, hz, hxz⟩ := hkept.exists_of_agreeUnder hagree
    (fun s hs => hf s (List.mem_filter.mp hs).1) fun s hs => hg s (List.mem_filter.mp hs).1
  have hzg := hz.of_filter Listing.not_isFunctionDebug_of_isInstruction
  have hzc : ∀ n, z ≠ Name.canonical n := by
    rintro n rfl
    by_cases hmem : x ∈ labels
    · obtain ⟨s, hs, hsz⟩ := hzg.exists_mem
      exact htrace.distinct (hlocal.mp hmem) s hs n hsz
    · have hmem' : Name.canonical n ∉ labels' := by
        intro hmem'
        have hcanonical := hlabels' _ hmem'
        rw [Name.isLocalLabel_canonical] at hcanonical
        cases hcanonical
      rw [canonicalName_of_not_mem hmem, canonicalName_of_not_mem hmem'] at hxz
      exact hx n hxz
  have hyz : y = z := eq_of_canonicalName_eq hy hzc (heq.symm.trans hxz)
  rw [hyz]
  exact hzg

end Body

namespace Comparison
variable {old new : Listing} {a b : String}

/-- Equal functions agree statement by statement, once debug statements are dropped and the local
labels have their canonical names. -/
theorem FlatEqual.exists_agreeUnder (h : FlatEqual old new ⟨.function, a, b⟩)
    (hold : old.Loaded) (hnew : new.Loaded) :
    ∃ f g labels labels', old.function? false a = some f ∧ new.function? false b = some g ∧
      List.Forall₂ (AgreeUnder (Body.canonicalName labels) (Body.canonicalName labels'))
        (f.statements.filter fun s => !Listing.isFunctionDebug s)
        (g.statements.filter fun s => !Listing.isFunctionDebug s) ∧
      (∀ x, x ∈ labels ↔ Name.isLocalLabel x = true ∧
        ∃ s ∈ f.statements.filter fun s => !Listing.isFunctionDebug s, s.label? = some x) ∧
      ∀ x ∈ labels', Name.isLocalLabel x = true := by
  obtain ⟨_, _, hbodies, hagree⟩ := h
  unfold bodies? at hbodies
  split at hbodies
  · next a' b' ha hb =>
    cases hbodies
    obtain ⟨f, hf, haf⟩ := Listing.exists_full_of_function? ha
    obtain ⟨g, hg, hbg⟩ := Listing.exists_full_of_function? hb
    have hwfa : ∀ s ∈ a'.statements, s.WellFormed :=
      fun s hs => hold.wellFormed s (Listing.mem_of_bodyOfKind? ha hs)
    have hwfb : ∀ s ∈ b'.statements, s.WellFormed :=
      fun s hs => hnew.wellFormed s (Listing.mem_of_bodyOfKind? hb hs)
    rw [Agree, Body.statements_normalize hwfa, Body.statements_normalize hwfb,
      List.forall₂_map_left_iff, List.forall₂_map_right_iff] at hagree
    refine ⟨f, g, a'.localLabels, b'.localLabels, hf, hg, ?_, fun x => ?_, fun x hx => ?_⟩
    · rw [← haf, ← hbg]
      exact hagree
    · rw [← haf]
      exact Body.mem_localLabels_iff
    · exact (Body.mem_localLabels_iff.mp hx).1
  · cases hbodies

/-- Functions that compare as equal have the same number of instructions, identifiers stand at the
same places of them, and the labels of corresponding names stand before the same instructions. -/
theorem compare_flatEqual_marks {file source file' source' : String} {old new : Listing}
    (hold : old = .load file source) (hnew : new = .load file' source') {a b : String}
    (h : (compare old new {} ⟨.function, a, b⟩).1.flatEqual = true) :
    ∃ f g, old.function? false a = some f ∧ new.function? false b = some g ∧
      f.instructions.length = g.instructions.length ∧
      ∀ i k m u, f.tokenAt? i k m = some u → u.isIdentifier = true →
        ∃ v, g.tokenAt? i k m = some v ∧ v.isIdentifier = true ∧
          (g.Traceable u.text v.text → ∀ j, Marks f.statements u.text j →
            Marks g.statements v.text j) := by
  have hloaded : old.Loaded := hold ▸ Listing.loaded_load file source
  have hloaded' : new.Loaded := hnew ▸ Listing.loaded_load file' source'
  obtain ⟨f, g, labels, labels', hf, hg, hagree, hlabels, hlabels'⟩ :=
    (compare_flatEqual_iff.mp h).exists_agreeUnder hloaded hloaded'
  have hfmem : ∀ s ∈ f.statements, s ∈ old.statements := fun s => Listing.mem_of_function? hf
  have hgmem : ∀ s ∈ g.statements, s ∈ new.statements := fun s => Listing.mem_of_function? hg
  have hinstr : List.Forall₂ (AgreeUnder (Body.canonicalName labels) (Body.canonicalName labels'))
      f.instructions g.instructions := by
    rw [f.instructions_eq_filter, g.instructions_eq_filter]
    exact forall₂_filter_isInstruction hagree
  refine ⟨f, g, hf, hg, hinstr.length_eq, fun i k m u hu hid => ?_⟩
  obtain ⟨s, operand, hs, ho, hu⟩ := Body.tokenAt?_eq_some_iff.mp hu
  obtain ⟨t, ht, hst⟩ := forall₂_getElem? hinstr hs
  obtain ⟨hsf, hsi⟩ := List.mem_filter.mp (List.mem_of_getElem? hs)
  have htg := (List.mem_filter.mp (List.mem_of_getElem? ht)).1
  obtain ⟨other, v, hother, hv, hvid, hnames⟩ := hst.exists_token hsi ho hu hid
  refine ⟨v, Body.tokenAt?_eq_some_iff.mpr ⟨t, other, ht, hother, hv⟩, hvid, fun htrace j hj => ?_⟩
  have hcanonical := Listing.text_ne_canonical hold (hfmem s hsf) ho hu hid
  have hcanonical' := Listing.text_ne_canonical hnew (hgmem t htg) hother hv hvid
  exact Body.marks_of_agreeUnder hagree (fun s hs => hloaded.wellFormed s (hfmem s hs))
    (fun s hs => hloaded'.wellFormed s (hgmem s hs)) hlabels hlabels' hcanonical hcanonical'
    hnames htrace hj

/-- A function that jumps to a local label. -/
def jumpOld : Listing := .load "a.s" ".type f,@function;f:jmp .L2;nop;.L2:ret"

def jumpNew : Listing := .load "b.s" ".type f,@function;f:jmp .L7;nop;.L7:ret"

theorem compare_flatEqual_marks_jump :
    (compare jumpOld jumpNew {} ⟨.function, "f", "f"⟩).1.flatEqual = true ∧
      ∃ f g, jumpOld.function? false "f" = some f ∧ jumpNew.function? false "f" = some g ∧
        f.tokenAt? 0 0 0 = some ⟨".L2", .identifier, false⟩ ∧ Marks f.statements ".L2" 2 ∧
        ∃ v, g.tokenAt? 0 0 0 = some v ∧ g.Traceable ".L2" v.text ∧
          Marks g.statements v.text 2 := by
  have hrun : FlatEqual jumpOld jumpNew ⟨.function, "f", "f"⟩ ∧
      (∀ f ∈ jumpOld.function? false "f", f.tokenAt? 0 0 0 = some ⟨".L2", .identifier, false⟩ ∧
        Marks f.statements ".L2" 2) ∧
      (∀ g ∈ jumpNew.function? false "f", ∀ s ∈ g.statements, ∀ x ∈ s.label?,
        x.toList.head? ≠ some '~') ∧ Name.isDebugLabel ".L2" = false := by decide +kernel
  obtain ⟨hflat, hf, hg, hdebug⟩ := hrun
  have hequal := compare_flatEqual_iff.mpr hflat
  have hold : jumpOld = .load "a.s" ".type f,@function;f:jmp .L2;nop;.L2:ret" := rfl
  have hnew : jumpNew = .load "b.s" ".type f,@function;f:jmp .L7;nop;.L7:ret" := rfl
  obtain ⟨f, g, hfull, hfull', -, htokens⟩ := compare_flatEqual_marks hold hnew hequal
  obtain ⟨htoken, hmark⟩ := hf f hfull
  obtain ⟨v, hv, -, hsame⟩ := htokens 0 0 0 _ htoken rfl
  have htrace : g.Traceable ".L2" v.text := by
    refine ⟨hdebug, .inl (by decide), fun _ s hs n hn => ?_⟩
    refine hg g hfull' s hs _ hn ?_
    rw [Name.toList_canonical]
    rfl
  exact ⟨hequal, f, g, hfull, hfull', htoken, hmark, v, hv, htrace, hsame htrace 2 hmark⟩

/-- The functions `f` compare as equal, and the first name in them refers to labels at different
places. -/
def Strays (old new : Listing) : Prop :=
  (compare old new {} ⟨.function, "f", "f"⟩).1.flatEqual = true ∧
    ∃ f ∈ old.function? false "f", ∃ g ∈ new.function? false "f",
      ∃ u ∈ f.tokenAt? 0 0 0, ∃ v ∈ g.tokenAt? 0 0 0,
        u.isIdentifier = true ∧ v.isIdentifier = true ∧
          ∃ j < 3, Marks f.statements u.text j ∧ ¬ Marks g.statements v.text j

instance (old new : Listing) : Decidable (Strays old new) :=
  decidable_of_iff' _ (and_congr_left' compare_flatEqual_iff)

/-- Labels that are dropped as debug labels, generated labels, and local labels beside a canonical
name can change their places. -/
theorem strays_debug_generated_canonical :
    Strays (.load "a.s" ".type f,@function;f:jmp .LA;.LA:nop;ret")
        (.load "b.s" ".type f,@function;f:jmp .LA;nop;.LA:ret") ∧
      Strays (.load "a.s" ".type f,@function;f:jmp x.1;x.1:nop;y.1:ret")
        (.load "b.s" ".type f,@function;f:jmp y.1;x.1:nop;y.1:ret") ∧
      Strays (.load "a.s" ".type f,@function;f:jmp .L1;.L1:nop;~ASMTOOL0:;ret")
        (.load "b.s" ".type f,@function;f:jmp .L1;~ASMTOOL0:;nop;.L1:ret") := by
  decide +kernel

end Comparison

end AsmCompare
