import AsmCompare.Proofs.Body.CanonicalNames
import AsmCompare.Proofs.Comparison.SharedCache
import AsmCompare.Proofs.Listing.Renamed
import AsmCompare.Proofs.Statement.Agreement

/-! # Files that differ in generated names only

Local labels get the same canonical names in both files, and code and data take one generated name
for another. What is left are the other directives and the labels that stand in a body: a new name
there is a difference, unless the body defines that name as a local label.
-/
namespace AsmCompare
open Relation

namespace Body

/-- A directive or label that is neither code nor data nor a section holds a name that changes and
is no local label of the body. -/
def Exposes (σ : String → String) (b : Body) : Prop :=
  ∃ s ∈ b.statements, s.kind.isSymbolic = false ∧ s.kind.isSection = false ∧
    ∃ x ∈ s.names, x ∉ b.localLabels ∧ σ x ≠ x

instance (σ : String → String) (b : Body) : Decidable (b.Exposes σ) :=
  inferInstanceAs (Decidable (∃ s ∈ b.statements, _ ∧ _ ∧ ∃ x ∈ s.names, _ ∧ _))

/-- The name that a name gets by renaming and normalization. -/
def churnedName (σ : String → String) (labels : List String) (x : String) : String :=
  if x ∈ labels then canonicalName labels x else σ x

section
variable {σ : String → String} (hσ : Name.IsChurn σ) {a b : Body}
  (hwf : ∀ s ∈ a.statements, s.WellFormed)
  (hb : b.statements = a.statements.map (Statement.mapNames σ))
include hσ

theorem canonicalName_map (labels : List String) (x : String) :
    canonicalName (labels.map σ) (σ x) = churnedName σ labels x := by
  have hinj : ∀ y ∈ labels, σ y = σ x → y = x := fun _ _ h => hσ.injective h
  unfold churnedName
  by_cases hx : x ∈ labels
  · rw [if_pos hx, canonicalName_map_of_mem hinj hx]
  · rw [if_neg hx, canonicalName_map_of_not_mem hinj hx]

omit hσ in
theorem canonicalName_eq_churnedName_iff {labels : List String} {x : String} :
    canonicalName labels x = churnedName σ labels x ↔ x ∈ labels ∨ σ x = x := by
  unfold churnedName
  by_cases hx : x ∈ labels
  · simp [hx]
  · simp [hx, canonicalName_of_not_mem hx, eq_comm]

/-- Code, data and sections agree whatever their names; other statements have to keep theirs. -/
theorem agrees_churnedName_iff {s : Statement} (h : s.WellFormed) (labels : List String) :
    (s.mapNames (canonicalName labels)).agrees (s.mapNames (churnedName σ labels)) = true ↔
      (s.kind.isSymbolic = false → s.kind.isSection = false →
        ∀ x ∈ s.names, x ∈ labels ∨ σ x = x) := by
  cases hsec : s.kind.isSection with
  | true =>
    rw [Statement.mapNames_of_isSection hsec, Statement.mapNames_of_isSection hsec]
    simp [Statement.agrees_self]
  | false =>
    rw [Statement.agrees_mapNames_iff hsec]
    cases hsym : s.kind.isSymbolic with
    | true =>
      have hlabel : s.label? = none := by
        refine h.label?_eq_none fun hk => ?_
        rw [hk] at hsym
        cases hsym
      refine iff_of_true ⟨by simp [hlabel], fun t _ => ?_⟩ (fun hfalse => by cases hfalse)
      rw [canonicalName_eq_churnedName_iff]
      by_cases hx : t.text ∈ labels
      · exact .inl (.inl hx)
      · cases hgen : Name.isGenerated t.text with
        | false => exact .inl (.inr (hσ.named _ hgen))
        | true =>
          rw [canonicalName_of_not_mem hx, churnedName, if_neg hx]
          exact .inr ⟨rfl, hgen, hσ.generated _ hgen⟩
    | false =>
      simp only [canonicalName_eq_churnedName_iff, Bool.false_eq_true, false_and, or_false,
        forall_const, Statement.names, List.mem_append, Option.mem_toList, List.mem_map]
      constructor
      · rintro ⟨hlabel, hids⟩ x (hx | ⟨t, ht, rfl⟩)
        · exact hlabel x hx
        · exact hids t ht
      · intro hall
        exact ⟨fun x hx => hall x (.inl hx), fun t ht => hall _ (.inr ⟨t, ht, rfl⟩)⟩

include hwf hb

theorem localLabels_renamed : b.localLabels = a.localLabels.map σ := by
  have hlabels : b.labels = a.labels.map σ := by
    rw [labels, labels, hb]
    exact Statement.filterMap_label?_map hwf σ
  exact localLabels_eq_map hlabels (fun _ _ _ _ h => hσ.injective h) fun x _ => hσ.localLabel x

theorem statements_normalize_renamed :
    b.normalize.statements =
      a.statements.map (Statement.mapNames (churnedName σ a.localLabels)) := by
  have hwf' : ∀ s ∈ b.statements, s.WellFormed := by
    rw [hb]
    exact Statement.wellFormed_of_mem_map hwf σ
  have hname : canonicalName b.localLabels ∘ σ = churnedName σ a.localLabels := by
    funext x
    rw [localLabels_renamed hσ hwf hb]
    exact canonicalName_map hσ a.localLabels x
  rw [statements_normalize hwf', hb, List.map_map, ← hname]
  exact List.map_congr_left fun s hs => (hwf s hs).mapNames_mapNames _ _

/-- The normalized bodies agree unless a renamed name stands where it counts. -/
theorem agree_renamed_iff : Comparison.Agree a.normalize b.normalize ↔ ¬ a.Exposes σ := by
  rw [Comparison.Agree, statements_normalize hwf, statements_normalize_renamed hσ hwf hb,
    List.forall₂_map_left_iff, List.forall₂_map_right_iff, List.forall₂_same]
  constructor
  · rintro hall ⟨s, hs, hsym, hsec, x, hx, hlocal, hne⟩
    rcases (agrees_churnedName_iff hσ (hwf s hs) _).mp (hall s hs) hsym hsec x hx with h | h
    · exact hlocal h
    · exact hne h
  · intro hexp s hs
    rw [agrees_churnedName_iff hσ (hwf s hs)]
    intro hsym hsec x hx
    by_contra hcon
    rw [not_or] at hcon
    exact hexp ⟨s, hs, hsym, hsec, x, hx, hcon⟩

end

end Body

namespace SymbolMap

theorem mem_entries_of_mem_insert {body : String} {map : SymbolMap} {e first : String × String}
    (h : e ∈ (insert body map first).entries) : e ∈ map.entries ∨ e = first := by
  unfold insert at h
  split at h
  · rcases List.mem_append.mp h with h | h
    · exact .inl h
    · exact .inr (List.mem_singleton.mp h)
  · split at h
    · exact .inl h
    · exact .inl h

theorem mem_entries_of_mem_foldl {body : String} {es : List (String × String)} {map : SymbolMap}
    {e : String × String} (h : e ∈ (es.foldl (insert body) map).entries) :
    e ∈ map.entries ∨ e ∈ es := by
  induction es generalizing map with
  | nil => exact .inl h
  | cons first rest ih =>
    rcases ih h with h | h
    · rcases mem_entries_of_mem_insert h with h | rfl
      · exact .inl h
      · exact .inr List.mem_cons_self
    · exact .inr (List.mem_cons_of_mem _ h)

/-- Every entry is a correspondence of the two bodies. -/
theorem mem_correspondingNames_of_mem_entries {old new : Body} {e : String × String}
    (h : e ∈ (ofBodies old new).entries) : e ∈ correspondingNames old new := by
  rcases mem_entries_of_mem_foldl h with h | h
  · cases h
  · exact h

theorem exists_of_mem_statementNames {s : Statement} {σ τ : String → String}
    {e : String × String} (h : e ∈ statementNames (s.mapNames σ) (s.mapNames τ)) :
    ∃ x ∈ s.names, e = (τ x, σ x) := by
  unfold statementNames at h
  split at h
  · next hsym =>
    rw [Statement.kind_mapNames] at hsym
    have hsec : s.kind.isSection = false := by
      revert hsym
      cases s.kind <;> simp [Statement.Kind.isSymbolic, Statement.Kind.isData,
        Statement.Kind.isSection]
    rw [Statement.operands_mapNames σ hsec, Statement.operands_mapNames τ hsec, List.zip_map',
      List.flatMap_map] at h
    obtain ⟨operand, ho, he⟩ := List.mem_flatMap.mp h
    have he : e ∈ operandNames (operand.map (Token.mapName σ)) (operand.map (Token.mapName τ)) := he
    rw [operandNames, List.zip_map', List.filterMap_map] at he
    obtain ⟨t, ht, hte⟩ := List.mem_filterMap.mp he
    simp only [Function.comp_apply, Token.isIdentifier_mapName, Bool.and_self] at hte
    split at hte
    · next hid =>
      obtain rfl := Option.some.inj hte
      rw [Token.text_mapName_of_isIdentifier hid, Token.text_mapName_of_isIdentifier hid]
      have hmem : t ∈ s.identifiers := Statement.mem_identifiers.mpr ⟨⟨operand, ho, ht⟩, hid⟩
      exact ⟨t.text, List.mem_append_right _ (List.mem_map_of_mem hmem), rfl⟩
    · cases hte
  · cases h

end SymbolMap

namespace Comparison

/-- The body of the old symbol exposes a renamed name. -/
def Exposed (σ : String → String) (old : Listing) (p : Pairing) : Prop :=
  ∃ b ∈ old.bodyOfKind? p.kind true p.old, b.Exposes σ

instance (σ : String → String) (old : Listing) (p : Pairing) : Decidable (Exposed σ old p) :=
  inferInstanceAs (Decidable (∃ b ∈ old.bodyOfKind? p.kind true p.old, b.Exposes σ))

/-- The pairing of a symbol of the old file with its image. -/
structure IsImage (σ : String → String) (old : Listing) (p : Pairing) : Prop where
  new_eq : p.new = σ p.old
  kind_eq : old.kindOf p.old = p.kind
  kind_ne : p.kind ≠ .unknown

section
variable {σ : String → String} (hσ : Name.IsChurn σ) {old : Listing} (hold : old.Loaded)
  {file : String} {p q : Pairing}
include hσ hold

theorem IsImage.exists_bodies (hp : IsImage σ old p) :
    ∃ a b : Body, bodies? old (old.withNames file σ) p = some (a.normalize, b.normalize) ∧
      old.bodyOfKind? p.kind true p.old = some a ∧ (∀ s ∈ a.statements, s.WellFormed) ∧
      b.statements = a.statements.map (Statement.mapNames σ) := by
  obtain ⟨a, ha⟩ := Listing.exists_bodyOfKind?_of_kindOf hp.kind_ne hp.kind_eq true
  have hmap := Listing.map_statements_bodyOfKind?_renamed hσ hold file p.kind true p.old
  rw [ha, ← hp.new_eq, Option.map_some, Option.map_some] at hmap
  obtain ⟨b, hb, hst⟩ := Option.map_eq_some_iff.mp hmap
  refine ⟨a, b, ?_, ha, fun s h => hold.wellFormed s (Listing.mem_of_bodyOfKind? ha h), hst⟩
  rw [bodies?, ha, hb]

theorem IsImage.flatEqual_iff (hp : IsImage σ old p) :
    FlatEqual old (old.withNames file σ) p ↔ ¬ Exposed σ old p := by
  obtain ⟨a, b, hbodies, ha, hwf, hst⟩ := @IsImage.exists_bodies σ hσ old hold file p hp
  have hagree := Body.agree_renamed_iff hσ hwf hst
  unfold FlatEqual Exposed
  rw [hbodies, ha]
  simp [hagree]

theorem IsImage.of_dependsOn (hp : IsImage σ old p)
    (h : DependsOn old (old.withNames file σ) p q) : IsImage σ old q := by
  obtain ⟨a, b, hbodies, -, hwf, hst⟩ := @IsImage.exists_bodies σ hσ old hold file p hp
  obtain ⟨a', b', hbodies', -, hmem, hgen, href⟩ := h
  rw [hbodies] at hbodies'
  cases hbodies'
  have hnames := SymbolMap.mem_correspondingNames_of_mem_entries hmem
  rw [SymbolMap.correspondingNames, Body.statements_normalize hwf,
    Body.statements_normalize_renamed hσ hwf hst, List.zip_map', List.flatMap_map] at hnames
  obtain ⟨s, -, he⟩ := List.mem_flatMap.mp hnames
  obtain ⟨x, -, hx⟩ := SymbolMap.exists_of_mem_statementNames he
  obtain ⟨hnew, hxold⟩ := Prod.mk.inj hx
  have hnot : x ∉ a.localLabels := by
    intro hlocal
    obtain ⟨n, -, hn⟩ := Body.exists_canonicalName_eq hlocal
    rw [hnew, Body.churnedName, if_pos hlocal, hn, Name.isGenerated_canonical] at hgen
    cases hgen
  rw [Body.churnedName, if_neg hnot] at hnew
  rw [Body.canonicalName_of_not_mem hnot] at hxold
  refine ⟨by rw [hnew, hxold], ?_, ?_⟩
  · rcases href with ⟨hk, hf, -⟩ | ⟨hk, ho, -⟩
    · rw [hk]
      exact of_decide_eq_true hf
    · rw [hk]
      exact of_decide_eq_true ho
  · rcases href with ⟨hk, -⟩ | ⟨hk, -⟩ <;> simp [hk]

theorem IsImage.of_reaches (hp : IsImage σ old p)
    (h : Reaches old (old.withNames file σ) p q) : IsImage σ old q := by
  induction h with
  | refl => exact hp
  | tail _ hqr ih => exact ih.of_dependsOn hσ hold hqr

end

end Comparison

namespace Change
open Comparison

section
variable {σ : String → String} (hσ : Name.IsChurn σ) {old : Listing} (hold : old.Loaded)
  (file : String)
include hσ hold

theorem topLevelKind?_withNames (name : String) :
    topLevelKind? (old.withNames file σ) name = topLevelKind? old name := by
  unfold topLevelKind?
  cases hgen : Name.isGenerated name with
  | true => rfl
  | false =>
    have hkind := Listing.kindOf_renamed hσ hold file name
    rw [hσ.named name hgen] at hkind
    rw [hkind]

theorem common_withNames_iff {name : String} {kind : Symbol.Kind} :
    Common old (old.withNames file σ) name kind ↔ topLevelKind? old name = some kind := by
  rw [Common, topLevelKind?_withNames hσ hold file, and_self]

omit hold in
theorem isImage_root {name : String} {kind : Symbol.Kind} (h : topLevelKind? old name = some kind) :
    IsImage σ old ⟨kind, name, name⟩ := by
  obtain ⟨hgen, hne, hkind⟩ := topLevelKind?_eq_some_iff.mp h
  exact ⟨(hσ.named name hgen).symm, hkind, hne⟩

theorem exists_topLevelKind?_of_mem {c : Change}
    (hc : c ∈ (ofListings old (old.withNames file σ) {}).1) :
    ∃ kind, topLevelKind? old c.name = some kind := by
  rcases mem_ofListings_iff.mp hc with hc | hc
  · obtain ⟨before, name, kind, after, hsplit, rfl⟩ := mem_ofNews_iff.mp hc
    have hmem : (name, kind) ∈ topLevel (old.withNames file σ) := by
      rw [hsplit]
      simp
    rw [mem_topLevel, topLevelKind?_withNames hσ hold file] at hmem
    exact ⟨kind, by rw [name_ofNew, hmem]⟩
  · obtain ⟨⟨name, kind⟩, hmem, hgone⟩ := List.mem_filterMap.mp hc
    rw [mem_topLevel] at hmem
    simp [topLevelKind?_withNames hσ hold file, hmem] at hgone

theorem onePartner_withNames : OnePartner fun q => ∃ m k,
    Common old (old.withNames file σ) m k ∧ Reaches old (old.withNames file σ) ⟨k, m, m⟩ q := by
  rintro q r ⟨m, k, hmk, hq⟩ ⟨m', k', hmk', hr⟩ hnew
  have hq' := (isImage_root hσ ((common_withNames_iff hσ hold file).mp hmk)).of_reaches hσ hold hq
  have hr' := (isImage_root hσ ((common_withNames_iff hσ hold file).mp hmk')).of_reaches hσ hold hr
  have hname : q.old = r.old := by
    rw [hq'.new_eq, hr'.new_eq] at hnew
    exact hσ.injective hnew
  have hkind : q.kind = r.kind := by rw [← hq'.kind_eq, ← hr'.kind_eq, hname]
  obtain ⟨kind, o, n⟩ := q
  obtain ⟨kind', o', n'⟩ := r
  cases hname
  cases hkind
  cases hnew
  rfl

end

/-- If only generated names differ between two files, a symbol is unchanged unless one of the
bodies that it reaches exposes a changed name; and all symbols are reported as unchanged only if
none of these bodies does. -/
theorem status_eq_unchanged_of_churn {σ : String → String} (hσ : Name.IsChurn σ)
    {file source other : String} {old new : Listing} (hold : old = .load file source)
    (hnew : new = old.withNames other σ) :
    (∀ name, (∃ c ∈ (ofListings old new {}).1, c.name = name) ↔
      ∃ kind, topLevelKind? old name = some kind) ∧
    (∀ c ∈ (ofListings old new {}).1, ∀ kind, topLevelKind? old c.name = some kind →
      (∀ q, Reaches old new ⟨kind, c.name, c.name⟩ q → ¬ Exposed σ old q) →
        c.status = .unchanged) ∧
    ((∀ c ∈ (ofListings old new {}).1, c.status = .unchanged) ↔
      ∀ name kind, topLevelKind? old name = some kind →
        ∀ q, Reaches old new ⟨kind, name, name⟩ q → ¬ Exposed σ old q) := by
  have hloaded : old.Loaded := hold ▸ Listing.loaded_load file source
  subst hnew
  have hcommon : ∀ name kind, Common old (old.withNames other σ) name kind ↔
      topLevelKind? old name = some kind := fun _ _ => common_withNames_iff hσ hloaded other
  have hflat : ∀ name kind, topLevelKind? old name = some kind → ∀ q,
      Reaches old (old.withNames other σ) ⟨kind, name, name⟩ q →
        (FlatEqual old (old.withNames other σ) q ↔ ¬ Exposed σ old q) := by
    intro name kind h q hq
    have himage := (isImage_root hσ h).of_reaches hσ hloaded hq
    exact himage.flatEqual_iff hσ hloaded
  have hone := onePartner_withNames hσ hloaded other
  refine ⟨fun name => ⟨?_, ?_⟩, ?_, ?_⟩
  · rintro ⟨c, hc, rfl⟩
    exact exists_topLevelKind?_of_mem hσ hloaded other hc
  · rintro ⟨kind, hkind⟩
    exact exists_mem_ofListings_of_common ((hcommon name kind).mpr hkind)
  · intro c hc kind hkind hexp
    have h := (hcommon c.name kind).mpr hkind
    have hone' : OnePartner fun q => Reaches old (old.withNames other σ) ⟨kind, c.name, c.name⟩ q ∨
        ReachedBefore old (old.withNames other σ) c.name q := onePartner_before hone h
    rw [status_eq_unchanged_iff hc h hone']
    intro q hq
    exact (hflat _ _ hkind q hq.reaches).mpr (hexp q hq.reaches)
  · have hall := forall_status_eq_unchanged_iff hone
    simp only [hcommon] at hall
    constructor
    · intro hun name kind hkind q hq
      rw [← hflat name kind hkind q hq]
      exact hall.mp (fun c hc _ _ => hun c hc) name kind hkind q hq
    · intro hexp c hc
      obtain ⟨kind, hkind⟩ := exists_topLevelKind?_of_mem hσ hloaded other hc
      refine hall.mpr (fun name kind hk q hq => ?_) c hc kind hkind
      exact (hflat name kind hk q hq).mpr (hexp name kind hk q hq)

/-- A function that jumps to a local label and calls a generated symbol. -/
def churnOld : Listing := .load "a.s" "g.0:.byte 1;.type f,@function;f:jmp .L2;.L2:call g.0"

def renumber : String → String := Equiv.swap "g.0" "g.7" ∘ Equiv.swap ".L2" ".L5"

theorem isChurn_renumber : Name.IsChurn renumber :=
  (Name.IsChurn.swap (by decide) (by decide) (by decide) (by decide +kernel)).comp
    (.swap (by decide) (by decide) (by decide) (by decide +kernel))

def churnPairings : List Pairing := [⟨.function, "f", "f"⟩, ⟨.object, "g.0", "g.7"⟩]

theorem status_eq_unchanged_renumber :
    Name.IsChurn renumber ∧
      (∃ c ∈ (ofListings churnOld (churnOld.withNames "b.s" renumber) {}).1, c.name = "f") ∧
      ∀ c ∈ (ofListings churnOld (churnOld.withNames "b.s" renumber) {}).1,
        c.status = .unchanged := by
  have hrun : topLevel churnOld = [("f", .function)] ∧
      (∀ p ∈ churnPairings, ∀ q ∈ dependencies churnOld (churnOld.withNames "b.s" renumber) p,
        q ∈ churnPairings) ∧
      ∀ q ∈ churnPairings, ¬ Exposed renumber churnOld q := by decide +kernel
  obtain ⟨htop, hclosed, hexp⟩ := hrun
  have hold : churnOld =
      .load "a.s" "g.0:.byte 1;.type f,@function;f:jmp .L2;.L2:call g.0" := rfl
  obtain ⟨hnames, -, hall⟩ := status_eq_unchanged_of_churn isChurn_renumber hold rfl
  refine ⟨isChurn_renumber, ?_, ?_⟩
  · exact (hnames "f").mpr ⟨.function, mem_topLevel.mp (by rw [htop]; decide)⟩
  · refine hall.mpr fun name kind hkind q hq => hexp q (hq.mem_of_closed ?_ hclosed)
    have hmem := mem_topLevel.mpr hkind
    rw [htop] at hmem
    cases List.mem_singleton.mp hmem
    decide

/-- A function that names its exception table. -/
def tableOld : Listing := .load "a.s" ".type f,@function;f:.cfi_lsda 3,.LLSDA0"

def renumberTable : String → String := Equiv.swap ".LLSDA0" ".LLSDA1"

/-- The renumbered table is reported as a change of the function. -/
theorem status_eq_changed_renumberTable :
    Name.IsChurn renumberTable ∧ renumberTable "." = "." ∧
      ∃ c ∈ (ofListings tableOld (tableOld.withNames "b.s" renumberTable) {}).1,
        c.name = "f" ∧ c.status = .changed := by
  have hchurn : Name.IsChurn renumberTable :=
    Name.IsChurn.swap (by decide) (by decide) (by decide) (by decide +kernel)
  have hrun : topLevelKind? tableOld "f" = some .function ∧
      Exposed renumberTable tableOld ⟨.function, "f", "f"⟩ := by decide +kernel
  obtain ⟨hkind, hexp⟩ := hrun
  have hloaded : tableOld.Loaded := Listing.loaded_load _ _
  have hcommon := (common_withNames_iff hchurn hloaded "b.s").mpr hkind
  obtain ⟨c, hc, hname⟩ := exists_mem_ofListings_of_common hcommon
  rw [← hname] at hcommon
  obtain ⟨_, _, d, -, -, hstatus, hflat, -⟩ := exists_before_of_mem hc hcommon
  rw [hname, (isImage_root hchurn hkind).flatEqual_iff hchurn hloaded] at hflat
  refine ⟨hchurn, by decide, c, hc, hname, ?_⟩
  rw [hstatus, Status.ofChain_eq_changed_iff, ← Bool.not_eq_true, hflat]
  exact not_not_intro hexp

end Change

end AsmCompare
