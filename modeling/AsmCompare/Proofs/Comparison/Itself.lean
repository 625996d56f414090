import AsmCompare.Proofs.Comparison.Preorder
import AsmCompare.Proofs.Comparison.Recorded
import AsmCompare.Proofs.Comparison.Swap

/-! # A file compared with itself

A body agrees with itself, and each of its names corresponds to itself only. So a comparison that
starts at a symbol and its own copy goes on to such pairings, whatever the references look like, and
every verdict that it enters into the cache or reads from it is positive.
-/
namespace AsmCompare

namespace SymbolMap
variable {a b : Body} {newName oldName : String}

theorem eq_of_mem_zip_self {α : Type} {l : List α} {x y : α} (h : (x, y) ∈ l.zip l) : x = y :=
  List.forall₂_zip (List.forall₂_refl l) h

theorem eq_of_mem_correspondingNames_self (h : (newName, oldName) ∈ correspondingNames a a) :
    newName = oldName := by
  obtain ⟨s, t, hst, -, o, p, hop, u, v, huv, -, -, rfl, rfl⟩ := mem_correspondingNames_iff.mp h
  obtain rfl := eq_of_mem_zip_self hst
  obtain rfl := eq_of_mem_zip_self hop
  rw [eq_of_mem_zip_self huv]

/-- Only a name that corresponds to two others is reported. -/
theorem messages_foldl_insert {body : String} {all es : List (String × String)} {map : SymbolMap}
    (hone : ∀ e ∈ all, ∀ f ∈ all, e.1 = f.1 → e.2 = f.2) (hmap : ∀ e ∈ map.entries, e ∈ all)
    (hes : ∀ e ∈ es, e ∈ all) : (es.foldl (insert body) map).messages = map.messages := by
  induction es generalizing map with
  | nil => rfl
  | cons e rest ih =>
    obtain ⟨he, hrest⟩ := List.forall_mem_cons.mp hes
    have hentries : ∀ f ∈ (insert body map e).entries, f ∈ all := by
      intro f hf
      rcases mem_entries_of_mem_insert hf with hf | rfl
      · exact hmap f hf
      · exact he
    have hmessages : (insert body map e).messages = map.messages := by
      unfold insert
      split
      · rfl
      · next kept hkept =>
        have hmem : (e.1, kept) ∈ map.entries := by
          obtain ⟨before, after, hsplit, -⟩ := List.lookup_eq_some_iff.mp hkept
          rw [hsplit]
          simp
        rw [if_pos (hone _ (hmap _ hmem) e he rfl)]
    rw [List.foldl_cons, ih hentries hrest, hmessages]

theorem messages_ofBodies_self (a : Body) : (ofBodies a a).messages = [] := by
  have hone : ∀ e ∈ correspondingNames a a, ∀ f ∈ correspondingNames a a, e.1 = f.1 → e.2 = f.2 := by
    intro e he f hf hef
    rw [← eq_of_mem_correspondingNames_self he, ← eq_of_mem_correspondingNames_self hf, hef]
  apply messages_foldl_insert hone
  · intro e he
    cases he
  · intro e he
    exact he

end SymbolMap

namespace Comparison
variable {l : Listing} {s s' : Comparison} {p q : Pairing}

/-- The pairing of a function or object with itself. -/
structure IsSelf (l : Listing) (p : Pairing) : Prop where
  name_eq : p.old = p.new
  kind_eq : l.kindOf p.new = p.kind
  kind_ne : p.kind ≠ .unknown

theorem IsSelf.exists_bodies? (hp : IsSelf l p) : ∃ a, bodies? l l p = some (a, a) := by
  obtain ⟨b, hb⟩ := Listing.exists_bodyOfKind?_of_kindOf hp.kind_ne hp.kind_eq true
  refine ⟨b.normalize, ?_⟩
  rw [bodies?, hp.name_eq, hb]

theorem IsSelf.flatEqual (hp : IsSelf l p) : FlatEqual l l p := by
  obtain ⟨a, ha⟩ := hp.exists_bodies?
  exact ⟨a, a, ha, agree_self a⟩

theorem IsSelf.of_dependsOn (hp : IsSelf l p) (h : DependsOn l l p q) : IsSelf l q := by
  obtain ⟨a, ha⟩ := hp.exists_bodies?
  obtain ⟨b, c, hbc, -, hmem, href⟩ := h
  rw [ha] at hbc
  cases hbc
  have hcorr := SymbolMap.mem_correspondingNames_of_mem_entries hmem
  refine ⟨(SymbolMap.eq_of_mem_correspondingNames_self hcorr).symm, href.kind_eq.symm, ?_⟩
  rcases href.2 with ⟨hk, -⟩ | ⟨hk, -⟩ <;> simp [hk]

/-- Nothing that was found so far tells of a difference or of a name in conflict. -/
structure Clean (s : Comparison) : Prop where
  verdict : ∀ (n : String) (e : Bool), s.results[n]? = some e → e = true
  maps : ∀ q ∈ s.pairs, (SymbolMap.ofBodies q.old q.new).messages = []
  warnings : Message.warnings s.messages = []

theorem clean_empty : Clean {} := by
  constructor
  · intro n e he
    rw [results_empty] at he
    cases he
  · intro q hq
    cases hq
  · rfl

theorem Clean.evaluate (hs : Clean s) (hp : IsSelf l p) : Clean (evaluate l l s p).2 := by
  cases hn : s.results[p.new]? with
  | some e =>
    rw [evaluate_cached hn]
    exact hs
  | none =>
    obtain ⟨a, ha⟩ := hp.exists_bodies?
    obtain ⟨e, he, hj⟩ := @exists_judged_evaluate l l s p hn
    have hsame := SymbolMap.messages_ofBodies_self a
    constructor
    · intro n d hd
      rw [hj n] at hd
      split at hd
      · cases hd
        exact he.mpr hp.flatEqual
      · exact hs.verdict n d hd
    · intro q hq
      rw [pairs_evaluate hn, pairOf?, ha] at hq
      rcases List.mem_append.mp hq with hq | hq
      · exact hs.maps q hq
      · obtain rfl := List.mem_singleton.mp hq
        exact hsame
    · obtain ⟨b, c, hbc, hagree⟩ := hp.flatEqual
      rw [ha] at hbc
      cases hbc
      rw [warnings_evaluate hn ha hagree, hs.warnings, hsame]
      rfl

/-- A node that compares a symbol with itself and finds no change below it. -/
def IsSameNode (node : Chain) : Prop :=
  node.pairing.old = node.pairing.new ∧ node.flatEqual = true ∧ node.deepEqual = true

/-- A visit of symbols paired with themselves finds no change at any node, and leaves no trace of
one. -/
theorem Visits.clean {ps : List Pairing} {cs : List Chain} (h : Visits l l s ps cs s')
    (hps : ∀ p ∈ ps, IsSelf l p) (hs : Clean s) :
    (∀ c ∈ cs, ∀ node ∈ c.walk, IsSameNode node) ∧ Clean s' := by
  induction h with
  | nil => exact ⟨fun c hc => (List.not_mem_nil hc).elim, hs⟩
  | @final s s' p ps cs e he hrest ih =>
    obtain ⟨hp, hps⟩ := List.forall_mem_cons.mp hps
    obtain ⟨hnodes, hs'⟩ := ih hps (hs.evaluate hp)
    refine ⟨List.forall_mem_cons.mpr ⟨?_, hnodes⟩, hs'⟩
    have htrue : e = true := by
      rcases of_evaluate_final he with ⟨hcached, -⟩ | ⟨-, -, hne, -⟩
      · exact hs.verdict _ e hcached
      · exact absurd hp.flatEqual hne
    intro node hnode
    rcases Chain.mem_walk_iff.mp hnode with rfl | ⟨child, hchild, -⟩
    · exact ⟨hp.name_eq, htrue, htrue⟩
    · cases hchild
  | @pending s mid s' p refs ps ds cs he hrefs hrest ihrefs ihrest =>
    obtain ⟨hp, hps⟩ := List.forall_mem_cons.mp hps
    obtain ⟨-, -, -, hmem⟩ := of_evaluate_pending he
    have hself : ∀ q ∈ refs, IsSelf l q := fun q hq => hp.of_dependsOn ((hmem q).mp hq)
    obtain ⟨hbelow, hmid⟩ := ihrefs hself (hs.evaluate hp)
    obtain ⟨hnodes, hs'⟩ := ihrest hps hmid
    refine ⟨List.forall_mem_cons.mpr ⟨?_, hnodes⟩, hs'⟩
    have hall : ds.all Chain.deepEqual = true := by
      refine List.all_eq_true.mpr fun d hd => ?_
      exact (hbelow d hd d (Chain.mem_walk_iff.mpr (.inl rfl))).2.2
    intro node hnode
    rcases Chain.mem_walk_iff.mp hnode with rfl | ⟨child, hchild, hnode⟩
    · exact ⟨hp.name_eq, rfl, hall⟩
    · exact hbelow child hchild node hnode

end Comparison

namespace Change
open Comparison
variable {l : Listing}

theorem isSelf_root {name : String} {kind : Symbol.Kind} (h : topLevelKind? l name = some kind) :
    IsSelf l (root (name, kind)) := by
  obtain ⟨-, hne, hkind⟩ := topLevelKind?_eq_some_iff.mp h
  exact ⟨rfl, hkind, hne⟩

/-- A line that reports no change, with no change at any node below it. -/
def IsUnchanged (c : Change) : Prop :=
  c.status = .unchanged ∧ ∃ chain, c.chain = some chain ∧ ∀ node ∈ chain.walk, IsSameNode node

theorem ofNew_self {name : String} {kind : Symbol.Kind} (h : topLevelKind? l name = some kind)
    {s : Comparison} (hs : Clean s) :
    (ofNew l l s name kind).1.kind = kind ∧ IsUnchanged (ofNew l l s name kind).1 ∧
      Clean (ofNew l l s name kind).2 := by
  have hv := visits_compare l l s (root (name, kind))
  obtain ⟨hnodes, hs'⟩ := hv.clean (fun p hp => List.mem_singleton.mp hp ▸ isSelf_root h) hs
  have hchain := hnodes _ List.mem_cons_self
  have hroot := hchain _ (Chain.mem_walk_iff.mpr (.inl rfl))
  rw [ofNew_of_topLevelKind? h]
  refine ⟨rfl, ⟨?_, _, rfl, hchain⟩, hs'⟩
  simp [Status.ofChain, hroot.2.1, hroot.2.2]

theorem ofNews_self {symbols : List (String × Symbol.Kind)}
    (h : ∀ symbol ∈ symbols, topLevelKind? l symbol.1 = some symbol.2) {s : Comparison}
    (hs : Clean s) :
    (ofNews l l s symbols).1.map (fun c => (c.name, c.kind)) = symbols ∧
      (∀ c ∈ (ofNews l l s symbols).1, IsUnchanged c) ∧ Clean (ofNews l l s symbols).2 := by
  induction symbols generalizing s with
  | nil => exact ⟨rfl, fun c hc => (List.not_mem_nil hc).elim, hs⟩
  | cons symbol rest ih =>
    obtain ⟨name, kind⟩ := symbol
    obtain ⟨hfirst, hrest⟩ := List.forall_mem_cons.mp h
    obtain ⟨hkind, hsame, hs'⟩ := ofNew_self hfirst hs
    obtain ⟨hnames, hall, hend⟩ := ih hrest hs'
    refine ⟨?_, List.forall_mem_cons.mpr ⟨hsame, hall⟩, hend⟩
    simp only [ofNews, List.map_cons, name_ofNew, hkind, hnames]

theorem removals_self (l : Listing) : removals l l = [] := by
  refine List.filterMap_eq_nil_iff.mpr ?_
  rintro ⟨name, kind⟩ hsymbol
  simp [mem_topLevel.mp hsymbol]

/-- A file never differs from itself: each of its named functions and objects has one line, which
reports no change; every node compares a symbol with itself and finds both its body and all below it
the same; no map of names meets a conflict; and all verdicts at the end are positive. -/
theorem ofListings_self (l : Listing) :
    ((ofListings l l {}).1.map fun c => (c.name, c.kind)) = topLevel l ∧
      ((ofListings l l {}).1.map Change.name).Nodup ∧
      (∀ name, (∃ c ∈ (ofListings l l {}).1, c.name = name) ↔
        Name.isGenerated name = false ∧ l.kindOf name ≠ .unknown) ∧
      (∀ c ∈ (ofListings l l {}).1, c.status = .unchanged ∧ ∃ chain, c.chain = some chain ∧
        ∀ node ∈ chain.walk, node.pairing.old = node.pairing.new ∧ node.flatEqual = true ∧
          node.deepEqual = true) ∧
      (∀ q ∈ (ofListings l l {}).2.pairs, (SymbolMap.ofBodies q.old q.new).messages = []) ∧
      Message.warnings (ofListings l l {}).2.messages = [] ∧
      ∀ (n : String) (e : Bool), (ofListings l l {}).2.results[n]? = some e → e = true := by
  have hkinds : ∀ symbol ∈ topLevel l, topLevelKind? l symbol.1 = some symbol.2 :=
    fun symbol hs => mem_topLevel.mp hs
  obtain ⟨hsymbols, hall, hend⟩ := ofNews_self hkinds clean_empty
  have hlines : (ofListings l l {}).1 = (ofNews l l {} (topLevel l)).1 := by
    simp [ofListings, removals_self]
  have hnames : (ofNews l l {} (topLevel l)).1.map Change.name = topLevelNames l :=
    map_name_ofNews {} (topLevel l)
  rw [hlines]
  refine ⟨hsymbols, ?_, fun name => ?_, hall, hend.maps, hend.warnings, hend.verdict⟩
  · rw [hnames]
    exact nodup_topLevelNames l
  · rw [← List.mem_map, hnames, mem_topLevelNames]
    simp only [topLevelKind?_eq_some_iff, exists_and_left]
    simp

end Change

end AsmCompare
