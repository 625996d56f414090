import AsmCompare.CallGraph
import Mathlib.Data.Nat.SuccPred
import Mathlib.Order.Bounds.Basic

/-! # Call graphs from roots hold what is near the roots

The search looks at every function once, at the depth at which it was found first. As it goes
through the functions in the order of their depths, that depth is the length of a shortest chain of
calls, so the limit cuts off exactly the functions that no short chain reaches.
-/
namespace AsmCompare.CallGraph

/-- A direct call of a function of the file. -/
def Calls (l : Listing) (caller callee : String) : Prop :=
  (∃ b, l.function? true caller = some b ∧ ∃ s ∈ b.statements, Body.callTarget? s = some callee) ∧
    l.hasFunction callee = true

/-- So many calls, one after the other, lead from a root to the function. -/
inductive ReachedIn (l : Listing) (roots : List String) : Nat → String → Prop where
  | root {name : String} (h : name ∈ roots) : ReachedIn l roots 0 name
  | call {n : Nat} {caller callee : String} (h : ReachedIn l roots n caller)
      (hcall : Calls l caller callee) : ReachedIn l roots (n + 1) callee

/-- The least number of calls that lead from a root to the function. -/
def IsDistance (l : Listing) (roots : List String) (name : String) (n : Nat) : Prop :=
  IsLeast {k | ReachedIn l roots k name} n

theorem within_iff {limit : Option Int} {depth : Nat} :
    within limit depth = true ↔ ∀ d ∈ limit, (depth : Int) < d := by
  cases limit <;> simp [within]

theorem within_mono {limit : Option Int} {m n : Nat} (h : within limit n = true) (hmn : m ≤ n) :
    within limit m = true := by
  rw [within_iff] at h ⊢
  intro d hd
  have := h d hd
  omega

theorem mem_callees_iff {l : Listing} {external : Bool} {name callee : String} :
    callee ∈ callees l external name ↔
      (∃ b, l.function? true name = some b ∧ ∃ s ∈ b.statements, Body.callTarget? s = some callee) ∧
        (external = true ∨ l.hasFunction callee = true) := by
  unfold callees
  cases l.function? true name with
  | none => simp
  | some b => simp [Body.calls]

theorem Calls.mem_callees {l : Listing} {name callee : String} (h : Calls l name callee)
    (external : Bool) : callee ∈ callees l external name := mem_callees_iff.mpr ⟨h.1, .inr h.2⟩

theorem calls_of_mem_callees {l : Listing} {external : Bool} {name callee : String}
    (h : callee ∈ callees l external name) (hf : l.hasFunction callee = true) :
    Calls l name callee := ⟨(mem_callees_iff.mp h).1, hf⟩

namespace Search

/-- What one function adds to the queue. -/
theorem exists_foldl_enqueue (l : Listing) (depth : Nat) (found : List String) (s : Search) :
    ∃ new : List String,
      found.foldl (enqueue l depth) s =
        { s with queue := s.queue ++ new.map (·, depth), seen := new.reverse ++ s.seen } ∧
      (∀ name ∈ new, name ∈ found ∧ l.hasFunction name = true ∧ name ∉ s.seen) ∧
      ∀ name ∈ found, l.hasFunction name = true → name ∈ new ∨ name ∈ s.seen := by
  induction found generalizing s with
  | nil => exact ⟨[], by simp, nofun, nofun⟩
  | cons callee found ih =>
    rw [List.foldl_cons]
    by_cases h : (!s.seen.contains callee && l.hasFunction callee) = true
    · have hnew : enqueue l depth s callee =
          { s with queue := s.queue ++ [(callee, depth)], seen := callee :: s.seen } := if_pos h
      rw [Bool.and_eq_true, Bool.not_eq_true', List.contains_eq_mem, decide_eq_false_iff_not] at h
      obtain ⟨new, heq, hsound, hcomplete⟩ := ih (enqueue l depth s callee)
      rw [hnew] at heq hsound hcomplete
      refine ⟨callee :: new, ?_, ?_, ?_⟩
      · rw [hnew, heq]
        simp
      · intro name hname
        rcases List.mem_cons.mp hname with rfl | hname
        · exact ⟨List.mem_cons_self, h.2, h.1⟩
        · obtain ⟨hfound, hf, hseen⟩ := hsound name hname
          exact ⟨List.mem_cons_of_mem _ hfound, hf, fun hs => hseen (List.mem_cons_of_mem _ hs)⟩
      · intro name hname hf
        rcases List.mem_cons.mp hname with rfl | hname
        · exact .inl List.mem_cons_self
        · rcases hcomplete name hname hf with hn | hs
          · exact .inl (List.mem_cons_of_mem _ hn)
          · rcases List.mem_cons.mp hs with rfl | hs
            · exact .inl List.mem_cons_self
            · exact .inr hs
    · have hsame : enqueue l depth s callee = s := if_neg h
      rw [Bool.and_eq_true, Bool.not_eq_true', List.contains_eq_mem, decide_eq_false_iff_not] at h
      obtain ⟨new, heq, hsound, hcomplete⟩ := ih (enqueue l depth s callee)
      rw [hsame] at heq hsound hcomplete
      refine ⟨new, ?_, ?_, ?_⟩
      · rw [hsame, heq]
      · intro name hname
        obtain ⟨hfound, hrest⟩ := hsound name hname
        exact ⟨List.mem_cons_of_mem _ hfound, hrest⟩
      · intro name hname hf
        rcases List.mem_cons.mp hname with rfl | hname
        · by_contra hnot
          exact h ⟨fun hs => hnot (.inr hs), hf⟩
        · exact hcomplete name hname hf

end Search

/-- A search in progress. Functions wait in the order of their depths, which differ by one at most;
what waits or is done was reached, and what was seen and is in reach waits or is done. -/
structure InProgress (l : Listing) (roots : List String) (limit : Option Int) (external : Bool)
    (s : Search) : Prop where
  roots_seen : ∀ name ∈ roots, name ∈ s.seen
  sorted : s.queue.Pairwise fun p q => p.2 ≤ q.2
  close : ∀ p ∈ s.queue, ∀ q ∈ s.queue, q.2 ≤ p.2 + 1
  reached : ∀ p ∈ s.queue, ReachedIn l roots p.2 p.1
  waiting : ∀ name ∈ s.seen, ∀ n, ReachedIn l roots n name → within limit n = true →
    name ∈ s.graph ∨ ∃ p ∈ s.queue, p.1 = name ∧ p.2 ≤ n
  done : ∀ name ∈ s.graph, (∃ n, ReachedIn l roots n name ∧ within limit n = true) ∧
    ∀ callee, Calls l name callee → callee ∈ s.seen
  listed : ∀ name found, s.graph[name]? = some found → found = callees l external name

namespace InProgress
variable {l : Listing} {roots : List String} {limit : Option Int} {external : Bool} {s : Search}

theorem initial (l : Listing) (roots : List String) (limit : Option Int) (external : Bool) :
    InProgress l roots limit external { queue := roots.map (·, 0), seen := roots } where
  roots_seen _ h := h
  sorted := by
    rw [List.pairwise_map]
    exact List.pairwise_of_forall fun _ _ => Nat.le_refl 0
  close := by
    intro p hp q hq
    obtain ⟨_, -, rfl⟩ := List.mem_map.mp hp
    obtain ⟨_, -, rfl⟩ := List.mem_map.mp hq
    exact Nat.zero_le 1
  reached := by
    intro p hp
    obtain ⟨name, hname, rfl⟩ := List.mem_map.mp hp
    exact .root hname
  waiting name h n _ _ := .inr ⟨(name, 0), List.mem_map.mpr ⟨name, h, rfl⟩, rfl, Nat.zero_le n⟩
  done name h := by simp at h
  listed name found h := by simp at h

/-- A function that is in reach and not seen has a function in front of it that waits. -/
theorem exists_waiting (h : InProgress l roots limit external s) {n : Nat} {name : String}
    (hreach : ReachedIn l roots n name) (hwithin : within limit n = true) (hseen : name ∉ s.seen) :
    ∃ p ∈ s.queue, p.2 < n := by
  induction hreach with
  | root hroot => exact absurd (h.roots_seen _ hroot) hseen
  | @call n caller callee hcaller hcall ih =>
    have hbefore := within_mono hwithin (Nat.le_succ n)
    by_cases hknown : caller ∈ s.seen
    · rcases h.waiting caller hknown n hcaller hbefore with hdone | ⟨p, hp, -, hle⟩
      · exact absurd ((h.done caller hdone).2 callee hcall) hseen
      · exact ⟨p, hp, Nat.lt_succ_of_le hle⟩
    · obtain ⟨p, hp, hlt⟩ := ih hbefore hknown
      exact ⟨p, hp, Nat.lt_succ_of_lt hlt⟩

section Step
variable {name : String} {depth : Nat} {rest : List (String × Nat)}
  (h : InProgress l roots limit external { s with queue := (name, depth) :: rest })
include h

/-- A function beyond the limit is dropped. -/
theorem skip (hlimit : within limit depth = false) :
    InProgress l roots limit external { s with queue := rest } where
  roots_seen := h.roots_seen
  sorted := h.sorted.of_cons
  close p hp q hq := h.close p (List.mem_cons_of_mem _ hp) q (List.mem_cons_of_mem _ hq)
  reached p hp := h.reached p (List.mem_cons_of_mem _ hp)
  waiting := by
    intro other hother n hreach hwithin
    rcases h.waiting other hother n hreach hwithin with hdone | ⟨p, hp, hname, hle⟩
    · exact .inl hdone
    · rcases List.mem_cons.mp hp with rfl | hp
      · have hnear := within_mono hwithin hle
        rw [hlimit] at hnear
        cases hnear
      · exact .inr ⟨p, hp, hname, hle⟩
  done := h.done
  listed := h.listed

theorem le_of_mem_rest {p : String × Nat} (hp : p ∈ rest) : depth ≤ p.2 ∧ p.2 ≤ depth + 1 :=
  ⟨List.rel_of_pairwise_cons h.sorted hp,
    h.close _ List.mem_cons_self _ (List.mem_cons_of_mem _ hp)⟩

/-- A function within the limit is done; the ones it finds are one call farther than it. -/
theorem visit (hlimit : within limit depth = true) :
    InProgress l roots limit external
      (Search.visit l external { s with queue := rest } name depth) := by
  have hhead := h.reached (name, depth) List.mem_cons_self
  obtain ⟨new, heq, hsound, hcomplete⟩ := Search.exists_foldl_enqueue l (depth + 1)
    (callees l external name) { s with
      queue := rest
      graph := s.graph.insert name (callees l external name)
      messages := s.messages ++ [⟨.debug, name ++ ": " ++ (callees l external name).length.repr ++
        " callees at depth " ++ depth.repr⟩] }
  have hdepth : ∀ p ∈ rest ++ new.map (·, depth + 1), depth ≤ p.2 ∧ p.2 ≤ depth + 1 := by
    intro p hp
    rcases List.mem_append.mp hp with hp | hp
    · exact h.le_of_mem_rest hp
    · obtain ⟨_, -, rfl⟩ := List.mem_map.mp hp
      exact ⟨Nat.le_succ depth, Nat.le_refl _⟩
  have hmem : ∀ other, other ∈ s.graph.insert name (callees l external name) ↔
      name = other ∨ other ∈ s.graph := by
    intro other
    simp [Std.TreeMap.mem_insert]
  rw [Search.visit, heq]
  constructor
  · intro root hroot
    exact List.mem_append_right _ (h.roots_seen root hroot)
  · refine List.pairwise_append.mpr ⟨h.sorted.of_cons, ?_, ?_⟩
    · rw [List.pairwise_map]
      exact List.pairwise_of_forall fun _ _ => Nat.le_refl _
    · intro p hp q hq
      obtain ⟨_, -, rfl⟩ := List.mem_map.mp hq
      exact (h.le_of_mem_rest hp).2
  · intro p hp q hq
    exact (hdepth q hq).2.trans (Nat.succ_le_succ (hdepth p hp).1)
  · intro p hp
    rcases List.mem_append.mp hp with hp | hp
    · exact h.reached p (List.mem_cons_of_mem _ hp)
    · obtain ⟨other, hother, rfl⟩ := List.mem_map.mp hp
      obtain ⟨hfound, hf, -⟩ := hsound other hother
      exact .call hhead (calls_of_mem_callees hfound hf)
  · intro other hother n hreach hwithin
    rcases List.mem_append.mp hother with hother | hother
    · -- Everything that waits is at least as far as this function, so no shorter chain is left.
      have hother := List.mem_reverse.mp hother
      obtain ⟨p, hp, hlt⟩ := h.exists_waiting hreach hwithin (hsound other hother).2.2
      have hle : depth ≤ p.2 := by
        rcases List.mem_cons.mp hp with rfl | hp
        · exact Nat.le_refl depth
        · exact (h.le_of_mem_rest hp).1
      refine .inr ⟨(other, depth + 1), ?_, rfl, Nat.lt_of_le_of_lt hle hlt⟩
      exact List.mem_append_right _ (List.mem_map.mpr ⟨other, hother, rfl⟩)
    · rcases h.waiting other hother n hreach hwithin with hdone | ⟨p, hp, hname, hle⟩
      · exact .inl ((hmem other).mpr (.inr hdone))
      · rcases List.mem_cons.mp hp with rfl | hp
        · exact .inl ((hmem other).mpr (.inl hname))
        · exact .inr ⟨p, List.mem_append_left _ hp, hname, hle⟩
  · intro other hother
    rcases (hmem other).mp hother with rfl | hother
    · refine ⟨⟨depth, hhead, hlimit⟩, ?_⟩
      intro callee hcall
      rcases hcomplete callee (hcall.mem_callees external) hcall.2 with hnew | hseen
      · exact List.mem_append_left _ (List.mem_reverse.mpr hnew)
      · exact List.mem_append_right _ hseen
    · obtain ⟨hreach, hcalls⟩ := h.done other hother
      exact ⟨hreach, fun callee hcall => List.mem_append_right _ (hcalls callee hcall)⟩
  · intro other found hfound
    rw [Std.TreeMap.getElem?_insert] at hfound
    split at hfound
    · next heq =>
      obtain rfl := Std.compare_eq_iff_eq.mp heq
      exact (Option.some.inj hfound).symm
    · exact h.listed other found hfound

end Step

theorem explore (h : InProgress l roots limit external s) :
    InProgress l roots limit external (CallGraph.explore l limit external s) ∧
      (CallGraph.explore l limit external s).queue = [] := by
  fun_induction CallGraph.explore l limit external s with
  | case1 s hqueue => exact ⟨h, hqueue⟩
  | case2 s name depth rest hqueue hlimit ih =>
    have hstate : s = { s with queue := (name, depth) :: rest } := by rw [← hqueue]
    rw [hstate] at h
    exact ih (h.visit hlimit)
  | case3 s name depth rest hqueue hlimit ih =>
    have hstate : s = { s with queue := (name, depth) :: rest } := by rw [← hqueue]
    rw [hstate] at h
    exact ih (h.skip (Bool.eq_false_iff.mpr hlimit))

/-- When nothing waits any more, the graph has what is in reach. -/
theorem mem_graph_iff (h : InProgress l roots limit external s) (hqueue : s.queue = [])
    {name : String} :
    name ∈ s.graph ↔ ∃ n, ReachedIn l roots n name ∧ within limit n = true := by
  constructor
  · intro hname
    exact (h.done name hname).1
  · rintro ⟨n, hreach, hwithin⟩
    have hseen : name ∈ s.seen := by
      by_contra hseen
      obtain ⟨p, hp, -⟩ := h.exists_waiting hreach hwithin hseen
      rw [hqueue] at hp
      cases hp
    rcases h.waiting name hseen n hreach hwithin with hdone | ⟨p, hp, -⟩
    · exact hdone
    · rw [hqueue] at hp
      cases hp

end InProgress

section Build
variable {l : Listing} {roots : List String} {limit : Option Int}

theorem exists_isDistance_iff {name : String} :
    (∃ n, IsDistance l roots name n ∧ ∀ d ∈ limit, (n : Int) < d) ↔
      ∃ n, ReachedIn l roots n name ∧ within limit n = true := by
  simp only [← within_iff]
  constructor
  · rintro ⟨n, hn, hwithin⟩
    exact ⟨n, hn.1, hwithin⟩
  · rintro ⟨n, hn, hwithin⟩
    obtain ⟨least, hleast⟩ :=
      (OrderBot.bddBelow {k | ReachedIn l roots k name}).exists_isLeast_of_nonempty ⟨n, hn⟩
    exact ⟨least, hleast, within_mono hwithin (hleast.2 hn)⟩

variable (hroots : ∀ root ∈ roots, l.hasFunction root = true) (external : Bool)
include hroots

theorem exists_build (hlimit : ∀ d ∈ limit, 1 ≤ d) :
    ∃ graph messages, build l (some roots) limit external = .ok (graph, messages) ∧
      ∀ name found, graph[name]? = some found ↔
        found = callees l external name ∧
          ∃ n, IsDistance l roots name n ∧ ∀ d ∈ limit, (n : Int) < d := by
  have hdepth : limit.any (· < 1) = false := by
    cases limit with
    | none => rfl
    | some d => simpa using hlimit d rfl
  have hknown : unknownRoot? l roots = none := by
    rw [unknownRoot?, List.find?_eq_none]
    intro root hroot
    simp [hroots root hroot]
  obtain ⟨hdone, hqueue⟩ := (InProgress.initial l roots limit external).explore
  have hbuild : build l (some roots) limit external =
      .ok ((explore l limit external { queue := roots.map (·, 0), seen := roots }).graph,
        (explore l limit external { queue := roots.map (·, 0), seen := roots }).messages) := by
    simp only [build, hdepth, hknown]
    rfl
  refine ⟨_, _, hbuild, ?_⟩
  intro name found
  rw [exists_isDistance_iff, ← hdone.mem_graph_iff hqueue, Std.TreeMap.mem_iff_isSome_getElem?]
  constructor
  · intro hfound
    rw [hfound]
    exact ⟨hdone.listed name found hfound, rfl⟩
  · rintro ⟨rfl, hmem⟩
    obtain ⟨found, hfound⟩ := Option.isSome_iff_exists.mp hmem
    rw [hfound, hdone.listed name found hfound]

end Build

/-- The functions near some roots with what they call. -/
structure IsNear (l : Listing) (roots : List String) (limit : Option Int) (external : Bool)
    (graph : CallGraph) : Prop where
  rows : ∀ name found, graph[name]? = some found ↔
    found = callees l external name ∧ ∃ n, IsDistance l roots name n ∧ ∀ d ∈ limit, (n : Int) < d
  closed : limit = none → ∀ name ∈ graph, ∀ callee ∈ callees l external name,
    l.hasFunction callee = true → callee ∈ graph
  restricted : ∀ d, limit = some d → ∃ deeper messages,
    build l (some roots) (some (d + 1)) external = .ok (deeper, messages) ∧
      ∀ name ∈ graph, deeper[name]? = graph[name]?

/-- The graph from some roots has the functions that fewer calls than the limit lead to. -/
theorem exists_build_isNear {l : Listing} {roots : List String} {limit : Option Int}
    (hroots : ∀ root ∈ roots, l.hasFunction root = true) (hlimit : ∀ d ∈ limit, 1 ≤ d)
    (external : Bool) :
    ∃ graph messages, build l (some roots) limit external = .ok (graph, messages) ∧
      IsNear l roots limit external graph := by
  obtain ⟨graph, messages, hbuild, hrows⟩ := exists_build hroots external hlimit
  have hmem : ∀ name, name ∈ graph ↔ ∃ n, IsDistance l roots name n ∧ ∀ d ∈ limit, (n : Int) < d := by
    intro name
    rw [Std.TreeMap.mem_iff_isSome_getElem?, Option.isSome_iff_exists]
    simp only [hrows, exists_eq_left]
  refine ⟨graph, messages, hbuild, hrows, ?_, ?_⟩
  · rintro rfl name hname callee hcallee hf
    obtain ⟨n, hn, -⟩ := (hmem name).mp hname
    rw [hmem, exists_isDistance_iff]
    exact ⟨n + 1, .call hn.1 (calls_of_mem_callees hcallee hf), rfl⟩
  · rintro d rfl
    have hdeeper : ∀ e ∈ some (d + 1), 1 ≤ e := by
      rintro _ ⟨⟩
      have := hlimit d rfl
      omega
    obtain ⟨deeper, messages', hbuild', hrows'⟩ := exists_build hroots external hdeeper
    refine ⟨deeper, messages', hbuild', ?_⟩
    intro name hname
    obtain ⟨n, hn, hlt⟩ := (hmem name).mp hname
    have hfarther : ∀ e ∈ some (d + 1), (n : Int) < e := by
      rintro _ ⟨⟩
      have := hlt d rfl
      omega
    rw [(hrows name _).mpr ⟨rfl, n, hn, hlt⟩, (hrows' name _).mpr ⟨rfl, n, hn, hfarther⟩]

/-- Two functions that call each other, and a third one that the second one calls. -/
def mutualCalls : Listing :=
  .load "a.s" (".type f,@function;f:call g;call puts@PLT;.size f,1;.type g,@function;g:call f;" ++
    "call h;.size g,1;.type h,@function;h:ret;.size h,1")

theorem exists_build_isNear_mutualCalls :
    (∀ root ∈ ["f", "f"], mutualCalls.hasFunction root = true) ∧
      ∃ graph messages, build mutualCalls (some ["f", "f"]) (some 2) true = .ok (graph, messages) ∧
        IsNear mutualCalls ["f", "f"] (some 2) true graph := by
  have hroots : ∀ root ∈ ["f", "f"], mutualCalls.hasFunction root = true := by decide +kernel
  exact ⟨hroots, exists_build_isNear hroots (by decide) true⟩

end AsmCompare.CallGraph
