import AsmCompare.Proofs.CallGraph.Distance
import AsmCompare.Proofs.Listing.Resolution

/-! # The DOT text of a call graph determines it

Names stand between quotes and nothing in them is escaped, although a label may be any word. But only
the type directive makes a function, and it takes its name from an identifier, as a call takes its
target: so no name of a graph holds a quote, and the text can be read in one way only.
-/
namespace AsmCompare.CallGraph

/-- A caller and its callees are identifiers. -/
def RowNamed (row : String × List String) : Prop :=
  Token.Kind.identifier.accepts row.1.toList = true ∧
    ∀ callee ∈ row.2, Token.Kind.identifier.accepts callee.toList = true

/-- All names of a graph are identifiers. -/
def Named (graph : CallGraph) : Prop :=
  ∀ (caller : String) (found : List String), graph[caller]? = some found → RowNamed (caller, found)

section Names
variable {file source : String}

/-- A function has its kind from a type directive, which names an identifier. -/
theorem accepts_of_hasFunction {name : String}
    (h : (Listing.load file source).hasFunction name = true) :
    Token.Kind.identifier.accepts name.toList = true := by
  have hwf : ∀ s ∈ Statement.ofSource file source, s.WellFormed := fun s hs =>
    Statement.wellFormed_of_mem_ofSource hs
  have hkind := ((Listing.kindOf_eq_function_iff hwf file).mp (of_decide_eq_true h)).2
  obtain ⟨s, hlast, htype, -⟩ := (Listing.declaredKind_eq_function_iff hwf).mp hkind
  obtain ⟨hs, hdeclares⟩ := Listing.of_last?_eq_some hlast
  have hlabel : s.kind ≠ .label := by simp [htype]
  rcases hdeclares with hname | hname | hname
  all_goals exact Statement.accepts_of_symbol? hs hlabel hname.2

theorem accepts_of_callTarget? {s : Statement} (hs : s ∈ Statement.ofSource file source)
    {callee : String} (h : Body.callTarget? s = some callee) :
    Token.Kind.identifier.accepts callee.toList = true := by
  unfold Body.callTarget? at h
  split at h
  · obtain ⟨t, hfirst, rfl⟩ := Option.map_eq_some_iff.mp h
    obtain ⟨operand, hoperand, ht⟩ := Option.bind_eq_some_iff.mp hfirst
    obtain ⟨hhead, hkind⟩ := Option.filter_eq_some_iff.mp ht
    exact Statement.spelled_of_mem_ofSource hs (List.mem_of_mem_head? hoperand)
      (List.mem_of_mem_head? hhead) hkind
  · cases h

theorem accepts_of_mem_callees {external : Bool} {name callee : String}
    (h : callee ∈ callees (.load file source) external name) :
    Token.Kind.identifier.accepts callee.toList = true := by
  obtain ⟨⟨b, hb, s, hs, htarget⟩, -⟩ := mem_callees_iff.mp h
  exact accepts_of_callTarget? (Listing.mem_of_function? hb hs) htarget

end Names

section Rows
variable {l : Listing} {external : Bool}

theorem hasFunction_of_reachedIn {roots : List String}
    (hroots : ∀ root ∈ roots, l.hasFunction root = true) {n : Nat} {name : String}
    (h : ReachedIn l roots n name) : l.hasFunction name = true := by
  cases h with
  | root hroot => exact hroots name hroot
  | call _ hcall => exact hcall.2

theorem getElem?_foldl_insert {rows : String → List String} {names : List String}
    {graph : CallGraph} {name : String} {found : List String}
    (h : (names.foldl (fun graph name => graph.insert name (rows name)) graph)[name]? = some found) :
    name ∈ names ∧ found = rows name ∨ graph[name]? = some found := by
  induction names generalizing graph with
  | nil => exact .inr h
  | cons first names ih =>
    rcases ih h with ⟨hname, hfound⟩ | hrow
    · exact .inl ⟨List.mem_cons_of_mem first hname, hfound⟩
    · rw [Std.TreeMap.getElem?_insert] at hrow
      split at hrow
      · next heq =>
        obtain rfl := Std.compare_eq_iff_eq.mp heq
        exact .inl ⟨List.mem_cons_self, (Option.some.inj hrow).symm⟩
      · exact .inr hrow

theorem callees_external (l : Listing) (name : String) : callees l true name =
    (((l.function? true name).map Body.calls).getD []).mergeSort fun x y => x ≤ y := by
  unfold callees
  cases l.function? true name with
  | none => simp
  | some b => simp [List.filter_eq_self.mpr]

/-- Every graph has functions of the file with what they call. -/
theorem row_of_build {roots : Option (List String)} {limit : Option Int} {graph : CallGraph}
    {messages : List Message} (h : build l roots limit external = .ok (graph, messages))
    {name : String} {found : List String} (hrow : graph[name]? = some found) :
    l.hasFunction name = true ∧ found = callees l external name := by
  by_cases hlimit : limit.any (· < 1) = true
  · simp [build, hlimit] at h
  · cases roots with
    | none =>
      have hall : ofListing l external = graph := by
        simp only [build, hlimit] at h
        exact congrArg Prod.fst (Except.ok.inj h)
      rw [← hall] at hrow
      rcases getElem?_foldl_insert hrow with ⟨hname, hfound⟩ | hempty
      · exact ⟨(List.mem_filter.mp hname).2, hfound⟩
      · simp at hempty
    | some roots =>
      have hdepth : ∀ d ∈ limit, 1 ≤ d := by
        rintro d rfl
        simpa using hlimit
      have hroots : ∀ root ∈ roots, l.hasFunction root = true := by
        cases hunknown : unknownRoot? l roots with
        | some root => simp [build, hlimit, hunknown] at h
        | none => simpa [unknownRoot?] using hunknown
      obtain ⟨_, _, hbuild, hrows⟩ := exists_build hroots external hdepth
      rw [hbuild] at h
      cases h
      obtain ⟨hfound, n, hdistance, -⟩ := (hrows name found).mp hrow
      exact ⟨hasFunction_of_reachedIn hroots hdistance.1, hfound⟩

end Rows

theorem named_of_build {file source : String} {roots : Option (List String)} {limit : Option Int}
    {external : Bool} {graph : CallGraph} {messages : List Message}
    (h : build (.load file source) roots limit external = .ok (graph, messages)) : Named graph := by
  intro caller found hrow
  obtain ⟨hcaller, hfound⟩ := row_of_build h hrow
  refine ⟨accepts_of_hasFunction hcaller, ?_⟩
  intro callee (hcallee : callee ∈ found)
  rw [hfound] at hcallee
  exact accepts_of_mem_callees hcallee

section Text

/-- A text without quotes ends at the first quote that follows it. -/
theorem append_quote_inj {s t rest more : List Char} (hs : '"' ∉ s) (ht : '"' ∉ t)
    (h : s ++ '"' :: rest = t ++ '"' :: more) : s = t ∧ rest = more := by
  induction s generalizing t with
  | nil =>
    cases t with
    | nil => exact ⟨rfl, (List.cons.inj h).2⟩
    | cons d t =>
      obtain ⟨rfl, -⟩ := List.cons.inj h
      exact absurd List.mem_cons_self ht
  | cons c s ih =>
    cases t with
    | nil =>
      obtain ⟨rfl, -⟩ := List.cons.inj h
      exact absurd List.mem_cons_self hs
    | cons d t =>
      obtain ⟨rfl, htail⟩ := List.cons.inj h
      obtain ⟨rfl, hrest⟩ := ih (fun hc => hs (List.mem_cons_of_mem c hc))
        (fun hc => ht (List.mem_cons_of_mem c hc)) htail
      exact ⟨rfl, hrest⟩

theorem quote_not_mem_of_accepts {name : String}
    (h : Token.Kind.identifier.accepts name.toList = true) : '"' ∉ name.toList := by
  intro hmem
  exact absurd (Token.isNameChar_of_accepts h hmem) (by decide)

/-- What follows the first callee of a line. -/
def furtherCallees (found : List String) : List Char :=
  found.flatMap (fun callee => ',' :: ' ' :: '"' :: (callee.toList ++ ['"'])) ++
    [' ', '\x7d', ';', '\n']

/-- What follows the caller of a line. -/
def allCallees : List String → List Char
  | [] => [';', '\n']
  | first :: others =>
    ' ' :: '-' :: '>' :: ' ' :: '\x7b' :: ' ' :: '"' ::
      (first.toList ++ '"' :: furtherCallees others)

theorem toList_intercalate_quoteName (first : String) (others : List String) :
    (", ".intercalate ((first :: others).map quoteName)).toList ++ [' ', '\x7d', ';', '\n'] =
      '"' :: (first.toList ++ '"' :: furtherCallees others) := by
  rw [String.toList_intercalate]
  induction others generalizing first with
  | nil => simp [quoteName, furtherCallees]
  | cons second others ih =>
    rw [List.map_cons, List.map_cons, List.map_cons, List.map_cons, List.intercalate_cons_cons,
      ← List.map_cons, ← List.map_cons, List.append_assoc, ih second]
    simp [quoteName, furtherCallees]

theorem toList_dotLine (caller : String) (found : List String) :
    (dotLine caller found).toList =
      '\t' :: '"' :: (caller.toList ++ '"' :: allCallees found) := by
  cases found with
  | nil => simp [dotLine, quoteName, allCallees]
  | cons first others => simp [dotLine, quoteName, allCallees, ← toList_intercalate_quoteName]

variable {found other : List String} {rest more : List Char}

theorem furtherCallees_append_inj
    (hfound : ∀ callee ∈ found, Token.Kind.identifier.accepts callee.toList = true)
    (hother : ∀ callee ∈ other, Token.Kind.identifier.accepts callee.toList = true)
    (h : furtherCallees found ++ rest = furtherCallees other ++ more) :
    found = other ∧ rest = more := by
  induction found generalizing other with
  | nil =>
    cases other with
    | nil => exact ⟨rfl, List.append_cancel_left h⟩
    | cons second other => simp [furtherCallees] at h
  | cons first found ih =>
    cases other with
    | nil => simp [furtherCallees] at h
    | cons second other =>
      have hline : first.toList ++ '"' :: (furtherCallees found ++ rest) =
          second.toList ++ '"' :: (furtherCallees other ++ more) := by
        simpa [furtherCallees] using h
      obtain ⟨hname, hrest⟩ := append_quote_inj
        (quote_not_mem_of_accepts (hfound first List.mem_cons_self))
        (quote_not_mem_of_accepts (hother second List.mem_cons_self)) hline
      obtain ⟨rfl, hmore⟩ := ih (fun callee hc => hfound callee (List.mem_cons_of_mem first hc))
        (fun callee hc => hother callee (List.mem_cons_of_mem second hc)) hrest
      exact ⟨by rw [String.toList_inj.mp hname], hmore⟩

theorem allCallees_append_inj
    (hfound : ∀ callee ∈ found, Token.Kind.identifier.accepts callee.toList = true)
    (hother : ∀ callee ∈ other, Token.Kind.identifier.accepts callee.toList = true)
    (h : allCallees found ++ rest = allCallees other ++ more) : found = other ∧ rest = more := by
  cases found with
  | nil =>
    cases other with
    | nil => exact ⟨rfl, List.append_cancel_left h⟩
    | cons second other => simp [allCallees] at h
  | cons first found =>
    cases other with
    | nil => simp [allCallees] at h
    | cons second other =>
      have hline : first.toList ++ '"' :: (furtherCallees found ++ rest) =
          second.toList ++ '"' :: (furtherCallees other ++ more) := by
        simpa [allCallees] using h
      obtain ⟨hname, hrest⟩ := append_quote_inj
        (quote_not_mem_of_accepts (hfound first List.mem_cons_self))
        (quote_not_mem_of_accepts (hother second List.mem_cons_self)) hline
      obtain ⟨rfl, hmore⟩ := furtherCallees_append_inj
        (fun callee hc => hfound callee (List.mem_cons_of_mem first hc))
        (fun callee hc => hother callee (List.mem_cons_of_mem second hc)) hrest
      exact ⟨by rw [String.toList_inj.mp hname], hmore⟩

end Text

/-- Rows of identifiers, one line for each, are the only ones with their text. -/
theorem rows_eq_of_lines_eq {rows others : List (String × List String)}
    (hrows : ∀ row ∈ rows, RowNamed row) (hothers : ∀ row ∈ others, RowNamed row)
    (h : rows.flatMap (fun row => (dotLine row.1 row.2).toList) =
      others.flatMap (fun row => (dotLine row.1 row.2).toList)) : rows = others := by
  induction rows generalizing others with
  | nil =>
    cases others with
    | nil => rfl
    | cons row others => simp [toList_dotLine] at h
  | cons row rows ih =>
    cases others with
    | nil => simp [toList_dotLine] at h
    | cons other others =>
      obtain ⟨caller, found⟩ := row
      obtain ⟨caller', found'⟩ := other
      obtain ⟨hcaller, hfound⟩ : RowNamed (caller, found) := hrows _ List.mem_cons_self
      obtain ⟨hcaller', hfound'⟩ : RowNamed (caller', found') := hothers _ List.mem_cons_self
      rw [List.flatMap_cons, List.flatMap_cons, toList_dotLine, toList_dotLine] at h
      simp only [List.append_assoc, List.cons_append, List.cons.injEq, true_and] at h
      obtain ⟨hname, hrest⟩ := append_quote_inj (quote_not_mem_of_accepts hcaller)
        (quote_not_mem_of_accepts hcaller') h
      obtain ⟨hcallees, hlines⟩ := allCallees_append_inj hfound hfound' hrest
      have hrows := ih (fun row hrow => hrows row (List.mem_cons_of_mem _ hrow))
        (fun row hrow => hothers row (List.mem_cons_of_mem _ hrow)) hlines
      exact List.cons_eq_cons.mpr ⟨Prod.ext (String.toList_inj.mp hname) hcallees, hrows⟩

theorem Named.of_mem_toList {graph : CallGraph} (h : Named graph) :
    ∀ row ∈ graph.toList, RowNamed row := by
  intro row hrow
  exact h row.1 row.2 (Std.TreeMap.mem_toList_iff_getElem?_eq_some.mp hrow)

theorem toList_eq_of_dot_eq {g h : CallGraph} (hg : Named g) (hh : Named h)
    (heq : dot g = dot h) : g.toList = h.toList := by
  unfold dot at heq
  have hjoin := (String.append_right_inj _).mp ((String.append_left_inj _).mp heq)
  have hlines := congrArg String.toList hjoin
  rw [String.toList_join, String.toList_join, List.flatMap_map, List.flatMap_map] at hlines
  exact rows_eq_of_lines_eq hg.of_mem_toList hh.of_mem_toList hlines

/-- The names of call graphs are identifiers, and two call graphs with the same text have the same
callers with the same callees. -/
theorem getElem?_eq_of_dot_eq {file source file' source' : String}
    {roots roots' : Option (List String)} {limit limit' : Option Int} {external external' : Bool}
    {g h : CallGraph} {messages messages' : List Message}
    (hg : build (.load file source) roots limit external = .ok (g, messages))
    (hh : build (.load file' source') roots' limit' external' = .ok (h, messages')) :
    Named g ∧ Named h ∧ (dot g = dot h → ∀ name : String, g[name]? = h[name]?) := by
  have hgn := named_of_build hg
  have hhn := named_of_build hh
  refine ⟨hgn, hhn, ?_⟩
  intro heq name
  have hsame : g.Equiv h := Std.TreeMap.equiv_iff_toList_eq.mpr (toList_eq_of_dot_eq hgn hhn heq)
  exact hsame.getElem?_eq

/-- A function with one call. -/
def oneCall : Listing := .load "a.s" ".type f,@function;f:call g"

/-- The same function, and in front of it a label that would be two names in the text of a graph. -/
def oneCallQuoted : Listing := .load "b.s" "\"f\\\",\\\"g\":;f:call g;.type f,@function"

theorem ofListing_oneCallQuoted : ofListing oneCallQuoted true = ofListing oneCall true := by
  have hnames : functions oneCallQuoted = ["f"] ∧ functions oneCall = ["f"] := by decide +kernel
  have hcalls : (oneCallQuoted.function? true "f").map Body.calls =
      (oneCall.function? true "f").map Body.calls := by decide +kernel
  have hrow : callees oneCallQuoted true "f" = callees oneCall true "f" := by
    rw [callees_external, callees_external, hcalls]
  rw [ofListing, ofListing, hnames.1, hnames.2, List.foldl_cons, List.foldl_cons, hrow,
    List.foldl_nil, List.foldl_nil]

theorem getElem?_eq_of_dot_eq_oneCall :
    build oneCall none none true = .ok (ofListing oneCall true, []) ∧
      build oneCallQuoted none none true = .ok (ofListing oneCallQuoted true, []) ∧
      dot (ofListing oneCall true) = dot (ofListing oneCallQuoted true) ∧
      Named (ofListing oneCall true) ∧
      ∀ name : String, (ofListing oneCall true)[name]? = (ofListing oneCallQuoted true)[name]? := by
  have hg : build oneCall none none true = .ok (ofListing oneCall true, []) := rfl
  have hh : build oneCallQuoted none none true = .ok (ofListing oneCallQuoted true, []) := rfl
  have heq : dot (ofListing oneCall true) = dot (ofListing oneCallQuoted true) := by
    rw [ofListing_oneCallQuoted]
  obtain ⟨hnamed, -, hsame⟩ := getElem?_eq_of_dot_eq hg hh
  exact ⟨hg, hh, heq, hnamed, hsame heq⟩

end AsmCompare.CallGraph
