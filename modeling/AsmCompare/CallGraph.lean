import AsmCompare.Listing.Extract
import AsmCompare.Counting

/-! # Call graphs

The direct calls between the functions of a file, from all functions or breadth first from some
roots, as a map from callers to sorted callees, and its text in the DOT language.
-/
namespace AsmCompare

abbrev CallGraph := Std.TreeMap String (List String)

namespace CallGraph

/-- The functions that a function calls, sorted; `external` includes names the file does not
define as functions. -/
def callees (l : Listing) (external : Bool) (name : String) : List String :=
  match l.function? true name with
  | none => []
  | some body =>
    (body.calls.filter fun callee => external || l.hasFunction callee).mergeSort fun x y => x ≤ y

/-- The functions of a file, sorted. -/
def functions (l : Listing) : List String := l.names.filter l.hasFunction

/-- A search in progress: functions to visit with their depths, those ever queued, and the result
so far. -/
structure Search where
  queue : List (String × Nat)
  seen : List String
  graph : CallGraph := ∅
  messages : List Message := []

namespace Search

/-- Functions of the file that were never queued. -/
def unseen (l : Listing) (seen : List String) : Nat := l.names.countP fun n => !seen.contains n

/-- Queues a callee unless it was queued before or is no function of the file. -/
def enqueue (l : Listing) (depth : Nat) (s : Search) (callee : String) : Search :=
  if !s.seen.contains callee && l.hasFunction callee then
    { s with queue := s.queue ++ [(callee, depth)], seen := callee :: s.seen }
  else s

/-- Visits a function: notes its callees and queues the new ones. -/
def visit (l : Listing) (external : Bool) (s : Search) (name : String) (depth : Nat) : Search :=
  let found := callees l external name
  let text := name ++ ": " ++ found.length.repr ++ " callees at depth " ++ depth.repr
  found.foldl (enqueue l (depth + 1))
    { s with graph := s.graph.insert name found, messages := s.messages ++ [⟨.debug, text⟩] }

/-- Bound on the functions still to visit. -/
def work (l : Listing) (s : Search) : Nat := unseen l s.seen + s.queue.length

theorem work_enqueue_le (l : Listing) (depth : Nat) (s : Search) (callee : String) :
    work l (enqueue l depth s callee) ≤ work l s := by
  unfold enqueue
  split
  · next h =>
    simp only [Bool.and_eq_true, Bool.not_eq_true'] at h
    have := countP_lt (q := fun n => !(callee :: s.seen).contains n)
      (r := fun n => !s.seen.contains n) (Listing.mem_names_of_hasFunction h.2)
      (by simp) (by simpa using h.1) (by simp_all)
    simp only [work, unseen, List.length_append, List.length_singleton]
    omega
  · exact Nat.le_refl _

theorem work_foldl_enqueue_le (l : Listing) (depth : Nat) (found : List String) (s : Search) :
    work l (found.foldl (enqueue l depth) s) ≤ work l s := by
  induction found generalizing s with
  | nil => exact Nat.le_refl _
  | cons callee rest ih => exact Nat.le_trans (ih _) (work_enqueue_le l depth s callee)

theorem work_visit_le (l : Listing) (external : Bool) (s : Search) (name : String) (depth : Nat) :
    work l (visit l external s name depth) ≤ work l s :=
  work_foldl_enqueue_le l (depth + 1) _ _

end Search

/-- Whether a function at a depth has its calls listed. -/
def within (limit : Option Int) (depth : Nat) : Bool :=
  match limit with
  | none => true
  | some d => (depth : Int) < d

/-- Visits the queue until it is empty; a function at the depth limit is not visited. -/
def explore (l : Listing) (limit : Option Int) (external : Bool) (s : Search) : Search :=
  match _ : s.queue with
  | [] => s
  | (name, depth) :: rest =>
    if within limit depth then
      explore l limit external (Search.visit l external { s with queue := rest } name depth)
    else explore l limit external { s with queue := rest }
termination_by Search.work l s
decreasing_by
  · next h _ =>
    have := Search.work_visit_le l external { s with queue := rest } name depth
    simp only [Search.work, h, List.length_cons] at this ⊢
    omega
  · next h _ => simp [Search.work, h]

/-- The graph of all functions of a file. -/
def ofListing (l : Listing) (external : Bool) : CallGraph :=
  (functions l).foldl (fun graph name => graph.insert name (callees l external name)) ∅

/-- The first of some roots that is no function of the file. -/
def unknownRoot? (l : Listing) (roots : List String) : Option String :=
  roots.find? fun root => !l.hasFunction root

/-- The call graph from some roots, or of all functions, and the messages of the search. -/
def build (l : Listing) (roots : Option (List String)) (limit : Option Int) (external : Bool) :
    Except Error (CallGraph × List Message) :=
  if limit.any (· < 1) then .error (.depthTooSmall (limit.getD 0))
  else
    match roots with
    | none => .ok (ofListing l external, [])
    | some roots =>
      match unknownRoot? l roots with
      | some root => .error (.unknownFunction root (Text.closeNames root (functions l)))
      | none =>
        let s := explore l limit external { queue := roots.map (·, 0), seen := roots }
        .ok (s.graph, s.messages)

/-- The graph with given sets of callees. -/
def ofRows (rows : List (String × List String)) : CallGraph :=
  rows.foldl (fun graph row => graph.insert row.1 ((distinct row.2).mergeSort fun x y => x ≤ y)) ∅

def quoteName (name : String) : String := "\"" ++ name ++ "\""

/-- The line of a caller. -/
def dotLine (caller : String) (found : List String) : String :=
  if found.isEmpty then "\t" ++ quoteName caller ++ ";\n"
  else
    "\t" ++ quoteName caller ++ " -> \x7b " ++ ", ".intercalate (found.map quoteName) ++ " \x7d;\n"

/-- The graph in the DOT language, callers and callees sorted by name. -/
def dot (graph : CallGraph) : String :=
  "digraph \x7b\n\trankdir=LR;\n" ++ String.join (graph.toList.map fun (caller, found) =>
    dotLine caller found) ++ "\x7d\n"

end CallGraph

end AsmCompare
