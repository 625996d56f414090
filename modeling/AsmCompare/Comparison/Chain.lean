import AsmCompare.Symbol

/-! # Pairings and chains

A pairing asks for the comparison of a symbol of the old file with one of the new. A chain is the
answer: the verdict on the pairing, and below it the chains of the generated symbols it refers to.
-/
namespace AsmCompare

structure Pairing where
  kind : Symbol.Kind
  old : String
  new : String
  deriving DecidableEq, Repr

/-- The bodies of a node are `flatEqual`; it is `deepEqual` if its whole subtree is. -/
structure Chain where
  pairing : Pairing
  flatEqual : Bool
  deepEqual : Bool
  children : List Chain
  deriving Repr

namespace Chain

/-- A node whose comparison goes no further. -/
def leaf (pairing : Pairing) (equal : Bool) : Chain := ⟨pairing, equal, equal, []⟩

/-- Number of nodes. -/
def size : Chain → Nat
  | ⟨_, _, _, children⟩ => 1 + go children
where
  go : List Chain → Nat
    | [] => 0
    | c :: rest => c.size + go rest

theorem size_eq (c : Chain) : c.size = 1 + size.go c.children := by
  cases c
  simp [size]

theorem go_append (xs ys : List Chain) : size.go (xs ++ ys) = size.go xs + size.go ys := by
  induction xs with
  | nil => simp [size.go]
  | cons c rest ih => simp [size.go, ih, Nat.add_assoc]

section
variable {β : Type}

/-- Trees under one label. -/
def labelled (label : β) (cs : List Chain) : List (β × Chain) := cs.map fun c => (label, c)

@[simp] theorem map_snd_labelled (label : β) (cs : List Chain) :
    (labelled label cs).map Prod.snd = cs := by
  simp [labelled, Function.comp_def]

/-- The nodes of a forest, each before its subtree: takes the first tree and puts its children in
front of the others, under the label that comes below its own. -/
def visit (below : β → β) : List (β × Chain) → List (β × Chain)
  | [] => []
  | (label, c) :: rest =>
    (label, c) :: visit below (labelled (below label) c.children ++ rest)
termination_by forest => size.go (forest.map Prod.snd)
decreasing_by
  simp only [List.map_append, map_snd_labelled, go_append, List.map_cons, size.go, size_eq c]
  omega

end

/-- The nodes with their depths. -/
def rows (c : Chain) : List (Nat × Chain) := visit (· + 1) [(0, c)]

/-- The nodes, each before its subtree. -/
def walk (c : Chain) : List Chain := (visit id [((), c)]).map Prod.snd

end Chain

end AsmCompare
