import AsmCompare.Location

/-! # Edit scripts

A script walks an old and a new sequence from start to end: an entry keeps an element of both, adds
one of the new sequence, or removes one of the old. Replaying a script rebuilds the new sequence
and checks that the script takes every element once, in order.
-/
namespace AsmCompare

inductive Edit.Op where
  | equal
  | added
  | removed
  deriving DecidableEq, Repr

/-- An entry of a script with its positions in the old and the new sequence. -/
structure Edit where
  op : Edit.Op
  old : Option Int
  new : Option Int
  deriving DecidableEq, Repr

namespace Edit

def keep (i j : Nat) : Edit := ⟨.equal, some i, some j⟩

def add (j : Nat) : Edit := ⟨.added, none, some j⟩

def remove (i : Nat) : Edit := ⟨.removed, some i, none⟩

def Op.all : List Op := [.equal, .added, .removed]

def Op.name : Op → String
  | .equal => "EQUAL"
  | .added => "ADDED"
  | .removed => "REMOVED"

def isChange (e : Edit) : Bool := e.op ≠ .equal

/-- Why a script cannot be replayed. -/
inductive ReplayError where
  | oldPosition (expected : Nat) (found : Option Int)
  | newPosition (expected : Nat) (found : Option Int)
  | pastEnd
  | incomplete
  deriving DecidableEq, Repr

def ReplayError.message : ReplayError → String
  | oldPosition expected found => "expected index_a " ++ expected.repr ++ ", got " ++ position found
  | newPosition expected found => "expected index_b " ++ expected.repr ++ ", got " ++ position found
  | pastEnd => "list index out of range"
  | incomplete => "script does not cover both sequences"
where
  position : Option Int → String
    | some i => decimal i
    | none => "None"

variable {α : Type}

/-- Replays the rest of a script when `i` elements of the old and `j` of the new sequence have been
taken: kept elements come from the old sequence, added ones from the new. -/
def replayFrom (a b : List α) : (i j : Nat) → List Edit → Except ReplayError (List α)
  | i, j, [] => if i = a.length ∧ j = b.length then .ok [] else .error .incomplete
  | i, j, e :: script =>
    match e.op with
    | .equal =>
      if e.old ≠ some (i : Int) then .error (.oldPosition i e.old)
      else if e.new ≠ some (j : Int) then .error (.newPosition j e.new)
      else
        match a[i]? with
        | some x => (replayFrom a b (i + 1) (j + 1) script).map (x :: ·)
        | none => .error .pastEnd
    | .added =>
      if e.new ≠ some (j : Int) then .error (.newPosition j e.new)
      else
        match b[j]? with
        | some y => (replayFrom a b i (j + 1) script).map (y :: ·)
        | none => .error .pastEnd
    | .removed =>
      if e.old ≠ some (i : Int) then .error (.oldPosition i e.old)
      else replayFrom a b (i + 1) j script

def replay (script : List Edit) (a b : List α) : Except ReplayError (List α) :=
  replayFrom a b 0 0 script

end Edit

end AsmCompare
