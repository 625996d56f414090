import AsmCompare.Body

/-! # Corresponding names of two bodies

Bodies that agree pair up statement by statement and token by token, so a name of the new body
corresponds to the name at the same place in the old one.
-/
namespace AsmCompare

/-- A map from names of the new body to names of the old one, in order of first occurrence. -/
structure SymbolMap where
  entries : List (String × String) := []
  messages : List Message := []

namespace SymbolMap

/-- The names at corresponding places of two operands, the new one first. -/
def operandNames (old new : Operand) : List (String × String) :=
  (List.zip old new).filterMap fun (t, u) =>
    if t.isIdentifier && u.isIdentifier then some (u.text, t.text) else none

/-- The names at corresponding places of two statements; only code and data count. -/
def statementNames (old new : Statement) : List (String × String) :=
  if new.kind.isSymbolic then
    (old.operands.zip new.operands).flatMap fun (o, p) => operandNames o p
  else []

def correspondingNames (old new : Body) : List (String × String) :=
  (old.statements.zip new.statements).flatMap fun (s, t) => statementNames s t

/-- Adds a correspondence; the first one of a name is kept, a different one is a warning. -/
def insert (body : String) (map : SymbolMap) (entry : String × String) : SymbolMap :=
  match map.entries.lookup entry.1 with
  | none => { map with entries := map.entries ++ [entry] }
  | some kept =>
    if kept = entry.2 then map
    else
      let text := body ++ ": " ++ entry.1 ++ " maps to both " ++ kept ++ " and " ++ entry.2 ++
        ", keeping " ++ kept
      { map with messages := map.messages ++ [⟨.warning, text⟩] }

def ofBodies (old new : Body) : SymbolMap :=
  (correspondingNames old new).foldl (insert new.name) {}

/-- The entries sorted by the new name. -/
def sorted (map : SymbolMap) : List (String × String) :=
  map.entries.mergeSort fun x y => x.1 ≤ y.1

end SymbolMap

end AsmCompare
