import AsmCompare.Comparison.Comparator

/-! # Changes between two files

Every function and object with a name of its own is new, removed, changed, changed only through
generated symbols, or unchanged.
-/
namespace AsmCompare

inductive Change.Status where
  | new
  | removed
  | changed
  | dependencyChanged
  | unchanged
  deriving DecidableEq, Repr

def Change.Status.name : Change.Status → String
  | .new => "NEW"
  | .removed => "REMOVED"
  | .changed => "CHANGED"
  | .dependencyChanged => "DEPENDENCY_CHANGED"
  | .unchanged => "UNCHANGED"

/-- What happened to one symbol; a symbol that only one file has was compared with nothing. -/
structure Change where
  name : String
  kind : Symbol.Kind
  status : Change.Status
  chain : Option Chain := none

namespace Change

/-- The status that a comparison shows. -/
def Status.ofChain (c : Chain) : Status :=
  if !c.flatEqual then .changed else if !c.deepEqual then .dependencyChanged else .unchanged

/-- The kind of a function or object whose name is not generated. -/
def topLevelKind? (l : Listing) (name : String) : Option Symbol.Kind :=
  if Name.isGenerated name || l.kindOf name = .unknown then none else some (l.kindOf name)

/-- The functions and objects whose names are not generated, sorted by name. -/
def topLevel (l : Listing) : List (String × Symbol.Kind) :=
  l.names.filterMap fun name => (topLevelKind? l name).map fun kind => (name, kind)

section
variable (old new : Listing)

/-- The change of a symbol of the new file. -/
def ofNew (s : Comparison) (name : String) (kind : Symbol.Kind) : Change × Comparison :=
  match topLevelKind? old name with
  | none => (⟨name, kind, .new, none⟩, s)
  | some oldKind =>
    if oldKind ≠ kind then
      (⟨name, kind, .changed, some (.leaf ⟨kind, name, name⟩ false)⟩,
        s.say [⟨.debug, name ++ " changed kind, reporting as changed"⟩])
    else
      let (chain, s) := Comparison.compare old new s ⟨kind, name, name⟩
      (⟨name, kind, .ofChain chain, some chain⟩, s)

/-- The changes of symbols of the new file, one after the other. -/
def ofNews (s : Comparison) : List (String × Symbol.Kind) → List Change × Comparison
  | [] => ([], s)
  | (name, kind) :: rest =>
    let (change, s) := ofNew old new s name kind
    let (changes, s) := ofNews s rest
    (change :: changes, s)

/-- The symbols that only the old file has. -/
def removals : List Change :=
  (topLevel old).filterMap fun (name, kind) =>
    if (topLevelKind? new name).isSome then none else some ⟨name, kind, .removed, none⟩

/-- Compares two files: the symbols of the new one in order, then those that are gone. -/
def ofListings (s : Comparison) : List Change × Comparison :=
  let (changes, s) := ofNews old new s (topLevel new)
  (changes ++ removals old new, s)

end

end Change

namespace Comparison

/-- Compares two named symbols, which have to be both functions or both objects. The error points
at a definition, in the new file if there is one. -/
def compareNamed (old new : Listing) (s : Comparison) (oldName newName : String) :
    Except Error (Chain × Comparison) :=
  let kind := old.kindOf oldName
  if kind ≠ new.kindOf newName || kind = .unknown then
    match new.definition? newName <|> old.definition? oldName with
    | some d => .error (.kindMismatch oldName newName d.location (some d.text))
    | none => .error (.kindMismatch oldName newName none none)
  else .ok (compare old new s ⟨kind, oldName, newName⟩)

end Comparison

end AsmCompare
