import AsmCompare.CallGraph
import AsmCompare.Command.Failure
import AsmCompare.Command.Invocation

/-! # Running a command

A command reads its inputs, says what it has to say, and may ask for one file to be written before
it ends.
-/
namespace AsmCompare.Command
open Files Report

/-- What a run leaves: its exit code and what it printed. -/
structure Outcome where
  exitCode : Nat
  out : String
  err : String
  deriving DecidableEq, Repr

/-- A run that is over, or waits for a file to be written. -/
inductive Plan where
  | finished (outcome : Outcome)
  | write (path text : String) (next : Except PathError Unit → Outcome)

/-- The output so far; escape sequences are kept only on a terminal. -/
structure Console where
  terminal : Bool
  verbose : Bool
  out : String := ""
  err : String := ""

namespace Console

def plain (c : Console) (text : String) : String :=
  if c.terminal then text else String.ofList (Text.stripEscapes text.toList)

def print (c : Console) (text : String) : Console := { c with out := c.out ++ c.plain text }

def printLines (c : Console) (lines : List String) : Console := c.print (unlines lines)

def complain (c : Console) (line : String) : Console :=
  { c with err := c.err ++ c.plain line ++ "\n" }

/-- Warnings are always reported, the rest only on request. -/
def log (c : Console) (messages : List Message) : Console :=
  let least := if c.verbose then Message.Level.debug else .warning
  { c with err := c.err ++ unlines (Message.lines least messages) }

def finish (c : Console) (exitCode : Nat) : Outcome := ⟨exitCode, c.out, c.err⟩

def fail (c : Console) (f : Failure) : Outcome := (c.complain f.line).finish f.exitCode

/-- Reports names that a file does not define; the command fails if there are any. -/
def finishWithout (c : Console) (l : Listing) (missing : List String) : Outcome :=
  (missing.foldl (fun c name => c.complain (l.notFound name).render) c).finish
    (if missing.isEmpty then 0 else 1)

end Console

/-- Loads an input and goes on with it. -/
def withListing (lookup : Lookup) (c : Console) (path : String) (next : Listing → Console → Plan) :
    Plan :=
  match load lookup path with
  | .error e => .finished (c.fail (.ofLoadError e))
  | .ok l =>
    let counted := path ++ ": " ++ l.statements.length.repr ++ " statements"
    next l (c.log (l.messages ++ [⟨.info, counted⟩]))

def showBodies (l : Listing) (symbols : List String) (c : Console) : Outcome :=
  let found := symbols.map fun name => (name, l.body? true name)
  let c := c.printLines (found.flatMap fun (_, b) => (b.map bodyLines).getD [])
  c.finishWithout l ((found.filter fun (_, b) => b.isNone).map Prod.fst)

def writeCopy (l : Listing) (symbols : List String) (output : Option String) (c : Console) : Plan :=
  let (text, missing) := copy l symbols
  match output with
  | none => .finished ((c.print text).finishWithout l missing)
  | some path => .write path text fun
    | .error e => c.fail (.ofPathError e path)
    | .ok () =>
      let count := (symbols.length - missing.length).repr
      (c.log [⟨.info, "Wrote " ++ count ++ " symbols to " ++ path⟩]).finishWithout l missing

def showChanges (old new : Listing) (details : Bool) (style : DiffStyle) (c : Console) : Outcome :=
  let (changes, comparison) := Change.ofListings old new {}
  let pair := fun name => if details then comparison.pair? name name else none
  ((c.log comparison.messages).printLines (changesLines style pair changes)).finish 0

/-- The lines of a comparison of two symbols. -/
def chainReport (old oldName new newName : String) (style : DiffStyle) (comparison : Comparison)
    (chain : Chain) : List String :=
  if !chain.flatEqual then
    diffHeader oldName newName style.pretty ::
      ((comparison.pair? oldName newName).map (pairLines · style)).getD []
  else if !chain.deepEqual then
    (new ++ ":" ++ newName ++ " references changed compiler-generated symbols") ::
      chainLines "    " chain
  else [old ++ ":" ++ oldName ++ " and " ++ new ++ ":" ++ newName ++ " are identical"]

def showSymbols (a b : Listing) (oldName newName : String) (style : DiffStyle) (c : Console) :
    Outcome :=
  match Comparison.compareNamed a b {} oldName newName with
  | .error e => c.fail (.ofError e)
  | .ok (chain, comparison) =>
    ((c.log comparison.messages).printLines
      (chainReport a.file oldName b.file newName style comparison chain)).finish 0

def writeGraph (l : Listing) (output : Option String) (external : Bool) (roots : List String)
    (maxDepth : Option Int) (c : Console) : Plan :=
  match CallGraph.build l (if roots.isEmpty then none else some roots) maxDepth external with
  | .error e => .finished (c.fail (.ofError e))
  | .ok (graph, messages) =>
    let c := c.log messages
    match output with
    | none => .finished ((c.print graph.dot).finish 0)
    | some path => .write path graph.dot fun
      | .error e => c.fail (.ofPathError e path)
      | .ok () =>
        (c.printLines ["Wrote " ++ path ++ " (" ++ graph.size.repr ++ " functions)"]).finish 0

/-- Runs an invocation. -/
def Invocation.plan (lookup : Lookup) (terminal : Bool) (i : Invocation) : Plan :=
  let c : Console := { terminal, verbose := i.verbose }
  match i.request with
  | .version => .finished ((c.printLines ["asmtool, version 1.0.0"]).finish 0)
  | .info input options => withListing lookup c input fun l c =>
    .finished ((c.printLines (table l options)).finish 0)
  | .bodies input symbols => withListing lookup c input fun l c => .finished (showBodies l symbols c)
  | .copy input symbols output => withListing lookup c input fun l c =>
    writeCopy l symbols output c
  | .diff old new details style =>
    withListing lookup c old fun a c => withListing lookup c new fun b c =>
      .finished (showChanges a b details style c)
  | .diffSymbol old oldName new newName style =>
    withListing lookup c old fun a c => withListing lookup c new fun b c =>
      .finished (showSymbols a b oldName newName style c)
  | .callGraph input output external roots maxDepth => withListing lookup c input fun l c =>
    writeGraph l output external roots maxDepth c

/-- What a command line that leaves no invocation ends in; one that is not understood has no
outcome of its own. -/
def ArgumentError.outcome? : ArgumentError → Option Outcome
  | notUnderstood => none
  | nulInPath => some ⟨1, "", ""⟩

/-- Runs a command line on a file tree: the outcome, or none for a command line that is not
understood, and the tree afterwards. -/
def runOn (t : Tree) (terminal : Bool) (words : List String) : Option Outcome × Tree :=
  match Invocation.ofWords t.lookup words with
  | .error e => (e.outcome?, t)
  | .ok i =>
    match i.plan t.lookup terminal with
    | .finished outcome => (some outcome, t)
    | .write path text next =>
      match t.write path text.toUTF8.toList with
      | .ok t => (some (next (.ok ())), t)
      | .error e => (some (next (.error e)), t)

end AsmCompare.Command
