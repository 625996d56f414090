import AsmCompare.Command.Options
import AsmCompare.Files.Load
import AsmCompare.Report.Diff
import AsmCompare.Text.Numeral

/-! # Invocations

What a command line asks for. Arguments that are not understood, inputs that are no files and
outputs that are directories leave no invocation. Options are checked before arguments, each in the
order of the words, and the first fault decides.
-/
namespace AsmCompare.Command
open Files Report

inductive Request where
  | version
  | info (input : String) (options : TableOptions)
  | bodies (input : String) (symbols : List String)
  | copy (input : String) (symbols : List String) (output : Option String)
  | diff (old new : String) (details : Bool) (style : DiffStyle)
  | diffSymbol (old oldName new newName : String) (style : DiffStyle)
  | callGraph (input : String) (output : Option String) (external : Bool) (roots : List String)
      (maxDepth : Option Int)
  deriving Repr

structure Invocation where
  verbose : Bool
  request : Request
  deriving Repr

/-- Why a command line leaves no invocation: it is not understood, or a path holds a NUL and cannot
even be looked up. -/
inductive ArgumentError where
  | notUnderstood
  | nulInPath
  deriving DecidableEq, Repr

/-- Options before the command. -/
structure GlobalSettings where
  verbose : Bool := false
  version : Bool := false

def globalSwitches : List (Switch GlobalSettings) :=
  [⟨["-v", "--verbose"], .flag fun s => { s with verbose := true }⟩,
   ⟨["--version"], .flag fun s => { s with version := true }⟩]

def infoSwitches : List (Switch TableOptions) :=
  [⟨["--functions"], .flag fun s => { s with functions := true }⟩,
   ⟨["--no-functions"], .flag fun s => { s with functions := false }⟩,
   ⟨["--objects"], .flag fun s => { s with objects := true }⟩,
   ⟨["--no-objects"], .flag fun s => { s with objects := false }⟩,
   ⟨["--global"], .flag fun s => { s with globals := true }⟩,
   ⟨["--no-global"], .flag fun s => { s with globals := false }⟩,
   ⟨["--local"], .flag fun s => { s with locals := true }⟩,
   ⟨["--no-local"], .flag fun s => { s with locals := false }⟩]

/-- Options of the commands that write a file. -/
structure OutputSettings where
  output : Option String := none

def outputSwitches : List (Switch OutputSettings) :=
  [⟨["-o", "--output"], .value fun v s => { s with output := some v }⟩]

/-- Options of the commands that show differences. -/
structure DiffSettings where
  details : Bool := false
  pretty : Bool := false
  color : Bool := true
  context : Option String := none

def diffSymbolSwitches : List (Switch DiffSettings) :=
  [⟨["--pretty"], .flag fun s => { s with pretty := true }⟩,
   ⟨["--color"], .flag fun s => { s with color := true }⟩,
   ⟨["--no-color"], .flag fun s => { s with color := false }⟩,
   ⟨["-C", "--context"], .value fun v s => { s with context := some v }⟩]

def diffSwitches : List (Switch DiffSettings) :=
  ⟨["--show"], .flag fun s => { s with details := true }⟩ :: diffSymbolSwitches

/-- Options of the call graph; `depthFirst` says that a depth was given before any output. -/
structure GraphSettings where
  output : Option String := none
  external : Bool := false
  roots : List String := []
  maxDepth : Option String := none
  depthFirst : Bool := false

def graphSwitches : List (Switch GraphSettings) :=
  [⟨["-o", "--output"], .value fun v s => { s with output := some v }⟩,
   ⟨["--external"], .flag fun s => { s with external := true }⟩,
   ⟨["-r", "--root"], .value fun v s => { s with roots := s.roots ++ [v] }⟩,
   ⟨["-d", "--max-depth"], .value fun v s =>
     { s with maxDepth := some v, depthFirst := s.depthFirst || s.output.isNone }⟩]

/-- What has to be there or the command line is not understood. -/
def understood {α : Type} : Option α → Except ArgumentError α
  | some a => .ok a
  | none => .error .notUnderstood

/-- A number that is not below a bound. -/
def boundedNumber (least : Int) (text : String) : Except ArgumentError Int :=
  understood ((Text.readInteger 10 text.toList).filter (least ≤ ·))

/-- Looks a path up, which must not hold a NUL. -/
def checkedLookup (lookup : Lookup) (path : String) :
    Except ArgumentError (Except PathError Entry) :=
  if path.toList.contains '\x00' then .error .nulInPath else .ok (lookup path)

/-- The shortened path of an input, which has to be given and to be a file. -/
def inputPath (lookup : Lookup) (argument : Option String) : Except ArgumentError String := do
  let path ← understood argument
  match ← checkedLookup lookup path with
  | .ok (.file _) => return shorten path
  | _ => .error .notUnderstood

/-- The shortened path of an output, which must not be a directory. -/
def outputPath (lookup : Lookup) (path : String) : Except ArgumentError String := do
  match ← checkedLookup lookup path with
  | .ok .directory => .error .notUnderstood
  | _ => return shorten path

/-- An optional value, which is checked if it is given. -/
def optional {α β : Type} (check : α → Except ArgumentError β) :
    Option α → Except ArgumentError (Option β)
  | none => .ok none
  | some a => (check a).map some

/-- Arguments past the last one a command takes are not understood. -/
def noMore (arguments : List String) : Except ArgumentError Unit :=
  if arguments.isEmpty then .ok () else .error .notUnderstood

/-- The symbols that a command names, at least one. -/
def someSymbols (arguments : List String) : Except ArgumentError (List String) :=
  if arguments.isEmpty then .error .notUnderstood else .ok arguments

def DiffSettings.style (s : DiffSettings) : Except ArgumentError DiffStyle := do
  let context ← optional (boundedNumber 0) s.context
  return { context := context.getD 3, pretty := s.pretty, color := s.color }

/-- The output and the depth of a call graph, checked in the order in which they were given. -/
def GraphSettings.outputAndDepth (lookup : Lookup) (s : GraphSettings) :
    Except ArgumentError (Option String × Option Int) := do
  if s.depthFirst then
    let depth ← optional (boundedNumber 1) s.maxDepth
    return (← optional (outputPath lookup) s.output, depth)
  else
    let output ← optional (outputPath lookup) s.output
    return (output, ← optional (boundedNumber 1) s.maxDepth)

/-- The request of a command word and the words after it. -/
def Request.ofWords (lookup : Lookup) (command : String) (words : List String) :
    Except ArgumentError Request :=
  match command with
  | "info" => do
    let (options, arguments) ← understood (readWords infoSwitches true {} words)
    let input ← inputPath lookup arguments[0]?
    noMore (arguments.drop 1)
    return .info input options
  | "show" => do
    let (_, arguments) ← understood (readWords ([] : List (Switch Unit)) true () words)
    let input ← inputPath lookup arguments[0]?
    return .bodies input (← someSymbols (arguments.drop 1))
  | "copy" => do
    let (settings, arguments) ← understood (readWords outputSwitches true {} words)
    let output ← optional (outputPath lookup) settings.output
    let input ← inputPath lookup arguments[0]?
    return .copy input (← someSymbols (arguments.drop 1)) output
  | "diff" => do
    let (settings, arguments) ← understood (readWords diffSwitches true {} words)
    let style ← settings.style
    let old ← inputPath lookup arguments[0]?
    let new ← inputPath lookup arguments[1]?
    noMore (arguments.drop 2)
    return .diff old new settings.details style
  | "diff-symbol" => do
    let (settings, arguments) ← understood (readWords diffSymbolSwitches true {} words)
    let style ← settings.style
    let old ← inputPath lookup arguments[0]?
    let oldName ← understood arguments[1]?
    let new ← inputPath lookup arguments[2]?
    noMore (arguments.drop 4)
    return .diffSymbol old oldName new (arguments[3]?.getD oldName) style
  | "callgraph" => do
    let (settings, arguments) ← understood (readWords graphSwitches true {} words)
    let (output, depth) ← settings.outputAndDepth lookup
    let input ← inputPath lookup arguments[0]?
    noMore (arguments.drop 1)
    return .callGraph input output settings.external settings.roots depth
  | _ => .error .notUnderstood

/-- The invocation of a command line. -/
def Invocation.ofWords (lookup : Lookup) (words : List String) :
    Except ArgumentError Invocation := do
  let (settings, rest) ← understood (readWords globalSwitches false {} words)
  if settings.version then return ⟨settings.verbose, .version⟩
  match rest with
  | [] => .error .notUnderstood
  | command :: words => return ⟨settings.verbose, ← Request.ofWords lookup command words⟩

end AsmCompare.Command
