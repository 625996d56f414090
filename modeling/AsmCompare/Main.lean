import AsmCompare.Command.Run

/-! # The command line

Looks up every path that the arguments can name, runs the invocation on what was found, writes the
file it asks for, and prints.
-/
namespace AsmCompare.Command
open Files

def pathErrorOf : IO.Error → PathError
  | .inappropriateType _ code _ => if code = 21 then .isDirectory else .notDirectory
  | .invalidArgument _ _ _ => .nameTooLong
  | _ => .notFound

def readEntry (path : String) : IO (Except PathError Entry) := do
  try
    return .ok (.file (← IO.FS.readBinFile path).toList)
  catch e =>
    match pathErrorOf e with
    | .isDirectory => return .ok .directory
    | error => return .error error

def writeEntry (path text : String) : IO (Except PathError Unit) := do
  try
    IO.FS.writeFile path text
    return .ok ()
  catch e => return .error (pathErrorOf e)

/-- The paths that a word can hold: itself, what follows an equals sign or a short option, and
their shortened forms. -/
def pathsIn (word : String) : List String :=
  let cs := word.toList
  let candidates := [cs, (cs.dropWhile (· ≠ '=')).drop 1, cs.drop 2].map String.ofList
  candidates ++ candidates.map shorten

/-- A lookup among the entries read beforehand. -/
def lookupIn (entries : List (String × Except PathError Entry)) (path : String) :
    Except PathError Entry :=
  (entries.lookup path).getD (.error .notFound)

def finishRun (outcome : Outcome) : IO UInt32 := do
  (← IO.getStdout).putStr outcome.out
  (← IO.getStderr).putStr outcome.err
  return outcome.exitCode.toUInt32

def runMain (words : List String) : IO UInt32 := do
  let entries ← (words.flatMap pathsIn).mapM fun path => return (path, ← readEntry path)
  let terminal ← (← IO.getStdout).isTty
  match Invocation.ofWords (lookupIn entries) words with
  | .error e =>
    match e.outcome? with
    | some outcome => finishRun outcome
    | none =>
      IO.eprintln "Usage: asmtool [-v] info|show|copy|diff|diff-symbol|callgraph ARGUMENTS"
      return 2
  | .ok i =>
    match i.plan (lookupIn entries) terminal with
    | .finished outcome => finishRun outcome
    | .write path text next => finishRun (next (← writeEntry path text))

end AsmCompare.Command

def main (args : List String) : IO UInt32 := AsmCompare.Command.runMain args
