import AsmCompare.Files.Load

/-! # Failures and exit codes -/
namespace AsmCompare.Command

/-- A failure of a command: one with a diagnostic of its own, a bad argument, a file that is missing
or closed to the user, or one that nobody expected. -/
inductive Failure where
  | diagnosed (text : String)
  | badArgument (text : String)
  | noAccess (text : String)
  | unexpected (text : String)
  deriving DecidableEq, Repr

namespace Failure

def exitCode : Failure → Nat
  | diagnosed _ => 1
  | badArgument _ => 2
  | noAccess _ => 2
  | unexpected _ => 3

def line : Failure → String
  | diagnosed text => text
  | badArgument text => "Error: " ++ text
  | noAccess text => "Error: " ++ text
  | unexpected text => "Internal error: " ++ text

def ofError (e : Error) : Failure := .diagnosed e.render

def ofLoadError : Files.LoadError → Failure
  | .nulInPath => .unexpected Files.LoadError.nulInPath.message
  | .failed e => ofError e

/-- The failure to write to a path. -/
def ofPathError (e : Files.PathError) (path : String) : Failure :=
  match e with
  | .notFound => .noAccess (e.message path)
  | _ => .unexpected (e.message path)

end Failure

end AsmCompare.Command
