import AsmCompare.Text.Quoted

/-! # Paths and the errors of opening them -/
namespace AsmCompare.Files

/-- Why a path cannot be opened. -/
inductive PathError where
  | notFound
  | notDirectory
  | isDirectory
  | nameTooLong
  deriving DecidableEq, Repr

namespace PathError

def code : PathError → Nat
  | notFound => 2
  | notDirectory => 20
  | isDirectory => 21
  | nameTooLong => 36

def reason : PathError → String
  | notFound => "No such file or directory"
  | notDirectory => "Not a directory"
  | isDirectory => "Is a directory"
  | nameTooLong => "File name too long"

/-- The error with the path it is about. -/
def message (e : PathError) (path : String) : String :=
  "[Errno " ++ e.code.repr ++ "] " ++ e.reason ++ ": " ++ Text.quoted path

end PathError

/-- The parts of a path between slashes. -/
def parts : List Char → List (List Char)
  | [] => [[]]
  | c :: rest =>
    if c = '/' then [] :: parts rest
    else
      match parts rest with
      | [] => [[c]]
      | part :: more => (c :: part) :: more

/-- The start of an absolute path; two slashes differ from one and from more. -/
def root (path : List Char) : List Char :=
  match path.takeWhile (· = '/') with
  | [] => []
  | ['/', '/'] => ['/', '/']
  | _ => ['/']

/-- A path without empty and `.` parts. -/
def shorten (path : String) : String :=
  let names := ((parts path.toList).filter fun p => p ≠ [] && p ≠ ['.']).map String.ofList
  let s := String.ofList (root path.toList) ++ "/".intercalate names
  if s = "" then "." else s

end AsmCompare.Files
