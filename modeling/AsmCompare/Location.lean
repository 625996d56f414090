/-! # Places in a source -/
namespace AsmCompare

structure Location where
  file : String
  line : Int
  deriving DecidableEq, Repr

/-- An integer in decimal. -/
def decimal : Int → String
  | .ofNat n => n.repr
  | .negSucc n => "-" ++ (n + 1).repr

def Location.render (l : Location) : String := l.file ++ ":" ++ decimal l.line

end AsmCompare
