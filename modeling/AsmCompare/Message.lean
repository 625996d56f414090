/-! # Messages: what the program says about its own work -/
namespace AsmCompare

inductive Message.Level where
  | debug
  | info
  | warning
  deriving DecidableEq, Repr

structure Message where
  level : Message.Level
  text : String
  deriving DecidableEq, Repr

namespace Message

def Level.name : Level → String
  | .debug => "DEBUG"
  | .info => "INFO"
  | .warning => "WARNING"

def Level.rank : Level → Nat
  | .debug => 0
  | .info => 1
  | .warning => 2

def render (m : Message) : String := m.level.name ++ ": " ++ m.text

/-- The lines of the messages at a level or above it. -/
def lines (least : Level) (messages : List Message) : List String :=
  (messages.filter fun m => least.rank ≤ m.level.rank).map render

/-- The texts of the warnings. -/
def warnings (messages : List Message) : List String :=
  (messages.filter (·.level = .warning)).map text

end Message

end AsmCompare
