/-! # Columns: padding and tab stops, counted in characters -/
namespace AsmCompare.Text

def spaces (n : Nat) : String := String.ofList (List.replicate n ' ')

/-- Fills up with spaces on the right; a longer text is left alone. -/
def padRight (width : Nat) (s : String) : String := s ++ spaces (width - s.length)

/-- Replaces tabs by spaces up to the next multiple of `stop`; the column restarts on a new line. -/
def expandTabsFrom (stop column : Nat) : List Char → List Char
  | [] => []
  | c :: rest =>
    if c = '\t' then
      let n := stop - column % stop
      List.replicate n ' ' ++ expandTabsFrom stop (column + n) rest
    else if c = '\n' || c = '\r' then c :: expandTabsFrom stop 0 rest
    else c :: expandTabsFrom stop (column + 1) rest

def expandTabs (stop : Nat) (s : List Char) : List Char := expandTabsFrom stop 0 s

end AsmCompare.Text
