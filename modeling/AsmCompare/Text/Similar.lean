import Std.Data.TreeMap

/-! # Names close to a misspelt one

The similarity of a name and a word is twice the number of characters in their matching blocks
over the sum of their lengths. The blocks are found greedily: the longest common block first,
the earliest in the name and then in the word among those of one length, then the same on both
sides of it. In a long word the search leaves the frequent characters out; they only extend the
block that it finds.
-/
namespace AsmCompare.Text

/-- Words of this length or more leave their frequent characters out of the index. -/
def longWord : Nat := 200

/-- How often each character of a word occurs. -/
def occurrences (word : List Char) : Std.TreeMap Char Nat :=
  word.foldl (fun counts c => counts.insert c (counts.getD c 0 + 1)) ∅

/-- The characters that a long word has more often than once in a hundred, plus one. -/
def frequentChars (word : List Char) : List Char :=
  let most := word.length / 100 + 1
  if word.length < longWord then []
  else ((occurrences word).toList.filter fun p => most < p.2).map Prod.fst

/-- The positions of each character of a word, ascending. -/
abbrev Index := Std.TreeMap Char (List Nat)

/-- The index of a word without some of its characters. -/
def Index.ofWord (left : List Char) (word : List Char) : Index :=
  word.zipIdx.foldr (fun p index =>
    if left.contains p.1 then index else index.insert p.1 (p.2 :: index.getD p.1 [])) ∅

/-- A common block: where it starts in the name and in the word, and its length. -/
structure Block where
  name : Nat
  word : Nat
  size : Nat
  deriving DecidableEq, Repr

/-- The common blocks that end at one position of the name: the position of the word where each
ends and its length, by ascending position. -/
abbrev BlockRow := List (Nat × Nat)

/-- The blocks for the next position of the name, whose character stands at the given positions of
the word: each extends the block that ends one place before it, or starts a new one. -/
def BlockRow.next : BlockRow → List Nat → BlockRow
  | _, [] => []
  | [], j :: js => (j, 1) :: next [] js
  | (i, k) :: row, j :: js =>
    if i + 1 < j then next row (j :: js)
    else if i + 1 = j then (j, k + 1) :: next row js
    else (j, 1) :: next ((i, k) :: row) js
termination_by row js => row.length + js.length

/-- The longest of the blocks that end at position `i` of the name, the best so far winning ties. -/
def bestInRow (i : Nat) (row : BlockRow) (best : Block) : Block :=
  row.foldl (fun best p =>
    if best.size < p.2 then ⟨i + 1 - p.2, p.1 + 1 - p.2, p.2⟩ else best) best

/-- The longest block of indexed characters, from position `i` of the name on. -/
def longestCore (index : Index) : (i : Nat) → BlockRow → List Char → Block → Block
  | _, _, [], best => best
  | i, row, c :: name, best =>
    let row := row.next (index.getD c [])
    longestCore index (i + 1) row name (bestInRow i row best)

/-- Length of the longest common start. -/
def sharedStart : List Char → List Char → Nat
  | a :: s, b :: t => if a = b then sharedStart s t + 1 else 0
  | _, _ => 0

/-- The longest common block, extended on both sides by the characters left out of the index. -/
def longestBlock (left : List Char) (name word : List Char) : Block :=
  let core := longestCore (.ofWord left word) 0 [] name ⟨0, 0, 0⟩
  let back := sharedStart (name.take core.name).reverse (word.take core.word).reverse
  let ahead := sharedStart (name.drop (core.name + core.size)) (word.drop (core.word + core.size))
  ⟨core.name - back, core.word - back, back + core.size + ahead⟩

/-- Number of characters in the matching blocks. `fuel` bounds the nesting of the search. -/
def matchedChars (left : List Char) : (fuel : Nat) → List Char → List Char → Nat
  | 0, _, _ => 0
  | fuel + 1, name, word =>
    let block := longestBlock left name word
    if block.size = 0 then 0
    else
      matchedChars left fuel (name.take block.name) (word.take block.word) + block.size +
        matchedChars left fuel (name.drop (block.name + block.size))
          (word.drop (block.word + block.size))

/-- Similarity as a fraction; two empty texts are alike. -/
structure Score where
  matched : Nat
  total : Nat
  deriving DecidableEq, Repr

/-- The similarity of a name and a word, whose frequent characters are `left` out of its index. -/
def score (left : List Char) (name word : List Char) : Score :=
  if name.length + word.length = 0 then ⟨1, 1⟩
  else ⟨2 * matchedChars left (name.length + 1) name word, name.length + word.length⟩

/-- At least three fifths. -/
def Score.isClose (s : Score) : Bool := 3 * s.total ≤ 5 * s.matched

def Score.lt (s t : Score) : Bool := s.matched * t.total < t.matched * s.total

/-- Whether the first of two scored names is listed before the second: by descending score, equal
scores by descending name. -/
def listedBefore (s t : Score × String) : Bool :=
  if t.1.lt s.1 then true else if s.1.lt t.1 then false else t.2 ≤ s.2

/-- Up to three of the names that are close to a word, the closest first. -/
def closeNames (word : String) (names : List String) : List String :=
  let left := frequentChars word.toList
  let scored := names.map fun name => (score left name.toList word.toList, name)
  (((scored.filter fun s => s.1.isClose).mergeSort listedBefore).take 3).map Prod.snd

end AsmCompare.Text
