/-! # Reading bytes as text

UTF-8 with every maximal ill-formed part replaced by the replacement character, and with carriage
returns, alone or before a line feed, read as line feeds.
-/
namespace AsmCompare.Text

def replacement : Char := '\ufffd'

/-- The range of second bytes after a lead byte and how many bytes follow the lead, if it is one. -/
def leadByte? (b : Nat) : Option (Nat × Nat × Nat) :=
  if 0xC2 ≤ b ∧ b ≤ 0xDF then some (1, 0x80, 0xBF)
  else if b = 0xE0 then some (2, 0xA0, 0xBF)
  else if b = 0xED then some (2, 0x80, 0x9F)
  else if 0xE1 ≤ b ∧ b ≤ 0xEF then some (2, 0x80, 0xBF)
  else if b = 0xF0 then some (3, 0x90, 0xBF)
  else if 0xF1 ≤ b ∧ b ≤ 0xF3 then some (3, 0x80, 0xBF)
  else if b = 0xF4 then some (3, 0x80, 0x8F)
  else none

/-- The bits a lead byte with `n` bytes after it contributes. -/
def leadBits (n b : Nat) : Nat :=
  match n with
  | 1 => b - 0xC0
  | 2 => b - 0xE0
  | _ => b - 0xF0

/-- Decoding with a sequence in progress: `owed` bytes in `lo..hi` are still missing, `value` holds
the bits read so far. A byte that does not fit ends the sequence and is read afresh. -/
def decodeFrom (owed lo hi value : Nat) : List UInt8 → List Char
  | [] => if owed = 0 then [] else [replacement]
  | byte :: rest =>
    let b := byte.toNat
    if owed ≠ 0 && lo ≤ b && b ≤ hi then
      let value := value * 64 + (b - 0x80)
      if owed = 1 then Char.ofNat value :: decodeFrom 0 0 0 0 rest
      else decodeFrom (owed - 1) 0x80 0xBF value rest
    else
      let pending := if owed = 0 then [] else [replacement]
      match leadByte? b with
      | some (n, lo, hi) => pending ++ decodeFrom n lo hi (leadBits n b) rest
      | none =>
        pending ++ (if b < 0x80 then Char.ofNat b else replacement) :: decodeFrom 0 0 0 0 rest

def decodeUtf8 (bytes : List UInt8) : List Char := decodeFrom 0 0 0 0 bytes

/-- Reads every line end of a text file as a line feed. -/
def unifyLineEnds : List Char → List Char
  | [] => []
  | '\r' :: '\n' :: rest => '\n' :: unifyLineEnds rest
  | '\r' :: rest => '\n' :: unifyLineEnds rest
  | c :: rest => c :: unifyLineEnds rest

/-- The text of a file. -/
def readText (bytes : List UInt8) : String := String.ofList (unifyLineEnds (decodeUtf8 bytes))

end AsmCompare.Text
