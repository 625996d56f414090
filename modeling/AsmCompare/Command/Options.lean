/-! # Reading options and arguments

Options are long (`--name`, `--name=value`, `--name value`) or short (`-n`, `-nvalue`, `-n value`,
several flags in one word). `--` ends the options. Arguments may stand between options, unless the
options have to come first.
-/
namespace AsmCompare.Command

/-- What an option does to the settings. -/
inductive Action (σ : Type) where
  | flag (set : σ → σ)
  | value (set : String → σ → σ)

structure Switch (σ : Type) where
  spellings : List String
  action : Action σ

variable {σ : Type}

/-- The settings after a word of options, or with a value still to come. -/
inductive Progress (σ : Type) where
  | done (settings : σ)
  | wantsValue (set : String → σ)

def action? (switches : List (Switch σ)) (spelling : String) : Option (Action σ) :=
  (switches.find? (·.spellings.contains spelling)).map Switch.action

/-- A long option, with the value after its equals sign if there is one. -/
def readLong (switches : List (Switch σ)) (settings : σ) (word : List Char) : Option (Progress σ) :=
  let name := String.ofList (word.takeWhile (· ≠ '='))
  match action? switches name, word.dropWhile (· ≠ '=') with
  | some (.flag set), [] => some (.done (set settings))
  | some (.flag _), _ :: _ => none
  | some (.value set), [] => some (.wantsValue fun v => set v settings)
  | some (.value set), _ :: v => some (.done (set (String.ofList v) settings))
  | none, _ => none

/-- Short options in one word; the first that takes a value has the rest of the word for it. -/
def readShort (switches : List (Switch σ)) (settings : σ) : List Char → Option (Progress σ)
  | [] => some (.done settings)
  | c :: rest =>
    match action? switches (String.ofList ['-', c]), rest with
    | some (.flag set), _ => readShort switches (set settings) rest
    | some (.value set), [] => some (.wantsValue fun v => set v settings)
    | some (.value set), _ :: _ => some (.done (set (String.ofList rest) settings))
    | none, _ => none

/-- The options in a word that starts with a dash. -/
def readWord (switches : List (Switch σ)) (settings : σ) (word : List Char) : Option (Progress σ) :=
  match word with
  | '-' :: '-' :: _ => readLong switches settings word
  | _ => readShort switches settings (word.drop 1)

/-- Whether a word holds options: a dash and something after it. -/
def isOption (word : String) : Bool :=
  match word.toList with
  | '-' :: _ :: _ => true
  | _ => false

/-- The settings and the arguments, or nothing if the words are not understood. With `mixed`,
options may follow arguments. -/
def readWords (switches : List (Switch σ)) (mixed : Bool) :
    σ → List String → Option (σ × List String)
  | settings, [] => some (settings, [])
  | settings, word :: rest =>
    if word = "--" then some (settings, rest)
    else if isOption word then
      match readWord switches settings word.toList with
      | none => none
      | some (.done settings) => readWords switches mixed settings rest
      | some (.wantsValue set) =>
        match rest with
        | [] => none
        | value :: rest => readWords switches mixed (set value) rest
    else if mixed then
      (readWords switches mixed settings rest).map fun (s, arguments) => (s, word :: arguments)
    else some (settings, word :: rest)

end AsmCompare.Command
