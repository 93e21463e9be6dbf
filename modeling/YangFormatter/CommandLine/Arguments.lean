import YangFormatter.Text.Numeral
import YangFormatter.Text.Quoted

/-! # Command-line arguments

Reads arguments by a description of the options and operands that a program
accepts. Long options may be shortened as long as they stay unambiguous and take
their argument after an equals sign or as the next word; short options may be
bundled and take their argument in the same word. Two hyphens end the options; as
the argument of an option they stand for no value at all. All operands have to stand
together: those after a later option are not recognized.
-/

namespace YangFormatter.CommandLine

/-- What an option does to the settings. -/
inductive Action (Settings : Type) where
  /-- Asks for help. -/
  | help
  /-- Takes no argument. -/
  | flag (apply : Settings → Settings)
  /-- Takes any argument, or none. -/
  | text (apply : Option Text → Settings → Settings)
  /-- Takes an integer, or none. -/
  | integer (apply : Option Int → Settings → Settings)

/-- An option of a program. -/
structure Switch (Settings : Type) where
  /-- The names, hyphens included. -/
  names : List Text
  /-- The effect. -/
  action : Action Settings

/-- The operands of a program. -/
inductive Operands where
  /-- Any number of them. -/
  | any
  /-- Exactly one, known by a name. -/
  | one (name : String)
deriving DecidableEq, Repr

/-- What a program accepts on its command line. -/
structure Interface (Settings : Type) where
  /-- The options. -/
  switches : List (Switch Settings)
  /-- The operands. -/
  operands : Operands

/-- Why arguments are not accepted. -/
inductive UsageError where
  /-- An option was shortened too far. -/
  | ambiguous (argument : Text) (candidates : List Text)
  /-- An argument was given to an option that takes none. -/
  | ignored (switch : String) (argument : Text)
  /-- The argument of an option is missing. -/
  | missing (switch : String)
  /-- The argument of an option is not an integer. -/
  | notInteger (switch : String) (argument : Text)
  /-- The operand is missing. -/
  | required (operand : String)
  /-- There are arguments that mean nothing. -/
  | unrecognized (arguments : List Text)
deriving DecidableEq, Repr

/-- The wording of a usage error. -/
def UsageError.message : UsageError → String
  | ambiguous argument candidates =>
      let names := ", ".intercalate (candidates.map String.ofList)
      s!"ambiguous option: {String.ofList argument} could match {names}"
  | ignored switch argument =>
      s!"argument {switch}: ignored explicit argument {argument.quoted}"
  | missing switch => s!"argument {switch}: expected one argument"
  | notInteger switch argument => s!"argument {switch}: invalid int value: {argument.quoted}"
  | required operand => s!"the following arguments are required: {operand}"
  | unrecognized arguments =>
      let list := " ".intercalate (arguments.map String.ofList)
      s!"unrecognized arguments: {list}"

/-- Why a program does not go on after its arguments have been read. -/
inductive Halt where
  /-- Help was asked for. -/
  | help
  /-- The arguments are not accepted. -/
  | usage (error : UsageError)
deriving DecidableEq, Repr

variable {Settings : Type}

/-- Whether an option takes an argument. -/
def Switch.takesArgument (switch : Switch Settings) : Bool :=
  match switch.action with
  | .help | .flag _ => false
  | .text _ | .integer _ => true

/-- An option as messages name it. -/
def Switch.display (switch : Switch Settings) : String :=
  "/".intercalate (switch.names.map String.ofList)

/-- The two hyphens that end the options, and that give an option no value. -/
def hyphens : Text := ['-', '-']

/-- The part that a word of the command line plays. -/
inductive Word (Settings : Type) where
  /-- An operand, or the argument of an option. -/
  | operand (text : Text)
  /-- The two hyphens that end the options. -/
  | separator
  /-- An option under one of its names, perhaps with an argument in the same word. -/
  | switch (name : Text) (switch : Switch Settings) (argument : Option Text)
  /-- Something like an option that the program does not have. -/
  | unknown (text : Text)

/-- Whether a word is neither an option nor like one. -/
def Word.isPlain : Word Settings → Bool
  | .operand _ | .separator => true
  | .switch _ _ _ | .unknown _ => false

/-- The text of a word that is no option. -/
def Word.text : Word Settings → Text
  | .operand text | .unknown text => text
  | .separator => hyphens
  | .switch name _ _ => name

/-- Splits a word at its first equals sign. -/
def splitAssignment (word : Text) : Option (Text × Text) :=
  match word.dropWhile (· != '=') with
  | _ :: argument => some (word.takeWhile (· != '='), argument)
  | [] => none

/-- Whether a word is a negative number, perhaps with a line feed at its end. -/
def isNegativeNumber (word : Text) : Bool :=
  match word with
  | '-' :: rest =>
      let body := if rest.getLast? = some '\n' then rest.dropLast else rest
      let fraction := body.dropWhile Numeral.isDigit
      match fraction with
      | [] => !body.isEmpty
      | '.' :: digits => !digits.isEmpty && digits.all Numeral.isDigit
      | _ => false
  | _ => false

namespace Interface

/-- The option of a name. -/
def find? (interface : Interface Settings) (name : Text) : Option (Switch Settings) :=
  interface.switches.find? (·.names.contains name)

/-- The options that have a name with a property, with these names. -/
def named (interface : Interface Settings) (holds : Text → Bool) :
    List (Text × Switch Settings) :=
  interface.switches.flatMap fun switch =>
    (switch.names.filter holds).map fun name => (name, switch)

/-- The options that a word may mean which is no option's name: long options that
start like it, or the short option that it starts with. -/
def candidates (interface : Interface Settings) (word : Text) :
    List (Text × Switch Settings) × Option Text :=
  match word with
  | '-' :: '-' :: _ =>
      let (start, argument) := match splitAssignment word with
        | some (start, argument) => (start, some argument)
        | none => (word, none)
      (interface.named start.isPrefixOf, argument)
  | _ => (interface.named (· == word.take 2), some (word.drop 2))

/-- Finds out which part a word plays that starts with a hyphen and is longer than
that. -/
def classifyHyphenated (interface : Interface Settings) (word : Text) :
    Except UsageError (Word Settings) :=
  match interface.find? word with
  | some switch => .ok (.switch word switch none)
  | none =>
      let assigned := do
        let (name, argument) ← splitAssignment word
        let switch ← interface.find? name
        return Word.switch name switch (some argument)
      match assigned with
      | some part => .ok part
      | none =>
          match interface.candidates word with
          | ([], _) =>
              if isNegativeNumber word || word.contains ' ' then .ok (.operand word)
              else .ok (.unknown word)
          | ([(name, switch)], argument) => .ok (.switch name switch argument)
          | (several, _) => .error (.ambiguous word (several.map Prod.fst))

/-- Finds out which part a word plays. -/
def classify (interface : Interface Settings) (word : Text) :
    Except UsageError (Word Settings) :=
  match word with
  | '-' :: _ :: _ => interface.classifyHyphenated word
  | _ => .ok (.operand word)

/-- Finds out which parts the words of a command line play. -/
def classifyAll (interface : Interface Settings) :
    List Text → Except UsageError (List (Word Settings))
  | [] => .ok []
  | word :: words =>
      if word = hyphens then
        .ok (.separator :: words.map .operand)
      else do
        let part ← interface.classify word
        let parts ← interface.classifyAll words
        return part :: parts

end Interface

/-- One use of an option, with its argument if it takes one. -/
abbrev Use (Settings : Type) := Switch Settings × Text

namespace Interface

/-- The use of an option that has no argument in its own word. The second part says
whether it takes the next word. -/
def useAlone (following : Option Text) (switch : Switch Settings) :
    Except UsageError (List (Use Settings) × Bool) :=
  if switch.takesArgument then
    match following with
    | some argument => .ok ([(switch, argument)], true)
    | none => .error (.missing switch.display)
  else
    .ok ([(switch, [])], false)

/-- The uses of options in one word, of which `argument` follows the first option.
Behind a short option that takes no argument, other short options follow. -/
def useWith (interface : Interface Settings) (following : Option Text) (short : Bool)
    (switch : Switch Settings) (argument : Text) :
    Except UsageError (List (Use Settings) × Bool) :=
  if switch.takesArgument then
    .ok ([(switch, argument)], false)
  else
    match short, argument with
    | true, letter :: rest =>
        match interface.find? ['-', letter] with
        | none => .error (.ignored switch.display argument)
        | some other => do
            let (uses, taken) ←
              if rest.isEmpty then useAlone following other
              else interface.useWith following short other rest
            return ((switch, []) :: uses, taken)
    | _, _ => .error (.ignored switch.display argument)
termination_by argument

end Interface

/-- Applies the uses of options one after the other. -/
def applyUses (settings : Settings) : List (Use Settings) → Except Halt Settings
  | [] => .ok settings
  | (switch, argument) :: uses =>
      match switch.action with
      | .help => .error .help
      | .flag apply => applyUses (apply settings) uses
      | .text apply =>
          let value := if argument = hyphens then none else some argument
          applyUses (apply value settings) uses
      | .integer apply =>
          if argument = hyphens then
            applyUses (apply none settings) uses
          else
            match Numeral.integer? argument with
            | some number => applyUses (apply (some number) settings) uses
            | none => .error (.usage (.notInteger switch.display argument))

/-- Takes the operands from words of which none is an option. The second part is
what is left over. -/
def Operands.take (operands : Operands) (words : List (Word Settings)) :
    Option (List Text) × List (Word Settings) :=
  match operands with
  | .any =>
      let texts := words.filterMap fun
        | .operand text => some text
        | _ => none
      (some texts, [])
  | .one _ =>
      match words.dropWhile isSeparator with
      | .operand text :: rest => (some [text], rest.dropWhile isSeparator)
      | _ => (none, words)
where
  /-- Whether a word ends the options. -/
  isSeparator : Word Settings → Bool
    | .separator => true
    | _ => false

/-- How far a command line has been read. -/
structure Progress (Settings : Type) where
  /-- The settings so far. -/
  settings : Settings
  /-- The operands, once they have been met. -/
  operands : Option (List Text) := none
  /-- What was not recognized. -/
  extras : List Text := []

/-- The text of the first word if it is an operand. -/
def leadingOperand : List (Word Settings) → Option Text
  | .operand text :: _ => some text
  | _ => none

/-- Reads the words of a command line. -/
def Interface.consume (interface : Interface Settings) (progress : Progress Settings) :
    List (Word Settings) → Except Halt (Progress Settings)
  | [] => .ok progress
  | .unknown text :: words =>
      interface.consume { progress with extras := progress.extras ++ [text] } words
  | .switch name switch argument :: words => do
      let short := name.take 2 != hyphens
      let uses := match argument with
        | none => useAlone (leadingOperand words) switch
        | some given => interface.useWith (leadingOperand words) short switch given
      let (uses, taken) ← uses.mapError .usage
      let settings ← applyUses progress.settings uses
      interface.consume { progress with settings } (if taken then words.drop 1 else words)
  | first :: words =>
      let run := first :: words.takeWhile Word.isPlain
      let (taken, rest) :=
        match progress.operands with
        | none => interface.operands.take run
        | some _ => (none, run)
      let progress :=
        { progress with
          operands := progress.operands <|> taken
          extras := progress.extras ++ rest.map Word.text }
      interface.consume progress (words.dropWhile Word.isPlain)
termination_by words => words.length
decreasing_by
  · simp
  · split
    · simp only [List.length_drop, List.length_cons]
      omega
    · simp
  · exact Nat.lt_succ_of_le (List.dropWhile_sublist _).length_le

/-- Reads a command line: the settings and the operands. -/
def Interface.parse (interface : Interface Settings) (initial : Settings)
    (arguments : List Text) : Except Halt (Settings × List Text) := do
  let words ← (interface.classifyAll arguments).mapError .usage
  let progress ← interface.consume { settings := initial } words
  match interface.operands, progress.operands with
  | .one name, none => .error (.usage (.required name))
  | _, _ =>
      if progress.extras.isEmpty then .ok (progress.settings, progress.operands.getD [])
      else .error (.usage (.unrecognized progress.extras))

end YangFormatter.CommandLine
