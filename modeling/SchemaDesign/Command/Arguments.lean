import SchemaDesign.Settings.Basic

/-!
# Arguments of the program

The arguments name a command, the file or dialect that it is about, and what is chosen for it.
They are read word by word from left to right, and the first word that does not fit decides; so
does a call for help or for the version, which makes all later words irrelevant.

A choice is a letter after one dash or a word after two, and its value follows at once, after an
equals sign, or as the next word.  Letters may be put together after one dash.  Two dashes alone
end the choices.
-/

namespace SchemaDesign

/-- What the arguments may choose in place of the settings. -/
structure Choices where
  dialect : Option Dialect
  inheritance : Option InheritanceKind
  format : Option OutputFormat
deriving Repr, DecidableEq

inductive Command where
  | compile (file : String) (choices : Choices)
  | normalize (file : String) (inheritance : Option InheritanceKind)
  | validate (file : String)
  | types (dialect : Dialect)
deriving Repr, DecidableEq

inductive Verb where
  | compile
  | normalize
  | validate
  | types
deriving Repr, DecidableEq

inductive Request where
  | help
  | version
  | perform (verbose : Bool) (command : Command)
deriving Repr, DecidableEq

inductive UsageError where
  | missingCommand
  | unknownCommand (word : String)
  | unknownOption (word : String)
  | repeatedOption (name : String)
  | missingValue (name : String)
  | unexpectedValue (name : String)
  | invalidValue (value : String)
  | missingArgument
  | unexpectedArgument (word : String)
deriving Repr, DecidableEq

def UsageError.message : UsageError → String
  | .missingCommand => "a command is missing"
  | .unknownCommand word => "there is no command '" ++ word ++ "'"
  | .unknownOption word => "there is no option '" ++ word ++ "' here"
  | .repeatedOption name => "'--" ++ name ++ "' is given twice"
  | .missingValue name => "'--" ++ name ++ "' needs a value"
  | .unexpectedValue name => "'--" ++ name ++ "' takes no value"
  | .invalidValue value => "'" ++ value ++ "' is not a possible value"
  | .missingArgument => "an argument is missing"
  | .unexpectedArgument word => "there is no place for '" ++ word ++ "'"

namespace Arguments

inductive Choice where
  | dialect
  | inheritance
  | format
deriving Repr, DecidableEq

namespace Choice

def letter : Choice → Char
  | .dialect => 'd'
  | .inheritance => 'i'
  | .format => 'o'

def word : Choice → String
  | .dialect => "dialect"
  | .inheritance => "inheritance"
  | .format => "output"

end Choice

def verbs : List (String × Verb) :=
  [("compile", .compile), ("normalize", .normalize), ("validate", .validate), ("types", .types)]

/-- What may be chosen for a command; before the command nothing may be. -/
def choicesOf : Option Verb → List Choice
  | some .compile => [.dialect, .inheritance, .format]
  | some .normalize => [.inheritance]
  | _ => []

/-- What a command is about. -/
inductive Argument where
  | file (path : String)
  | dialect (dialect : Dialect)

/-- What has been read so far. -/
structure Found where
  verbose : Bool
  choices : Choices
  argument : Option Argument

def Found.empty : Found := ⟨false, ⟨none, none, none⟩, none⟩

/-! ### Values -/

def valueAmong {α : Type} (values : List (String × α)) (text : String) : Except UsageError α :=
  match values.lookup text with
  | some value => .ok value
  | none => .error (.invalidValue text)

def dialectValues : List (String × Dialect) :=
  Dialect.all.map fun dialect => (dialect.name, dialect)

def inheritanceValues : List (String × InheritanceKind) :=
  [("single-table", .singleTable), ("class-table", .classTable),
    ("concrete-table", .concreteTable)]

def formatValues : List (String × OutputFormat) :=
  OutputFormat.all.map fun format => (format.name, format)

def setOnce {α : Type} (choice : Choice) (values : List (String × α)) (text : String) :
    Option α → Except UsageError (Option α)
  | some _ => .error (.repeatedOption choice.word)
  | none => (valueAmong values text).map some

def Choices.set (choices : Choices) (choice : Choice) (text : String) :
    Except UsageError Choices := do
  match choice with
  | .dialect =>
    return { choices with dialect := ← setOnce choice dialectValues text choices.dialect }
  | .inheritance =>
    let inheritance ← setOnce choice inheritanceValues text choices.inheritance
    return { choices with inheritance }
  | .format =>
    return { choices with format := ← setOnce choice formatValues text choices.format }

namespace Found

def choose (found : Found) (choice : Choice) (text : String) : Except UsageError Found := do
  return { found with choices := ← Choices.set found.choices choice text }

def setVerbose (found : Found) : Except UsageError Found :=
  if found.verbose then .error (.repeatedOption "verbose") else .ok { found with verbose := true }

def takeArgument (verb : Verb) (found : Found) (word : String) : Except UsageError Found := do
  if found.argument.isSome then .error (.unexpectedArgument word)
  else if verb = .types then
    return { found with argument := some (.dialect (← valueAmong dialectValues word)) }
  else if word.isEmpty then .error (.invalidValue word)
  else return { found with argument := some (.file word) }

def command (verb : Verb) (found : Found) : Except UsageError Command :=
  match verb, found.argument with
  | .compile, some (.file path) => .ok (.compile path found.choices)
  | .normalize, some (.file path) => .ok (.normalize path found.choices.inheritance)
  | .validate, some (.file path) => .ok (.validate path)
  | .types, some (.dialect dialect) => .ok (.types dialect)
  | _, _ => .error .missingArgument

end Found

/-! ### Words -/

inductive Meaning where
  /-- Nothing after it matters. -/
  | final (request : Request)
  /-- The value is the next word. -/
  | choiceOf (choice : Choice)
  | endOfOptions
  /-- The word is no option. -/
  | argument

def readLetters (verb : Option Verb) :
    List Char → Found → Except UsageError (Found × Option Meaning)
  | [], found => .ok (found, none)
  | c :: rest, found =>
    if c = 'h' then .ok (found, some (.final .help))
    else if c = 'V' ∧ verb.isNone then .ok (found, some (.final .version))
    else if c = 'v' then do readLetters verb rest (← found.setVerbose)
    else
      match (choicesOf verb).find? (·.letter == c) with
      | none => .error (.unknownOption ("-" ++ String.singleton c))
      | some choice =>
        if rest = [] then .ok (found, some (.choiceOf choice))
        else do
          let value := if rest.head? = some '=' then rest.tail else rest
          return (← found.choose choice (String.ofList value), none)

def readName (verb : Option Verb) (name : String) (value : Option String) (found : Found) :
    Except UsageError (Found × Option Meaning) :=
  let alone (meaning : Except UsageError (Found × Option Meaning)) :=
    if value.isSome then .error (.unexpectedValue name) else meaning
  if name = "help" then alone (.ok (found, some (.final .help)))
  else if name = "version" ∧ verb.isNone then alone (.ok (found, some (.final .version)))
  else if name = "verbose" then alone (found.setVerbose.map fun found => (found, none))
  else
    match (choicesOf verb).find? (·.word == name), value with
    | none, _ => .error (.unknownOption ("--" ++ name))
    | some choice, none => .ok (found, some (.choiceOf choice))
    | some choice, some value => (found.choose choice value).map fun found => (found, none)

/-- Reads a word; without a further meaning it is done with. -/
def readWord (verb : Option Verb) (word : String) (found : Found) :
    Except UsageError (Found × Option Meaning) :=
  match word.toList with
  | ['-', '-'] => .ok (found, some .endOfOptions)
  | '-' :: '-' :: text =>
    let name := text.takeWhile (· ≠ '=')
    let value := match text.dropWhile (· ≠ '=') with
      | [] => none
      | _ :: value => some (String.ofList value)
    readName verb (String.ofList name) value found
  | '-' :: c :: letters => readLetters verb (c :: letters) found
  | _ => .ok (found, some .argument)

/-- Whether a word can be the value of the choice before it. -/
def isValue (word : String) : Bool :=
  word.toList.head? ≠ some '-' || word = "-"

def readCommand (verb : Verb) (verbose : Bool) : List String → Found → Except UsageError Request
  | [], found => do
    return .perform (verbose || found.verbose) (← found.command verb)
  | word :: words, found => do
    let (found, meaning) ← readWord (some verb) word found
    match meaning with
    | none => readCommand verb verbose words found
    | some (.final request) => return request
    | some .argument => readCommand verb verbose words (← found.takeArgument verb word)
    | some .endOfOptions => do
      let found ← words.foldlM (fun found word => found.takeArgument verb word) found
      return .perform (verbose || found.verbose) (← found.command verb)
    | some (.choiceOf choice) =>
      match words with
      | value :: words =>
        if isValue value then do readCommand verb verbose words (← found.choose choice value)
        else .error (.missingValue choice.word)
      | [] => .error (.missingValue choice.word)

/-- The words after a call for help: the name of a command at most. -/
def readTopic : List String → Except UsageError Request
  | [] => .ok .help
  | topic :: others =>
    if topic ∉ "help" :: verbs.map Prod.fst then .error (.unknownCommand topic)
    else
      match others with
      | [] => .ok .help
      | other :: _ => .error (.unknownCommand other)

def readWords : List String → Found → Except UsageError Request
  | [], _ => .error .missingCommand
  | word :: words, found => do
    let (found, meaning) ← readWord none word found
    match meaning with
    | some (.final request) => return request
    | some .argument =>
      if word = "help" then readTopic words
      else
        match verbs.lookup word with
        | some verb => readCommand verb found.verbose words .empty
        | none => .error (.unknownCommand word)
    | some .endOfOptions => .error .missingCommand
    | _ => readWords words found

def parse (arguments : List String) : Except UsageError Request :=
  readWords arguments .empty

end Arguments

end SchemaDesign
