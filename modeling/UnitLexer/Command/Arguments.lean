/-
UnitLexer.Command.Arguments — the arguments of the command line.

Arguments are read from left to right, and the first that settles the matter
wins: a mistake, or a request for the version or for help. The option
`--tables` may stand before the command and after it, once in each place; the
later one counts.
-/
import UnitLexer.Dump
import UnitLexer.Highlight

namespace UnitLexer

/-! ## §1 Requests -/

/-- What is to be done with the tables in use. -/
inductive Command where
  /-- Dump the tokens of an input. -/
  | lex (input : String) (format : DumpFormat)
  /-- Write an input in colour. -/
  | highlight (input : String) (theme : Theme) (colour : ColourChoice)
  /-- Dump the tables. -/
  | tables
  deriving DecidableEq, Repr

/-- What the arguments ask for. -/
inductive Request where
  /-- A command, with the path of a configuration if one is given. -/
  | run (config? : Option String) (command : Command)
  | version
  | help
  deriving DecidableEq, Repr

/-- A mistake in the arguments. -/
inductive UsageError where
  | commandMissing
  | argumentUnknown (argument : String)
  | argumentRepeated (name : String)
  | valueMissing (name : String)
  | valueInvalid (name value : String)
  deriving DecidableEq, Repr

/-- What is said about the mistake. -/
def UsageError.message : UsageError → String
  | .commandMissing => "a command is required: lex, highlight or tables"
  | .argumentUnknown argument => "unexpected argument '" ++ argument ++ "'"
  | .argumentRepeated name => "the argument '" ++ name ++ "' cannot be used multiple times"
  | .valueMissing name => "a value is required for '" ++ name ++ "'"
  | .valueInvalid name value => "invalid value '" ++ value ++ "' for '" ++ name ++ "'"

/-! ## §2 Levels -/

/-- Where an argument stands: before the command, or behind one. -/
inductive Level where
  | top
  | lex
  | highlight
  | tables
  deriving DecidableEq, Repr

namespace Level

/-- The level behind a command. -/
def ofCommand? (name : String) : Option Level :=
  if name = "lex" then some .lex
  else if name = "highlight" then some .highlight
  else if name = "tables" then some .tables
  else none

/-- The options that take a value. -/
def valued : Level → List String
  | .highlight => ["--tables", "--theme", "--color"]
  | _ => ["--tables"]

/-- The options that take none. -/
def flags : Level → List String
  | .top => ["--version", "--help"]
  | .lex => ["--json", "--help"]
  | _ => ["--help"]

/-- The option a single letter stands for. -/
def short? (l : Level) (letter : Char) : Option String :=
  if letter = 'h' then some "--help"
  else if letter = 'V' ∧ l = .top then some "--version"
  else none

end Level

/-! ## §3 Items -/

/-- An argument that has been told apart from the others. -/
inductive Item where
  | enter (level : Level)
  | option (level : Level) (name value : String)
  | flag (name : String)
  | input (value : String)
  deriving DecidableEq, Repr

/-- An argument that starts with two dashes: its name, and its value if one is
attached. -/
def splitLong (argument : String) : String × Option String :=
  let cs := argument.toList
  let name := cs.takeWhile (· != '=')
  (String.ofList name,
    match cs.drop name.length with
    | [] => none
    | _ :: value => some (String.ofList value))

/-- The argument can be the value of an option: it is no option itself. -/
def isValue (argument : String) : Bool :=
  argument = "-" || argument.toList.head? != some '-'

/-- An argument that is no option: a command at the top, an input behind one. -/
def plainItem (l : Level) (argument : String) : Except UsageError Item :=
  match l with
  | .top =>
    match Level.ofCommand? argument with
    | some inner => .ok (.enter inner)
    | none => .error (.argumentUnknown argument)
  | .tables => .error (.argumentUnknown argument)
  | _ => .ok (.input argument)

/-- Arguments behind `--`, which are options no more; nor are they commands. -/
def plainItems (l : Level) (arguments : List String) : List (Except UsageError Item) :=
  arguments.map fun a => if l = .top then .error (.argumentUnknown a) else plainItem l a

/-- The command `help`, which takes the name of a command or nothing. -/
def helpItem (arguments : List String) : Except UsageError Item :=
  match arguments with
  | [] => .ok (.flag "--help")
  | [a] =>
    if a = "help" ∨ (Level.ofCommand? a).isSome then .ok (.flag "--help")
    else .error (.argumentUnknown a)
  | _ :: a :: _ => .error (.argumentUnknown a)

/-- The arguments told apart, up to the first mistake. -/
def items (l : Level) : List String → List (Except UsageError Item)
  | [] => []
  | a :: as =>
    match a.toList with
    | ['-', '-'] => plainItems l as
    | '-' :: '-' :: _ =>
      let (name, value?) := splitLong a
      if name ∈ l.valued then
        match value? with
        | some value => .ok (.option l name value) :: items l as
        | none =>
          match as with
          | [] => [.error (.valueMissing name)]
          | value :: rest =>
            if isValue value then .ok (.option l name value) :: items l rest
            else [.error (.valueMissing name)]
      else if name ∈ l.flags ∧ value?.isNone then .ok (.flag name) :: items l as
      else [.error (.argumentUnknown a)]
    | '-' :: letter :: _ =>
      match l.short? letter with
      | some name => .ok (.flag name) :: items l as
      | none => [.error (.argumentUnknown a)]
    | _ =>
      if l = .top ∧ a = "help" then [helpItem as]
      else
        match plainItem l a with
        | .ok (.enter inner) => .ok (.enter inner) :: items inner as
        | item => item :: items l as

/-! ## §4 Settings -/

/-- What the arguments have set. -/
structure Settings where
  level : Level := .top
  topTables : Option String := none
  innerTables : Option String := none
  input : Option String := none
  json : Bool := false
  theme : Option Theme := none
  colour : Option ColourChoice := none
  deriving DecidableEq, Repr

namespace Settings

/-- Sets a value that has not been set before. -/
def once {α : Type} (name : String) (old : Option α) (value : α) : Except UsageError (Option α) :=
  if old.isSome then .error (.argumentRepeated name) else .ok (some value)

/-- The settings after an option with a value. -/
def setOption (s : Settings) (l : Level) (name value : String) : Except UsageError Settings := do
  if name = "--theme" then
    match Theme.ofName value with
    | .ok theme => return { s with theme := ← once name s.theme theme }
    | .error _ => .error (.valueInvalid name value)
  else if name = "--color" then
    match ColourChoice.ofName? value with
    | some colour => return { s with colour := ← once name s.colour colour }
    | none => .error (.valueInvalid name value)
  else if value = "" then .error (.valueInvalid name value)
  else if l = .top then return { s with topTables := ← once name s.topTables value }
  else return { s with innerTables := ← once name s.innerTables value }

/-- What the settings ask for. -/
def request (s : Settings) : Except UsageError Request :=
  let config? := s.innerTables.or s.topTables
  let input := s.input.getD "-"
  match s.level with
  | .top => .error .commandMissing
  | .lex => .ok (.run config? (.lex input (if s.json then .json else .lines)))
  | .highlight =>
    .ok (.run config? (.highlight input (s.theme.getD .light) (s.colour.getD .auto)))
  | .tables => .ok (.run config? .tables)

/-- Goes through the items, up to the first that settles the matter. -/
def accept (s : Settings) : List (Except UsageError Item) → Except UsageError Request
  | [] => s.request
  | .error e :: _ => .error e
  | .ok (.enter level) :: rest => accept { s with level := level } rest
  | .ok (.option l name value) :: rest =>
    match s.setOption l name value with
    | .ok s => s.accept rest
    | .error e => .error e
  | .ok (.flag name) :: rest =>
    if name = "--version" then .ok .version
    else if name = "--help" then .ok .help
    else if s.json then .error (.argumentRepeated name)
    else accept { s with json := true } rest
  | .ok (.input value) :: rest =>
    if s.input.isSome then .error (.argumentUnknown value)
    else accept { s with input := some value } rest

end Settings

/-- What the arguments ask for, or the first mistake in them. -/
def Request.ofArguments (arguments : List String) : Except UsageError Request :=
  Settings.accept {} (items .top arguments)

end UnitLexer
