import MissionText.Context
import MissionText.Text.Numeral

/-!
# Arguments

How the program is called. Options stand before or after the name of a
command, and some of them belong to one command alone. An option is given at
most once before the name and once after it, and the later one counts. Its
value is the next argument, which may not begin with a hyphen, or stands after
an equals sign, where it may. After two hyphens everything is a text. What
does not follow these rules is refused as a whole.
-/

namespace MissionText

/-- The form in which results are shown. -/
inductive OutputFormat where
  | text
  | json
  deriving DecidableEq, Repr

/-- The name of a command. -/
inductive CommandName where
  | parse
  | suggest
  | apply
  | hover
  deriving DecidableEq, Repr

/-- The names of options that take a value. -/
inductive OptionName where
  | catalog
  | profiles
  | maxModules
  | output
  | cursor
  | pick
  | offset
  deriving DecidableEq, Repr

/-- The names of options that take none. -/
inductive SwitchName where
  | factory
  | color
  | noColor
  deriving DecidableEq, Repr

/-- What a command is to do. -/
inductive Action where
  /-- Read a mission line, which is the input of the program if it is not
  given. -/
  | parse (text : Option String)
  /-- Show the candidates before a cursor, which is at the end if it is not
  given. -/
  | suggest (text : String) (cursor : Option Nat)
  /-- Pick a candidate. -/
  | apply (text : String) (cursor : Option Nat) (place : Nat)
  /-- Show the identifier at an offset. -/
  | hover (text : String) (offset : Nat)
  deriving DecidableEq, Repr

/-- A call of the program. -/
structure Invocation where
  /-- The path of a catalog file. -/
  catalog : Option String
  /-- The path of a directory of profiles. -/
  profiles : Option String
  maxModules : Nat
  factory : Bool
  output : OutputFormat
  /-- Whether colors are asked for, or ruled out; neither leaves it to the
  terminal. -/
  color : Option Bool
  action : Action
  deriving DecidableEq, Repr

/-- What help can be asked for. -/
inductive HelpTopic where
  /-- The program as a whole. -/
  | program
  | command (name : CommandName)
  /-- The help itself. -/
  | help
  deriving DecidableEq, Repr

/-- Why arguments do not lead to a call. -/
inductive Stop where
  | refused
  | version
  | help (topic : HelpTopic)
  deriving DecidableEq, Repr

/-! ## Single arguments -/

/-- The name of a command as it is written. -/
def CommandName.ofString? : String → Option CommandName
  | "parse" => some parse
  | "suggest" => some suggest
  | "apply" => some apply
  | "hover" => some hover
  | _ => none

/-- The name of an option as it is written after two hyphens. -/
def OptionName.ofString? : String → Option OptionName
  | "catalog" => some catalog
  | "profiles" => some profiles
  | "max-modules" => some maxModules
  | "output" => some output
  | "cursor" => some cursor
  | "pick" => some pick
  | "offset" => some offset
  | _ => none

/-- The name of a switch as it is written after two hyphens. -/
def SwitchName.ofString? : String → Option SwitchName
  | "factory" => some factory
  | "color" => some color
  | "no-color" => some noColor
  | _ => none

/-- What one argument is. -/
inductive Argument where
  | text (text : String)
  /-- Two hyphens, after which there are only texts. -/
  | endOfOptions
  | switch (name : SwitchName)
  | option (name : OptionName) (value : Option String)
  | version
  | help
  | unknown
  deriving DecidableEq, Repr

/-- What an argument is that begins with two hyphens, from its name and the
value after its equals sign, if it has one. -/
def Argument.ofLong (name : String) (value : Option String) : Argument :=
  match OptionName.ofString? name, SwitchName.ofString? name, value with
  | some found, _, value => .option found value
  | none, some found, none => .switch found
  | none, none, none =>
    if name = "version" then .version else if name = "help" then .help else .unknown
  | none, _, some _ => .unknown

/-- What an argument is. A single hyphen is a text. -/
def Argument.ofString (argument : String) : Argument :=
  match argument.toList with
  | ['-', '-'] => .endOfOptions
  | '-' :: '-' :: long =>
    let name := String.ofList (long.takeWhile (· ≠ '='))
    match long.dropWhile (· ≠ '=') with
    | [] => .ofLong name none
    | _ :: value => .ofLong name (some (String.ofList value))
  | '-' :: 'V' :: _ => .version
  | '-' :: 'h' :: _ => .help
  | '-' :: _ :: _ => .unknown
  | _ => .text argument

/-- Whether the argument after an option may be its value. -/
def mayBeValue (argument : String) : Bool :=
  match argument.toList with
  | '-' :: _ :: _ => false
  | _ => true

/-! ## Options -/

/-- What was given on one side of the name of a command. -/
structure Given where
  catalog : Option String := none
  profiles : Option String := none
  maxModules : Option Nat := none
  output : Option OutputFormat := none
  cursor : Option Nat := none
  pick : Option Nat := none
  offset : Option Nat := none
  factory : Bool := false
  color : Bool := false
  noColor : Bool := false
  texts : List String := []
  deriving DecidableEq, Repr

/-- The bound of offsets and places. -/
def wordBound : Nat := UInt64.size

/-- The number of modules that a value stands for. It may have a sign, which
is only of use before zero. -/
def moduleLimit? (value : String) : Option Nat :=
  match value.toList with
  | '-' :: digits => (Text.natural? digits).filter (· = 0)
  | cs => Text.unsigned? Text.settingBound cs

/-- A path, which has to be something. -/
def path? (value : String) : Option String := if value.isEmpty then none else some value

/-- The format that a value stands for. -/
def OutputFormat.ofString? : String → Option OutputFormat
  | "text" => some text
  | "json" => some json
  | _ => none

/-- The value of an option that has none so far. -/
def fresh? {α : Type} (current : Option α) (value : Option α) : Option (Option α) :=
  match current with
  | some _ => none
  | none => value.map some

namespace Given

/-- What is given with one more option. -/
def set? (given : Given) (name : OptionName) (value : String) : Option Given :=
  let word? := Text.unsigned? wordBound value.toList
  match name with
  | .catalog => (fresh? given.catalog (path? value)).map ({ given with catalog := · })
  | .profiles => (fresh? given.profiles (path? value)).map ({ given with profiles := · })
  | .maxModules =>
    (fresh? given.maxModules (moduleLimit? value)).map ({ given with maxModules := · })
  | .output =>
    (fresh? given.output (OutputFormat.ofString? value)).map ({ given with output := · })
  | .cursor => (fresh? given.cursor word?).map ({ given with cursor := · })
  | .pick => (fresh? given.pick word?).map ({ given with pick := · })
  | .offset => (fresh? given.offset word?).map ({ given with offset := · })

/-- What is given with one more switch. -/
def turnOn? (given : Given) : SwitchName → Option Given
  | .factory => if given.factory then none else some { given with factory := true }
  | .color => if given.color then none else some { given with color := true }
  | .noColor => if given.noColor then none else some { given with noColor := true }

/-- What is given with one more text, of which there may be only so many. -/
def addText? (given : Given) (most : Nat) (text : String) : Option Given :=
  if given.texts.length < most then some { given with texts := given.texts ++ [text] } else none

/-- Whether no two switches contradict each other. -/
def isConsistent (given : Given) : Bool := !(given.color && given.noColor)

end Given

/-- Whether an option may be given after the name of a command, or before any
name. -/
def OptionName.belongsTo : OptionName → Option CommandName → Bool
  | cursor, command => command = some .suggest || command = some .apply
  | pick, command => command = some .apply
  | offset, command => command = some .hover
  | catalog, _ | profiles, _ | maxModules, _ | output, _ => true

/-- Refuse what is not there. -/
def orRefuse {α : Type} : Option α → Except Stop α
  | some value => .ok value
  | none => .error .refused

/-- Read the arguments on one side of the name of a command. Before the name
the first text ends the reading, and it comes back with all that follows it;
after the name there is at most one text. -/
def readSide (command : Option CommandName) (given : Given) :
    List String → Except Stop (Given × List String)
  | [] => .ok (given, [])
  | argument :: rest =>
    match Argument.ofString argument with
    | .text text =>
      if command.isNone then .ok (given, text :: rest)
      else do readSide command (← orRefuse (given.addText? 1 text)) rest
    | .endOfOptions =>
      if command.isNone then .error .refused
      else do
        let given ← rest.foldlM (fun given text => orRefuse (given.addText? 1 text)) given
        .ok (given, [])
    | .switch name => do readSide command (← orRefuse (given.turnOn? name)) rest
    | .option name value =>
      if name.belongsTo command then
        match value, rest with
        | some value, rest => do readSide command (← orRefuse (given.set? name value)) rest
        | none, next :: rest =>
          if mayBeValue next then do readSide command (← orRefuse (given.set? name next)) rest
          else .error .refused
        | none, [] => .error .refused
      else .error .refused
    | .version => if command.isNone then .error .version else .error .refused
    | .help => .error (.help ((command.map .command).getD .program))
    | .unknown => .error .refused

/-! ## Calls -/

/-- The topic that is named after a request for help. -/
def HelpTopic.ofNames? : List String → Option HelpTopic
  | [] => some program
  | ["help"] => some help
  | [name] => (CommandName.ofString? name).map command
  | _ => none

/-- What a command is to do with what is given after its name. -/
def Action.ofGiven? (command : CommandName) (given : Given) : Option Action :=
  match command, given.texts with
  | .parse, [] => some (.parse none)
  | .parse, [text] => some (.parse (some text))
  | .suggest, [text] => some (.suggest text given.cursor)
  | .apply, [text] => given.pick.map (.apply text given.cursor)
  | .hover, [text] => given.offset.map (.hover text)
  | _, _ => none

/-- Whether colors are asked for by what is given on both sides. -/
def colorOf (before after : Given) : Option Bool :=
  if before.color || after.color then some true
  else if before.noColor || after.noColor then some false
  else none

namespace Invocation

/-- The call that arguments lead to. -/
def ofArguments (arguments : List String) : Except Stop Invocation := do
  let (before, rest) ← readSide none {} arguments
  match rest with
  | [] => .error .refused
  | name :: rest =>
    if name = "help" then do
      let topic ← orRefuse (HelpTopic.ofNames? rest)
      .error (.help topic)
    else do
      let command ← orRefuse (CommandName.ofString? name)
      let (after, _) ← readSide (some command) {} rest
      let action ← orRefuse (Action.ofGiven? command after)
      if before.isConsistent && after.isConsistent then
        .ok {
          catalog := after.catalog.or before.catalog
          profiles := after.profiles.or before.profiles
          maxModules := (after.maxModules.or before.maxModules).getD defaultMaxModules
          factory := before.factory || after.factory
          output := (after.output.or before.output).getD .text
          color := colorOf before after
          action }
      else .error .refused

end Invocation

end MissionText
