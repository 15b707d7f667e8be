import MissionText.Command.Arguments
import MissionText.Command.Report

/-!
# Help

What the program says about itself. A help text begins with what its topic is
for and how it is called, and then lists commands, texts and options, each
list with its explanations in one column. Options that every command takes are
listed with those of the command, in a fixed order.
-/

namespace MissionText

/-- The name of the program. -/
def programName : String := "mission-line"

/-- The name and version of the program. -/
def versionLine : String := programName ++ " 0.1.0\n"

/-- A line of a list: what is written in a call, and what it means. -/
structure HelpRow where
  written : String
  meaning : String
  deriving DecidableEq, Repr

/-- The lines of a list, with the meanings in one column two blanks after the
longest of what is written. -/
def HelpRow.lines (rows : List HelpRow) : List String :=
  let longest := (rows.map (·.written.length)).foldl max 0
  rows.map fun row => "  " ++ padded (longest + 2) row.written ++ row.meaning

/-- A list with its title and an empty line before it, unless there is nothing
to list. -/
def HelpRow.section (title : String) (rows : List HelpRow) : List String :=
  if rows.isEmpty then [] else ["", title ++ ":"] ++ lines rows

namespace HelpTopic

/-- What the topic is for. -/
def purpose : HelpTopic → String
  | program => "Parse and complete mission-line text"
  | command .parse => "Build a mission from a line, or list what is wrong with it"
  | command .suggest => "List completion candidates at a cursor"
  | command .apply => "Apply the N-th completion candidate at a cursor"
  | command .hover => "Show the identifier under a byte offset"
  | help => "Print this message or the help of the given subcommand(s)"

/-- What is written after the name of the program. -/
def usage : HelpTopic → String
  | program => "[OPTIONS] <COMMAND>"
  | command .parse => "parse [OPTIONS] [TEXT]"
  | command .suggest => "suggest [OPTIONS] <TEXT>"
  | command .apply => "apply [OPTIONS] --pick <PICK> <TEXT>"
  | command .hover => "hover [OPTIONS] --offset <OFFSET> <TEXT>"
  | help => "help [COMMAND]..."

/-- How the program is called. -/
def usageLine (topic : HelpTopic) : String := "Usage: " ++ programName ++ " " ++ topic.usage

/-- The commands of the program. -/
def commandRows : HelpTopic → List HelpRow
  | program =>
    [⟨"parse", purpose (command .parse)⟩, ⟨"suggest", purpose (command .suggest)⟩,
      ⟨"apply", purpose (command .apply)⟩, ⟨"hover", purpose (command .hover)⟩,
      ⟨"help", purpose help⟩]
  | command _ | help => []

/-- The texts that a command takes. -/
def textRows : HelpTopic → List HelpRow
  | program => []
  | command .parse => [⟨"[TEXT]", "Mission line; read from stdin when omitted"⟩]
  | command .suggest | command .apply | command .hover => [⟨"<TEXT>", ""⟩]
  | help => [⟨"[COMMAND]...", "Print help for the subcommand(s)"⟩]

/-- An option without a short form, in the column after the short forms. -/
def longRow (written meaning : String) : HelpRow := ⟨"    " ++ written, meaning⟩

/-- The option for a catalog file. -/
def catalogRow : HelpRow := longRow "--catalog <CATALOG>" "JSON file listing extra modules"

/-- The option for a directory of profiles. -/
def profilesRow : HelpRow :=
  longRow "--profiles <PROFILES>" "Directory of `<name>.json` profile files"

/-- The options that are listed after those of a single command. -/
def sharedRows : List HelpRow :=
  [longRow "--max-modules <MAX_MODULES>"
      ("Largest module count any bomb casing can hold [default: " ++ toString defaultMaxModules ++
        "]"),
    longRow "--factory" "Allow `factory:` settings",
    longRow "--output <OUTPUT>"
      "Output format (text or json) [default: text] [possible values: text, json]",
    longRow "--color" "Force ANSI color output",
    longRow "--no-color" "Disable ANSI color output",
    ⟨"-h, --help", "Print help"⟩]

/-- The option for a cursor. -/
def cursorRow : HelpRow :=
  longRow "--cursor <CURSOR>" "Byte offset of the cursor (default: end of text)"

/-- The options of a topic. -/
def optionRows : HelpTopic → List HelpRow
  | program => [catalogRow, profilesRow] ++ sharedRows ++ [⟨"-V, --version", "Print version"⟩]
  | command .parse => [catalogRow, profilesRow] ++ sharedRows
  | command .suggest => [catalogRow, cursorRow, profilesRow] ++ sharedRows
  | command .apply =>
    [catalogRow, cursorRow, longRow "--pick <PICK>" "Index into the candidate list",
      profilesRow] ++ sharedRows
  | command .hover => [catalogRow, longRow "--offset <OFFSET>" "", profilesRow] ++ sharedRows
  | help => []

/-- The help text of a topic. -/
def text (topic : HelpTopic) : String :=
  textOfLines ([topic.purpose, "", topic.usageLine] ++
    HelpRow.section "Commands" topic.commandRows ++
    HelpRow.section "Arguments" topic.textRows ++
    HelpRow.section "Options" topic.optionRows)

end HelpTopic

/-- What is said about arguments that are refused. -/
def refusalText : String :=
  textOfLines [HelpTopic.program.usageLine, "", "For more information, try '--help'."]

end MissionText
