import MissionText.Json

/-!
# Writing JSON

A value is written over several lines, two blanks deeper for each array or
object it stands in. An empty array or object is written without a break.
Strings are written as they are, but for quotes, backslashes and control
characters.
-/

namespace MissionText.Json

/-- A hexadecimal digit. -/
def hexChar (n : Nat) : Char := Nat.digitChar n

/-- A character as it is written in a string. -/
def escaped (c : Char) : List Char :=
  match c with
  | '"' => ['\\', '"']
  | '\\' => ['\\', '\\']
  | '\x08' => ['\\', 'b']
  | '\x0c' => ['\\', 'f']
  | '\n' => ['\\', 'n']
  | '\r' => ['\\', 'r']
  | '\t' => ['\\', 't']
  | c =>
    if c.toNat < 0x20 then
      ['\\', 'u', '0', '0', hexChar (c.toNat / 16), hexChar (c.toNat % 16)]
    else [c]

/-- A text as a JSON string. -/
def quoted (text : String) : String :=
  String.ofList ('"' :: text.toList.flatMap escaped ++ ['"'])

/-- The lines between two brackets: one for each element, with commas between
them, and the closing bracket on a line of its own. -/
def bracketed (opening closing indent : String) : List String → String
  | [] => opening ++ closing
  | elements =>
    let separator := "\n" ++ indent ++ "  "
    opening ++ separator ++ ("," ++ separator).intercalate elements ++ "\n" ++ indent ++ closing

mutual

/-- A value as it is written at a depth of indentation. A string that is no
text is written as nothing. -/
def written (indent : String) : Json → String
  | .null => "null"
  | .bool value => if value then "true" else "false"
  | .number lexeme => lexeme
  | .string text => quoted (text.getD "")
  | .array items => bracketed "[" "]" indent (writtenItems (indent ++ "  ") items)
  | .object members => bracketed "\x7b" "\x7d" indent (writtenMembers (indent ++ "  ") members)

/-- The elements of an array as they are written. -/
def writtenItems (indent : String) : List Json → List String
  | [] => []
  | item :: items => written indent item :: writtenItems indent items

/-- The members of an object as they are written. -/
def writtenMembers (indent : String) : List (Option String × Json) → List String
  | [] => []
  | (name, value) :: members =>
    (quoted (name.getD "") ++ ": " ++ written indent value) :: writtenMembers indent members

end

/-- A value as a text of its own. -/
def toText (value : Json) : String := written "" value ++ "\n"

end MissionText.Json
