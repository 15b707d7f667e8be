/-!
# JSON values

The data format of catalog files, profile files and machine-readable output.
A number is kept as it is written, for nothing here depends on its size. A
string may spell half a surrogate pair with an escape; such a string is no
text, and is kept only so that a value that nobody looks at may hold it.
-/

namespace MissionText

/-- A JSON value. -/
inductive Json where
  | null
  | bool (value : Bool)
  /-- A number, as written. -/
  | number (lexeme : String)
  /-- A string, unless it is no text. -/
  | string (text : Option String)
  | array (items : List Json)
  /-- The members of an object in the order in which they stand, with their
  names unless these are no text. -/
  | object (members : List (Option String × Json))

namespace Json

/-- A text as a value. -/
def ofText (text : String) : Json := .string (some text)

/-- A natural number as a value. -/
def ofNat (n : Nat) : Json := .number (toString n)

/-- A value that may be missing. -/
def ofOption {α : Type} (encode : α → Json) : Option α → Json
  | none => .null
  | some value => encode value

/-- A list of values. -/
def ofList {α : Type} (encode : α → Json) (values : List α) : Json := .array (values.map encode)

/-- An object with the given members. -/
def record (members : List (String × Json)) : Json :=
  .object (members.map fun (name, value) => (some name, value))

/-- The text of a string. -/
def text? : Json → Option String
  | .string text => text
  | _ => none

end Json

end MissionText
