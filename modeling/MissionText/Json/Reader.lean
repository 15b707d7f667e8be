import MissionText.Json.Lexeme

/-!
# Reading JSON

The lexemes of a text are put together from left to right on a stack of the
arrays and objects that are still open, so values may be nested to any depth.
Exactly one value has to come of it.
-/

namespace MissionText.Json

/-- Something that is still open. What it holds so far is given last first. -/
inductive Frame where
  | array (items : List Json)
  | object (members : List (Option String × Json))
  /-- A member whose value has not been read; its object is the next frame. -/
  | member (name : Option String)

/-- What may come next. -/
inductive Mode where
  /-- A value, or the end of the array that has just been opened. -/
  | value (closable : Bool)
  /-- The name of a member, or the end of the object that has just been
  opened. -/
  | name (closable : Bool)
  | colon
  /-- Whatever may come after a complete value. -/
  | after (value : Json)

/-- How far a text has been read. -/
structure Progress where
  mode : Mode
  frames : List Frame

/-- Read one lexeme. -/
def Progress.step? (progress : Progress) (lexeme : Lexeme) : Option Progress :=
  match progress.mode, lexeme, progress.frames with
  | .value _, .scalar value, frames => some ⟨.after value, frames⟩
  | .value _, .openArray, frames => some ⟨.value true, .array [] :: frames⟩
  | .value _, .openObject, frames => some ⟨.name true, .object [] :: frames⟩
  | .value true, .closeArray, .array items :: frames => some ⟨.after (.array items), frames⟩
  | .name _, .scalar (.string name), frames => some ⟨.colon, .member name :: frames⟩
  | .name true, .closeObject, .object members :: frames =>
    some ⟨.after (.object members), frames⟩
  | .colon, .colon, frames => some ⟨.value false, frames⟩
  | .after value, .comma, .array items :: frames =>
    some ⟨.value false, .array (value :: items) :: frames⟩
  | .after value, .comma, .member name :: .object members :: frames =>
    some ⟨.name false, .object ((name, value) :: members) :: frames⟩
  | .after value, .closeArray, .array items :: frames =>
    some ⟨.after (.array (value :: items).reverse), frames⟩
  | .after value, .closeObject, .member name :: .object members :: frames =>
    some ⟨.after (.object ((name, value) :: members).reverse), frames⟩
  | _, _, _ => none

/-- The value that has been read, if there is exactly one. -/
def Progress.result? (progress : Progress) : Option Json :=
  match progress.mode, progress.frames with
  | .after value, [] => some value
  | _, _ => none

/-- The value of a JSON text. -/
def read? (text : String) : Option Json := do
  let lexemes ← lexemes? text.toList
  let progress ← lexemes.foldlM Progress.step? ⟨.value false, []⟩
  progress.result?

end MissionText.Json
