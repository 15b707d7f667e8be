import MissionText.Text.Utf8

/-!
# File names

What the entries of a directory are called: by bytes, which need not be those
of a text. The last dot divides a name into a stem and an extension. A name
with no other dot than at its beginning is all stem.
-/

namespace MissionText

/-- The name of an entry of a directory. -/
structure FileName where
  bytes : List UInt8
  deriving DecidableEq, Repr

namespace FileName

/-- The name that is a text. -/
def ofText (text : String) : FileName := ⟨Text.bytes text⟩

/-- The byte between a stem and an extension. -/
def dot : UInt8 := 46

/-- The bytes before the last dot and after it. -/
def lastDot? : List UInt8 → Option (List UInt8 × List UInt8)
  | [] => none
  | byte :: bytes =>
    match lastDot? bytes with
    | some (stem, extension) => some (byte :: stem, extension)
    | none => if byte = dot then some ([], bytes) else none

/-- The stem of a name and its extension, if it has one. -/
def parts (name : FileName) : List UInt8 × Option (List UInt8) :=
  match lastDot? name.bytes with
  | some (byte :: stem, extension) => (byte :: stem, some extension)
  | some ([], _) | none => (name.bytes, none)

/-- The stem of a name. -/
def stem (name : FileName) : List UInt8 := name.parts.1

/-- The extension of a name. -/
def extension? (name : FileName) : Option (List UInt8) := name.parts.2

end FileName

end MissionText
