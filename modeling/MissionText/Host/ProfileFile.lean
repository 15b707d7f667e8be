import MissionText.Catalog
import MissionText.Host.Directory
import MissionText.Json.Reader
import MissionText.Json.Record
import MissionText.Text.Numeral

/-!
# Profile files

A directory of profiles holds a file for each, named after the profile. Files
of other names are none of its business, and a file that cannot be read, or
is not a profile, is passed over.
-/

namespace MissionText

/-- The largest number that may stand for an operation. -/
def operationMax : Nat := 255

/-- The kind that an operation stands for. It is a whole number written
without sign, fraction or exponent, and one of them stands for a defuser. -/
def ProfileKind.ofOperation? : Json → Option ProfileKind
  | .number lexeme => do
    let operation ← Text.natural? lexeme.toList
    if operation ≤ operationMax then some (if operation = 1 then .defuser else .expert) else none
  | _ => none

/-- The profile that a file describes. It leaves out nothing and is an
expert's unless the file says otherwise. -/
def Profile.ofFile? (text : String) : Option Profile := do
  let value ← Json.read? text
  match ← value.fields? ["DisabledList", "Operation"] with
  | [disabled, operation] =>
    let ids ← match disabled with
      | none => some []
      | some listed => listed.arrayOf? Json.text?
    let kind ← match operation with
      | none => some .expert
      | some operation => ProfileKind.ofOperation? operation
    pure (.leavingOut kind ids)
  | _ => none

/-- The extension of the names of profile files. -/
def profileExtension : String := "json"

/-- The name of the profile in a file: the stem of the file's name, if that is a
text. A file whose name has another extension, or none, holds no profile. -/
def profileName? (fileName : FileName) : Option String :=
  if fileName.extension?.bind Text.ofBytes? = some profileExtension then
    Text.ofBytes? fileName.stem
  else none

/-- The profile in an entry of a directory, with its name, where `decode` tells
which profile a text describes. -/
def Profile.inFile? (decode : String → Option Profile) (fileName : FileName)
    (content : Except ReadFailure ByteArray) : Option (String × Profile) := do
  let name ← profileName? fileName
  let bytes ← content.toOption
  let text ← (unicodeText bytes).toOption
  let profile ← decode text
  pure (name, profile)

/-- The profiles in a directory. -/
def Profiles.ofListing (decode : String → Option Profile) (listing : Listing) : Profiles :=
  .ofList (listing.filterMap fun (fileName, content) => Profile.inFile? decode fileName content)

end MissionText
