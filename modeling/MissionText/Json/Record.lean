import MissionText.Json

/-!
# Records in JSON

A record is an object or an array. In an object unknown members are passed
over, and a known one may stand once. In an array the fields stand in the
order in which they are declared, and some of the last may be missing. Which
fields have to be there is for the reader of the record to say.
-/

namespace MissionText.Json

/-- The values of the members of a name. -/
def valuesOf (name : String) (members : List (Option String × Json)) : List Json :=
  (members.filter fun (given, _) => given == some name).map (·.2)

/-- The values of the declared fields of a record. -/
def fields? (names : List String) : Json → Option (List (Option Json))
  | .array items =>
    if items.length ≤ names.length then
      some (items.map some ++ List.replicate (names.length - items.length) none)
    else none
  | .object members =>
    if members.any fun (given, _) => given.isNone then none
    else names.mapM fun name =>
      match valuesOf name members with
      | [] => some none
      | [value] => some (some value)
      | _ => none
  | _ => none

/-- The elements of an array, each of them decoded. -/
def arrayOf? {α : Type} (decode : Json → Option α) : Json → Option (List α)
  | .array items => items.mapM decode
  | _ => none

end MissionText.Json
