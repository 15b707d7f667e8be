import MissionText.Catalog
import MissionText.Json.Reader
import MissionText.Json.Record

/-!
# Catalog files

A catalog file is a record with a list of modules, which are records in turn.
What it lists is added to the components of the base game.
-/

namespace MissionText

/-- The kind that a value stands for: its name, or an object that holds
nothing under the name alone. -/
def ModuleKind.ofJson? (value : Json) : Option ModuleKind :=
  let name? := match value with
    | .string text => text
    | .object [(name, .null)] => name
    | _ => none
  match name? with
  | some "solvable" => some .solvable
  | some "needy" => some .needy
  | _ => none

/-- The module that a record stands for. It is enabled unless the record says
otherwise. -/
def BombModule.ofJson? (value : Json) : Option BombModule := do
  match ← value.fields? ["id", "name", "kind", "enabled"] with
  | [some id, some name, some kind, enabled] =>
    let enabled ← match enabled with
      | none => some true
      | some (.bool enabled) => some enabled
      | some _ => none
    pure ⟨← id.text?, ← name.text?, ← ModuleKind.ofJson? kind, enabled⟩
  | _ => none

/-- The catalog that a file describes. -/
def Catalog.ofFile? (text : String) : Option Catalog := do
  let value ← Json.read? text
  match ← value.fields? ["modules"] with
  | [none] => pure .vanilla
  | [some listed] => (listed.arrayOf? BombModule.ofJson?).map Catalog.ofModules
  | _ => none

end MissionText
