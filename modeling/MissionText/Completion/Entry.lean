import MissionText.Category
import MissionText.Context

/-!
# Completion entries

Everything that can stand at the place of an identifier, with what is shown
for it: the modules of the catalog, the categories, the settings, and the
profiles that are worth offering. Entries are in ascending order of their
identifiers, and of their labels where identifiers are the same, and no two of
them are the same.
-/

namespace MissionText

/-- Something that can be completed: an identifier and what to show for it. -/
structure Entry where
  id : String
  label : String
  deriving DecidableEq, Repr

/-- The order of entries: by identifier, then by label. -/
def Entry.order : Entry → Entry → Ordering :=
  compareLex (compareOn Entry.id) (compareOn Entry.label)

/-- The entries for the settings that can be completed. -/
def settingEntries (factoryEnabled : Bool) : List Entry :=
  [⟨"frontonly", "[Front face only]"⟩, ⟨"nopacing", "[Disable pacing events]"⟩,
    ⟨"widgets:", "[Set widget count]"⟩,
    ⟨"needyactivationtime:", "[Set needy activation time in seconds]"⟩] ++
    (if factoryEnabled then [⟨"factory:", "[Set Factory mode]"⟩] else [])

/-- The entry for a named profile and the modules of a kind. -/
def profileEntry (name : String) : ModuleKind → Entry
  | .solvable => ⟨"profile:" ++ name, name ++ " (solvable modules enabled by profile)"⟩
  | .needy => ⟨"needyprofile:" ++ name, name ++ " (needy modules enabled by profile)"⟩

namespace Context

/-- The entries for the profiles, each under the kinds of modules for which it
is worth offering. -/
def profileEntries (context : Context) : List Entry :=
  context.profiles.entries.flatMap fun (name, profile) =>
    ([.solvable, .needy].filter (context.catalog.isAffectedBy profile)).map (profileEntry name)

/-- Everything that can be completed, in order. -/
def entries (context : Context) : List Entry :=
  Ordered.ofList Entry.order
    (context.catalog.modules.map (fun known => ⟨known.id, known.displayName⟩) ++
      Category.all.map (fun category => ⟨category.id, category.displayName⟩) ++
      settingEntries context.factoryEnabled ++ context.profileEntries)

end Context

end MissionText
