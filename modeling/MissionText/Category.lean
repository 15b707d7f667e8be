import MissionText.BombModule

/-!
# Categories

Six reserved identifiers stand for a whole category of modules: those of one
kind, drawn from the base game, from the mods or from both. A category is
determined by these two parts (`ofParts?_parts`), so a pool that draws from it
can always be written by its identifier.
-/

namespace MissionText

/-- Where the modules of a category are drawn from. -/
structure Sources where
  /-- Whether components of the base game are drawn. -/
  base : Bool
  /-- Whether modules added by mods are drawn. -/
  mods : Bool
  deriving DecidableEq, Repr

namespace Sources

/-- No source at all, as for a pool that names its modules. -/
def none : Sources := ⟨false, false⟩

/-- The sources as a list of flag names with bars between them. -/
def written (sources : Sources) : String :=
  " | ".intercalate ((if sources.base then ["BASE"] else []) ++
    (if sources.mods then ["MODS"] else []))

end Sources

/-- A reserved identifier that stands for a category of modules. -/
inductive Category where
  | allSolvable
  | allNeedy
  | allVanilla
  | allMods
  | allVanillaNeedy
  | allModsNeedy
  deriving DecidableEq, Repr

namespace Category

/-- The categories in the order in which they are listed. -/
def all : List Category :=
  [allSolvable, allNeedy, allVanilla, allMods, allVanillaNeedy, allModsNeedy]

/-- The reserved identifier of a category. -/
def id : Category → String
  | allSolvable => "ALL_SOLVABLE"
  | allNeedy => "ALL_NEEDY"
  | allVanilla => "ALL_VANILLA"
  | allMods => "ALL_MODS"
  | allVanillaNeedy => "ALL_VANILLA_NEEDY"
  | allModsNeedy => "ALL_MODS_NEEDY"

/-- The description under which a category is shown. -/
def displayName : Category → String
  | allSolvable => "[All solvable modules]"
  | allNeedy => "[All needy modules]"
  | allVanilla => "[All vanilla solvable modules]"
  | allMods => "[All mod solvable modules]"
  | allVanillaNeedy => "[All vanilla needy modules]"
  | allModsNeedy => "[All mod needy modules]"

/-- The kind of the modules in a category. -/
def kind : Category → ModuleKind
  | allSolvable | allVanilla | allMods => .solvable
  | allNeedy | allVanillaNeedy | allModsNeedy => .needy

/-- Where a category draws its modules from. -/
def sources : Category → Sources
  | allSolvable | allNeedy => ⟨true, true⟩
  | allVanilla | allVanillaNeedy => ⟨true, false⟩
  | allMods | allModsNeedy => ⟨false, true⟩

/-- The category with a reserved identifier, matched exactly. -/
def ofId? (id : String) : Option Category := all.find? (·.id == id)

/-- The category with the given parts. There is none without a source. -/
def ofParts? (kind : ModuleKind) (sources : Sources) : Option Category :=
  all.find? fun category => category.kind == kind && category.sources == sources

theorem mem_all (category : Category) : category ∈ all := by
  cases category <;> decide

/-- Every category is found by its identifier. -/
@[simp] theorem ofId?_id (category : Category) : ofId? category.id = some category := by
  cases category <;> decide

/-- **Every category is found by its parts.** -/
@[simp] theorem ofParts?_parts (category : Category) :
    ofParts? category.kind category.sources = some category := by
  cases category <;> decide

theorem id_of_ofId? {id : String} {category : Category} (h : ofId? id = some category) :
    category.id = id := by
  simpa using List.find?_some h

end Category

/-- The flag name of the categories of a kind. -/
def ModuleKind.categoryName : ModuleKind → String
  | .solvable => "AllSolvable"
  | .needy => "AllNeedy"

end MissionText
