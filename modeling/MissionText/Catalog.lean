import MissionText.BombModule
import MissionText.Ordered

/-!
# Catalogs and profiles

A catalog holds the modules the host knows, one to an identifier, in ascending
order of the identifiers' bytes. It starts with the components of the base
game, and inserting a module takes the place of an earlier one with the same
identifier. A profile is a named preset that leaves out some modules; resolved
against a catalog it stands for the enabled modules of one kind that it does
not leave out.
-/

namespace MissionText

/-- The order in which modules are kept: by identifier. -/
def BombModule.order : BombModule → BombModule → Ordering := compareOn BombModule.id

/-- The modules the host knows, in ascending order of their identifiers. -/
structure Catalog where
  modules : List BombModule
  deriving DecidableEq, Repr

/-- Which modules a profile was made for: an expert's profile is offered
always, a defuser's only where it leaves something out. -/
inductive ProfileKind where
  | expert
  | defuser
  deriving DecidableEq, Repr

/-- A preset: every module except those left out. -/
structure Profile where
  kind : ProfileKind
  /-- The identifiers of the modules left out. -/
  disabled : List String
  deriving DecidableEq, Repr

/-- The order in which identifiers are kept: by their bytes. -/
def idOrder : String → String → Ordering := compare

/-- The profile that leaves out the listed identifiers, kept in order and each
of them once. -/
def Profile.leavingOut (kind : ProfileKind) (ids : List String) : Profile :=
  ⟨kind, Ordered.ofList idOrder ids⟩

/-- The order in which named values are kept: by name. -/
def nameOrder {β : Type} : String × β → String × β → Ordering := compareOn Prod.fst

/-- Profiles by name, in ascending order of the names. -/
structure Profiles where
  entries : List (String × Profile)
  deriving DecidableEq, Repr

namespace Profiles

/-- No profiles. -/
def none : Profiles := ⟨[]⟩

/-- The profiles with one more, which replaces an earlier one of its name. -/
def insert (profiles : Profiles) (name : String) (profile : Profile) : Profiles :=
  ⟨Ordered.insert nameOrder (name, profile) profiles.entries⟩

/-- The profiles of a list of named ones, in which later ones win. -/
def ofList (entries : List (String × Profile)) : Profiles :=
  ⟨Ordered.ofList nameOrder entries⟩

/-- The profile of a name. -/
def get? (profiles : Profiles) (name : String) : Option Profile :=
  (profiles.entries.find? (·.1 == name)).map (·.2)

end Profiles

namespace Catalog

/-- The catalog with one more module, which replaces an earlier one of its
identifier. -/
def insert (catalog : Catalog) (added : BombModule) : Catalog :=
  ⟨Ordered.insert BombModule.order added catalog.modules⟩

/-- The catalog with the modules of a list, in which later ones win. -/
def extend (catalog : Catalog) (added : List BombModule) : Catalog := added.foldl insert catalog

/-- The catalog of the components of the base game, all enabled. -/
def vanilla : Catalog := extend ⟨[]⟩ (Component.all.map Component.asModule)

/-- The components of the base game and the modules of a list, in which later
ones win. -/
def ofModules (added : List BombModule) : Catalog := vanilla.extend added

/-- The module with an identifier, matched exactly. -/
def get? (catalog : Catalog) (id : String) : Option BombModule :=
  catalog.modules.find? (·.id == id)

/-- The identifiers of the enabled modules of a kind, ascending. -/
def enabledOfKind (catalog : Catalog) (kind : ModuleKind) : List String :=
  (catalog.modules.filter fun known => known.enabled && known.kind == kind).map (·.id)

/-- The identifiers that a profile stands for, ascending: the enabled modules
of a kind that it does not leave out. -/
def resolve (catalog : Catalog) (profile : Profile) (kind : ModuleKind) : List String :=
  (catalog.enabledOfKind kind).filter fun id => !profile.disabled.contains id

/-- Whether a profile is worth offering for a kind of modules. A defuser's
profile is not, if it leaves out no known module of that kind. -/
def isAffectedBy (catalog : Catalog) (profile : Profile) (kind : ModuleKind) : Bool :=
  profile.kind == .expert ||
    profile.disabled.any fun id => (catalog.get? id).any (·.kind == kind)

/-- **Inserting keeps the modules in order.** -/
theorem ascending_insert {catalog : Catalog}
    (h : Ordered.Ascending BombModule.order catalog.modules) (added : BombModule) :
    Ordered.Ascending BombModule.order (catalog.insert added).modules :=
  have : Std.TransCmp BombModule.order := inferInstanceAs (Std.TransCmp (compareOn BombModule.id))
  Ordered.pairwise_insert h added

/-- The vanilla catalog knows fourteen modules. -/
example : vanilla.modules.length = 14 := by decide

end Catalog

end MissionText
