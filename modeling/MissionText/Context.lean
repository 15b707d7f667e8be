import MissionText.Catalog

/-!
# Contexts

What the host supplies to every reading of a mission line: the modules and
profiles it knows, and what it can build.
-/

namespace MissionText

/-- The largest number of modules in any casing, unless the host says
otherwise. -/
def defaultMaxModules : Nat := 11

/-- What the host knows and allows. -/
structure Context where
  catalog : Catalog := .vanilla
  profiles : Profiles := .none
  /-- The largest number of modules any bomb casing can hold. -/
  maxModules : Nat := defaultMaxModules
  /-- Whether missions may ask for a factory. -/
  factoryEnabled : Bool := false
  deriving DecidableEq, Repr

end MissionText
