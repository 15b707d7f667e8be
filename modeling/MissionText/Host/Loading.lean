import MissionText.Host.CatalogFile
import MissionText.Host.ProfileFile

/-!
# Loading

From what a host has read to what missions are read with. A catalog that is
asked for has to be there and be a catalog; a directory of profiles has to be
there, whatever is in it. Where none is asked for, there are the components of
the base game and no profiles.
-/

namespace MissionText

/-- Why a catalog or profiles could not be loaded. -/
inductive LoadFailure where
  | unreadable (path : String) (failure : ReadFailure)
  | invalidCatalog (path : String)
  deriving DecidableEq, Repr

/-- The message shown for a failure. -/
def LoadFailure.message : LoadFailure → String
  | unreadable path failure => "failed to read " ++ path ++ ": " ++ failure.reason
  | invalidCatalog path => "invalid catalog " ++ path ++ ": not a list of modules"

/-- A file or directory that was asked for: its path, and what reading it
gave. -/
structure Asked (α : Type) where
  path : String
  content : Except ReadFailure α

/-- The text of a file that was asked for. -/
def Asked.text (asked : Asked ByteArray) : Except LoadFailure String :=
  match asked.content.bind unicodeText with
  | .ok text => .ok text
  | .error failure => .error (.unreadable asked.path failure)

/-- The catalog to read missions with. -/
def Catalog.load : Option (Asked ByteArray) → Except LoadFailure Catalog
  | none => .ok .vanilla
  | some asked => do
    match Catalog.ofFile? (← asked.text) with
    | some catalog => .ok catalog
    | none => .error (.invalidCatalog asked.path)

/-- The profiles to read missions with, where `decode` tells which profile a text
describes. -/
def Profiles.loadWith (decode : String → Option Profile) :
    Option (Asked Listing) → Except LoadFailure Profiles
  | .none => .ok .none
  | some asked =>
    match asked.content with
    | .ok listing => .ok (.ofListing decode listing)
    | .error failure => .error (.unreadable asked.path failure)

/-- The profiles to read missions with, each described by a profile file. -/
def Profiles.load : Option (Asked Listing) → Except LoadFailure Profiles :=
  loadWith Profile.ofFile?

end MissionText
