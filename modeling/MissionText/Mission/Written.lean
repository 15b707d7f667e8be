import MissionText.Mission.Draft

/-!
# Written missions

Every mission can be written as a mission line that is read as the same
mission. Defaults are written out, and a pool that was given by a profile is
written by the modules the profile stood for.
-/

namespace MissionText

/-- A time limit. The fields fill up from the hours down and hold nine digits
at most, so every total that a time can express is written as a time. -/
def writtenTime (total : Nat) : String :=
  let hours := min (total / 3600) Text.fieldMax
  let rest := total - hours * 3600
  let minutes := min (rest / 60) Text.fieldMax
  let seconds := rest - minutes * 60
  if hours > 0 then
    toString hours ++ ":" ++ Text.twoDigits minutes ++ ":" ++ Text.twoDigits seconds
  else toString minutes ++ ":" ++ Text.twoDigits seconds

/-- A strike limit. One of more than nine digits has to be a setting. -/
def writtenStrikes (count : Nat) : String :=
  if count ≤ Text.fieldMax then toString count ++ "X" else "strikes:" ++ toString count

/-- An identifier, in quotes if it holds a blank. -/
def writtenId (id : String) : String := if Text.hasBlank id then "\"" ++ id ++ "\"" else id

namespace Contents

/-- What a pool draws from, as the list of a pool. -/
def written : Contents → String
  | .category drawn => drawn.id
  | .named ids => ",".intercalate (ids.map writtenId)

end Contents

namespace Pool

/-- A pool, with its count. -/
def written (pool : Pool) : String := toString pool.count ++ "*" ++ pool.contents.written

end Pool

namespace Mission

/-- The tokens of a mission as they are written. -/
def writtenTokens (mission : Mission) : List String :=
  [writtenTime mission.timeLimit, writtenStrikes mission.strikeLimit] ++
    (mission.widgetCount.map fun count => "widgets:" ++ toString count).toList ++
    (mission.needyActivationDelay.map fun delay =>
      "needyactivationtime:" ++ toString delay).toList ++
    (if mission.pacing then [] else ["nopacing"]) ++
    (if mission.frontFaceOnly then ["frontonly"] else []) ++
    (mission.factoryMode.map fun mode => "factory:" ++ mode.id).toList ++
    mission.pools.map Pool.written

/-- A mission as a mission line. -/
def written (mission : Mission) : String := " ".intercalate mission.writtenTokens

/-- Whether a mission is read back from its own line. -/
def readsBack (context : Context) (mission : Mission) : Bool :=
  match parse context mission.written with
  | .ok again => again == mission
  | .error _ => false

end Mission

end MissionText
