import MissionText.FactoryMode
import MissionText.Mission.Pool

/-!
# Missions

A mission as a host plays it: limits, switches, and the pools from which its
modules are drawn.
-/

namespace MissionText

/-- A mission that can be played. -/
structure Mission where
  /-- The time limit in seconds. -/
  timeLimit : Nat
  strikeLimit : Nat
  pacing : Bool
  frontFaceOnly : Bool
  widgetCount : Option Nat
  /-- The seconds before needy modules become active. -/
  needyActivationDelay : Option Nat
  factoryMode : Option FactoryMode
  pools : List Pool
  deriving DecidableEq, Repr

namespace Mission

/-- The name under which a mission from a mission line is shown. -/
def displayName : String := "Custom Freeplay"

/-- The number of modules that some pools ask for. -/
def countOf (pools : List Pool) : Nat := pools.foldr (fun pool total => pool.count + total) 0

/-- The number of modules of a mission. -/
def moduleCount (mission : Mission) : Nat := countOf mission.pools

end Mission

end MissionText
