import MissionText.Text.Lowercase

/-!
# Factory modes

A factory hands out bombs one after another, a fixed number of them or without
end, and may run one clock or one strike count across all of them. The nine
ways to do so are known by keywords whose case does not matter.
-/

namespace MissionText

/-- A way in which a factory hands out bombs. -/
inductive FactoryMode where
  | static
  | finite
  | finiteTime
  | finiteStrikes
  | finiteTimeStrikes
  | infinite
  | infiniteTime
  | infiniteStrikes
  | infiniteTimeStrikes
  deriving DecidableEq, Repr

namespace FactoryMode

/-- The modes in the order in which they are listed. -/
def all : List FactoryMode :=
  [static, finite, finiteTime, finiteStrikes, finiteTimeStrikes, infinite, infiniteTime,
    infiniteStrikes, infiniteTimeStrikes]

/-- The keyword of a mode. -/
def id : FactoryMode → String
  | static => "static"
  | finite => "finite"
  | finiteTime => "finitegtime"
  | finiteStrikes => "finitegstrikes"
  | finiteTimeStrikes => "finitegtimestrikes"
  | infinite => "infinite"
  | infiniteTime => "infinitegtime"
  | infiniteStrikes => "infinitegstrikes"
  | infiniteTimeStrikes => "infinitegtimestrikes"

/-- The description under which a mode is shown. -/
def displayName : FactoryMode → String
  | static => "Factory: Static"
  | finite => "Factory: Finite"
  | finiteTime => "Factory: Finite + global time"
  | finiteStrikes => "Factory: Finite + global strikes"
  | finiteTimeStrikes => "Factory: Finite + global time and strikes"
  | infinite => "Factory: Infinite"
  | infiniteTime => "Factory: Infinite + global time"
  | infiniteStrikes => "Factory: Infinite + global strikes"
  | infiniteTimeStrikes => "Factory: Infinite + global time and strikes"

/-- The count that a mode implies, which is its place in the list. -/
def implicitCount (mode : FactoryMode) : Nat := all.idxOf mode

/-- The mode with a keyword, in any ASCII case. -/
def ofKeyword? (keyword : String) : Option FactoryMode :=
  all.find? fun mode => Text.sameKeyword mode.id.toList keyword.toList

/-- Every mode is found by its keyword. -/
@[simp] theorem ofKeyword?_id (mode : FactoryMode) : ofKeyword? mode.id = some mode := by
  cases mode <;> decide

end FactoryMode

end MissionText
