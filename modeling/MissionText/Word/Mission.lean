import MissionText.Mission.Written
import MissionText.Word

/-!
# Missions in words

What a machine works out for a mission: the seconds of a time limit, the number
of modules, the limits that hold where none are given, and the fields in which a
time limit is written. The sums are made in the order in which they are met, and
a limit by default is worked out even where it is not needed.
-/

namespace MissionText

namespace Word

/-- The seconds of a time limit. -/
def total (time : TimeToken) : Word Nat := do
  let hours ← product (time.hours.getD 0) 3600
  let minutes ← product time.minutes 60
  let both ← sum hours minutes
  sum both time.seconds

/-- Take in a token. A time limit is only worked out if there was none before. -/
def add (context : Context) (draft : Draft) (token : Token) : Word Draft :=
  match token.kind, draft.timeLimit with
  | .time time, none => return draft.addTime (← total time)
  | .time _, some _ => return draft.reportOnce .timeSpecifiedMultipleTimes
  | _, _ => return draft.add context token

/-- The number of modules that some pools ask for. -/
def countOf (pools : List Pool) : Word Nat :=
  pools.foldlM (fun total pool => sum total pool.count) 0

/-- The mission of a finished draft, or all that is wrong with it. The default
of the strike limit is kept in half a word. -/
def finish (draft : Draft) (context : Context) : Word (Except (List Diagnostic) Mission) := do
  let count ← countOf draft.pools
  let unsolvable := if draft.anySolvable then [] else [.noSolvableModules]
  let tooMany :=
    if count > context.maxModules then [.tooManyModules count context.maxModules] else []
  match draft.problems ++ (unsolvable ++ tooMany) with
  | [] =>
    let strikes ← half (count / 12)
    let seconds ← product count Draft.secondsPerModule
    return .ok {
      timeLimit := draft.timeLimit.getD seconds
      strikeLimit := draft.strikeLimit.getD (max 3 strikes)
      pacing := draft.pacing
      frontFaceOnly := draft.frontFaceOnly
      widgetCount := draft.widgetCount
      needyActivationDelay := draft.needyActivationDelay
      factoryMode := draft.factory.join
      pools := draft.pools }
  | problems => return .error problems

/-- The mission that a line describes, or all that is wrong with it. -/
def parse (context : Context) (text : String) : Word (Except (List Diagnostic) Mission) := do
  let scan := Scan.ofText text
  if scan.covers text then
    let draft ← scan.tokens.foldlM (add context) {}
    finish draft context
  else return .error [.syntaxError]

/-- The fields in which a time limit is written. Hours that are none are left
out. -/
def timeFields (total : Nat) : Word TimeToken := do
  let hours := min (total / 3600) Text.fieldMax
  let rest ← difference total (← product hours 3600)
  let minutes := min (rest / 60) Text.fieldMax
  let seconds ← difference rest (← product minutes 60)
  return ⟨if hours > 0 then some hours else none, minutes, seconds⟩

end Word

end MissionText
