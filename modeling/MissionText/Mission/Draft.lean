import MissionText.Mission
import MissionText.Scan
import MissionText.Text.Numeral

/-!
# Drafts

A mission line is read token by token into a draft, which holds what has been
said so far and all that is wrong with it. Nothing stops the reading early.
The first time, strike limit and factory mode are the ones that count, and
repeating one of them is reported once; of the other settings the last one
counts. A draft without problems becomes a mission.
-/

namespace MissionText

/-- What the tokens read so far have said. -/
structure Draft where
  /-- What is wrong, in the order in which it was found. -/
  problems : List Diagnostic := []
  timeLimit : Option Nat := none
  strikeLimit : Option Nat := none
  pacing : Bool := true
  frontFaceOnly : Bool := false
  widgetCount : Option Nat := none
  needyActivationDelay : Option Nat := none
  /-- The factory setting that counts, if there was one, and its mode, if it
  has one. -/
  factory : Option (Option FactoryMode) := none
  pools : List Pool := []
  /-- Whether some pool yields only modules that are to be solved. -/
  anySolvable : Bool := false
  deriving DecidableEq, Repr

namespace Draft

/-- Add a problem. -/
def report (draft : Draft) (problem : Diagnostic) : Draft :=
  { draft with problems := draft.problems ++ [problem] }

/-- Add a problem unless it is known already. -/
def reportOnce (draft : Draft) (problem : Diagnostic) : Draft :=
  if problem ∈ draft.problems then draft else draft.report problem

/-- Add a problem under a condition. -/
def reportIf (draft : Draft) (condition : Bool) (problem : Diagnostic) : Draft :=
  if condition then draft.report problem else draft

/-- Take in a time limit in seconds. -/
def addTime (draft : Draft) (total : Nat) : Draft :=
  match draft.timeLimit with
  | some _ => draft.reportOnce .timeSpecifiedMultipleTimes
  | none => { draft with timeLimit := some total }.reportIf (total == 0) .invalidTimeLimit

/-- Take in a strike limit. Zero stands for one that is no number. -/
def addStrikes (draft : Draft) (count : Nat) : Draft :=
  match draft.strikeLimit with
  | some _ => draft.reportOnce .strikeLimitSpecifiedMultipleTimes
  | none => { draft with strikeLimit := some count }.reportIf (count == 0) .invalidStrikeLimit

/-- Take in a factory setting with the given value. -/
def addFactory (draft : Draft) (context : Context) (value : String) : Draft :=
  match draft.factory with
  | some _ => draft.reportOnce .factorySpecifiedMultipleTimes
  | none =>
    if context.factoryEnabled then
      let mode := FactoryMode.ofKeyword? value
      { draft with factory := some mode }.reportIf mode.isNone .invalidFactoryMode
    else draft.report .factoryNotEnabled

/-- The number that a setting is set to. -/
def settingNumber? (value : String) : Option Nat :=
  Text.unsigned? Text.settingBound value.toList

/-- Take in a setting. One that needs a value and has none is passed over. -/
def addSetting (draft : Draft) (context : Context) (setting : SettingToken) : Draft :=
  match setting.name, setting.value? with
  | .strikes, some value => draft.addStrikes ((settingNumber? value).getD 0)
  | .needyActivationTime, some value =>
    match settingNumber? value with
    | some seconds => { draft with needyActivationDelay := some seconds }
    | none => draft.report .invalidNeedyActivationTime
  | .widgets, some value =>
    match settingNumber? value with
    | some count => { draft with widgetCount := some count }
    | none => draft.report .invalidWidgetCount
  | .strikes, none | .needyActivationTime, none | .widgets, none => draft
  | .noPacing, _ => { draft with pacing := false }
  | .frontOnly, _ => { draft with frontFaceOnly := true }
  | .factory, value => draft.addFactory context (value.getD "")

/-- Take in a pool, of one module if it has no count. It is kept even if
something is wrong with it, so that its modules are counted. -/
def addPool (draft : Draft) (context : Context) (token : PoolToken) : Draft :=
  let count := token.count.getD 1
  let resolution := context.resolvePool token
  let counted := draft.reportIf (count == 0) .invalidPoolCount
  { counted with
    problems := counted.problems ++ resolution.problems
    pools := counted.pools ++ [⟨count, resolution.contents⟩]
    anySolvable := counted.anySolvable || resolution.solvable }

/-- Take in a token. -/
def add (context : Context) (draft : Draft) (token : Token) : Draft :=
  match token.kind with
  | .time time => draft.addTime time.total
  | .strikes count => draft.addStrikes count
  | .setting setting => draft.addSetting context setting
  | .pool pool => draft.addPool context pool

/-- The draft of some tokens. -/
def ofTokens (context : Context) (tokens : List Token) : Draft := tokens.foldl (add context) {}

/-- The seconds given for each module where no time limit is given. -/
def secondsPerModule : Nat := 120

/-- The strike limit of a mission with this many modules where none is given:
one strike for every dozen, but at least three. -/
def defaultStrikes (count : Nat) : Nat := max 3 (min (count / 12) (Text.settingBound - 1))

/-- The problems of a draft as a whole: a mission needs modules to be solved,
and a casing that holds all of them. -/
def totalProblems (draft : Draft) (context : Context) : List Diagnostic :=
  let count := Mission.countOf draft.pools
  (if draft.anySolvable then [] else [.noSolvableModules]) ++
    (if count > context.maxModules then [.tooManyModules count context.maxModules] else [])

/-- The mission of a finished draft, or all that is wrong with it. -/
def finish (draft : Draft) (context : Context) : Except (List Diagnostic) Mission :=
  match draft.problems ++ draft.totalProblems context with
  | [] =>
    let count := Mission.countOf draft.pools
    .ok {
      timeLimit := draft.timeLimit.getD (count * secondsPerModule)
      strikeLimit := draft.strikeLimit.getD (defaultStrikes count)
      pacing := draft.pacing
      frontFaceOnly := draft.frontFaceOnly
      widgetCount := draft.widgetCount
      needyActivationDelay := draft.needyActivationDelay
      factoryMode := draft.factory.join
      pools := draft.pools }
  | problems => .error problems

end Draft

/-- What came of reading a mission line. -/
structure Reading where
  text : String
  scan : Scan
  /-- Whether the tokens account for the whole line. -/
  covered : Bool
  result : Except (List Diagnostic) Mission

namespace Mission

/-- Read a mission line. -/
def read (context : Context) (text : String) : Reading :=
  let scan := Scan.ofText text
  let covered := scan.covers text
  { text, scan, covered
    result :=
      if covered then (Draft.ofTokens context scan.tokens).finish context
      else .error [.syntaxError] }

/-- The mission that a line describes, or all that is wrong with it. There are
no partial missions. -/
def parse (context : Context) (text : String) : Except (List Diagnostic) Mission :=
  (read context text).result

end Mission

end MissionText
