import MissionText.Completion.Candidate
import MissionText.Completion.Entry
import MissionText.Completion.Stub
import MissionText.FactoryMode

/-!
# Suggestions

The candidates for what is being typed before a cursor. A time, a strike limit
or a setting is explained; a factory setting is completed to the modes that
begin with its value; and the last identifier of a pool is completed to the
entries that begin with it, by identifier or else by label. A bare number may
still become a time, a strike limit or a count, so these come first.
-/

namespace MissionText

/-- The explanation of a time. -/
def explainTime (time : TimeToken) : Candidate :=
  let hours := match time.hours with
    | some hours => toString hours ++ "h "
    | none => ""
  .explaining "Time: " (hours ++ toString time.minutes ++ "m " ++ toString time.seconds ++ "s")

/-- The explanation of a strike limit, as it was typed. -/
def explainStrikes (typed : List Char) : Candidate :=
  .explaining "Strike limit: " (String.ofList typed)

/-- The explanation of a setting. -/
def explainSetting (setting : SettingToken) : Candidate :=
  .explaining (setting.rawName ++ ": ") (setting.rawValue.getD "")

/-- The explanation of a factory setting where there is no factory. -/
def explainNoFactory (setting : SettingToken) : Candidate :=
  let id := setting.rawName ++ ":" ++ setting.rawValue.getD ""
  ⟨id, "[Factory is not enabled]", ⟨.id, 0, id.utf8ByteSize⟩, false⟩

/-- The factory modes that begin with a value. -/
def suggestModes (value : String) : List Candidate :=
  FactoryMode.all.filterMap fun mode =>
    (Text.matched? mode.id.toList value.toList).map fun found =>
      .byId ("factory:" ++ mode.id) mode.displayName ("factory:".utf8ByteSize + Text.width found)

/-- What a number without anything after it may become. -/
def suggestNumber (digits : String) : List Candidate :=
  let length := digits.utf8ByteSize
  [.byId (digits ++ ":00") "[Set time]" length, .byId (digits ++ "X") "[Set strike limit]" length,
    .byId (digits ++ "*") "[Set module pool count]" length]

/-- The candidate for an entry, if the entry begins with what is typed. -/
def candidateOf? (typed : List Char) (entry : Entry) : Option Candidate :=
  match Text.matched? entry.id.toList typed with
  | some found => some (.byId entry.id entry.label (Text.width found))
  | none =>
    (Text.matched? entry.label.toList typed).map fun found =>
      .byLabel entry.id entry.label (Text.width found)

/-- Whether a pool is nothing but a number so far. -/
def PoolToken.isNumber (pool : PoolToken) : Bool :=
  pool.count.isNone && !pool.idList.isEmpty && pool.idList.toList.all Char.isDigit

namespace Context

/-- The candidates for a setting. -/
def suggestSetting (context : Context) (setting : SettingToken) : List Candidate :=
  if setting.name ≠ .factory then [explainSetting setting]
  else if !context.factoryEnabled then [explainNoFactory setting]
  else suggestModes (setting.rawValue.getD "")

/-- The candidates for the last identifier of a pool. -/
def suggestPool (context : Context) (pool : PoolToken) : List Candidate :=
  (if pool.isNumber then suggestNumber pool.stub else []) ++
    context.entries.filterMap (candidateOf? pool.stub.toList)

/-- The candidates for what is being typed at the end of a text. -/
def suggestAfter (context : Context) (before : List Char) : List Candidate :=
  match inProgress? before with
  | none => []
  | some token =>
    match token.kind with
    | .time time => [explainTime time]
    | .strikes _ => [explainStrikes (Text.cut before token.span.start).2]
    | .setting setting => context.suggestSetting setting
    | .pool pool => context.suggestPool pool

/-- The candidates for what is being typed before a cursor. -/
def suggest (context : Context) (text : String) (cursor : Nat) : List Candidate :=
  context.suggestAfter (Text.cut text.toList cursor).1

end Context

end MissionText
