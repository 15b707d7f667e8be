import MissionText.Completion.Edit
import MissionText.Hover
import MissionText.Json
import MissionText.Mission.Filling
import MissionText.Mission.Written

/-!
# Records

What commands write for a program to read. Missions, edits and what is wrong
with a line are written with their members in alphabetical order, candidates
and identifiers with the most telling ones first.
-/

namespace MissionText

/-- A natural number that may be missing. -/
def Json.ofCount (count : Option Nat) : Json := Json.ofOption Json.ofNat count

/-- A stretch as a record. -/
def Span.record (span : Span) : Json :=
  .record [("start", .ofNat span.start), ("len", .ofNat span.length)]

/-- A factory mode as a record. -/
def FactoryMode.record (mode : FactoryMode) : Json :=
  .record [("display_name", .ofText mode.displayName), ("id", .ofText mode.id),
    ("implicit_count", .ofNat mode.implicitCount)]

/-- The name of a component in a record, which is its identifier. -/
def Component.record (component : Component) : Json := .ofText component.id

/-- A pool as a record. -/
def FilledPool.record (pool : FilledPool) : Json :=
  .record [("allowed_sources", .ofText pool.sources.written),
    ("category_types", .ofList Component.record pool.components),
    ("count", .ofNat pool.count),
    ("explicit_identifiers", .ofList .ofText pool.ids),
    ("special_kind", .ofOption (fun kind => .ofText kind.categoryName) pool.categoryKind)]

/-- A mission as a record. -/
def Mission.record (mission : Mission) : Json :=
  .record [("factory_mode", .ofOption FactoryMode.record mission.factoryMode),
    ("front_face_only", .bool mission.frontFaceOnly),
    ("needy_activation_delay", .ofCount mission.needyActivationDelay),
    ("pacing_enabled", .bool mission.pacing),
    ("pools", .ofList FilledPool.record mission.filled.pools),
    ("strike_limit", .ofNat mission.strikeLimit),
    ("time_limit_seconds", .ofNat mission.timeLimit),
    ("widget_count", .ofCount mission.widgetCount)]

/-- What came of reading a mission line as a record. -/
def Reading.record (reading : Reading) : Json :=
  match reading.result with
  | .ok mission =>
    .record [("canonical", .ofText mission.written), ("mission", mission.record),
      ("ok", .bool true)]
  | .error problems =>
    .record [("diagnostics", .ofList (fun problem => .ofText problem.message) problems),
      ("ok", .bool false)]

/-- The word for the string in which a piece is marked. -/
def HighlightTarget.word : HighlightTarget → String
  | .label => "label"
  | .id => "id"

/-- A candidate as a record. -/
def Candidate.record (candidate : Candidate) : Json :=
  .record [("replacement_id", .ofText candidate.id), ("label", .ofText candidate.label),
    ("highlight", .record [("target", .ofText candidate.highlight.target.word),
      ("start", .ofNat candidate.highlight.start), ("len", .ofNat candidate.highlight.length)]),
    ("selectable", .bool candidate.selectable)]

/-- An edit as a record. -/
def Edit.record (edit : Edit) : Json :=
  .record [("cursor", .ofNat edit.cursor), ("text", .ofText edit.text)]

/-- An identifier under a pointer as a record. -/
def Hover.record (hover : Hover) : Json :=
  .record [("id", .ofText hover.id), ("display_name", .ofOption .ofText hover.displayName),
    ("span", hover.span.record)]

end MissionText
