import MissionText.Command.Palette
import MissionText.Completion.Candidate
import MissionText.Hover
import MissionText.Mission.Written

/-!
# Reports

What commands show to a reader. Each report is a list of lines.
-/

namespace MissionText

/-- Some lines as a text, each with its end. -/
def textOfLines (lines : List String) : String := String.join (lines.map (· ++ "\n"))

/-- A text with blanks after it up to a number of characters. -/
def padded (count : Nat) (text : String) : String :=
  text ++ String.ofList (List.replicate (count - text.length) ' ')

/-- A stretch as its first offset and the one after its last. -/
def Span.shown (span : Span) : String := toString span.start ++ ".." ++ toString span.stop

namespace Palette

/-- The title of a part of a report, with an empty line before it. -/
def title (palette : Palette) (name : String) : List String :=
  ["", palette.paint .gray ("━━━ " ++ name ++ " ━━━")]

/-- The marked piece of a text, painted; the whole text as it is, if there is
no such piece. -/
def emphasized (palette : Palette) (text : String) (highlight : Highlight) : String :=
  let cs := text.toList
  let stop := min (highlight.start + highlight.length) text.utf8ByteSize
  let piece? := do
    let (head, _) ← Text.cut? cs highlight.start
    let marked ← Text.slice? cs highlight.start stop
    let (_, tail) ← Text.cut? cs stop
    pure (String.ofList head ++
      palette.paint .bold (palette.paint .green (String.ofList marked)) ++ String.ofList tail)
  piece?.getD text

end Palette

/-! ## Reading a mission line -/

/-- The word for what a token is. -/
def TokenKind.word : TokenKind → String
  | .time _ => "time"
  | .strikes _ => "strikes"
  | .setting _ => "setting"
  | .pool _ => "pool"

/-- A token: where it stands, what it is, and its text. -/
def Token.line (palette : Palette) (text : String) (token : Token) : String :=
  let typed := (Text.slice? text.toList token.span.start token.span.stop).getD []
  "  " ++ palette.paint .yellow token.span.shown ++ " " ++
    palette.paint .blue (padded 8 token.kind.word) ++ " " ++
    palette.paint .dim (String.ofList typed)

/-- What a pool draws from. -/
def Contents.shown : Contents → String
  | .category drawn =>
    drawn.kind.categoryName ++ " ComponentSource(" ++ drawn.sources.written ++ ")"
  | .named ids => ", ".intercalate ids

/-- A pool and its place in the mission. -/
def Pool.line (palette : Palette) (place : Nat) (pool : Pool) : String :=
  "  " ++ palette.paint .gray ("[" ++ toString place ++ "]") ++ " " ++
    palette.paint .yellow (toString pool.count ++ "×") ++ " " ++ palette.paint .dim "│" ++ " " ++
    palette.paint .blue pool.contents.shown

namespace Mission

/-- The values of a mission, each with its label. -/
def rows (palette : Palette) (mission : Mission) : List (String × String) :=
  [("name:", palette.paint .bold displayName),
    ("time:", palette.paint .green (toString mission.timeLimit ++ "s")),
    ("strikes:", palette.paint .green (toString mission.strikeLimit)),
    ("pacing:", toString mission.pacing),
    ("front only:", toString mission.frontFaceOnly)] ++
    (mission.widgetCount.map fun count => ("widgets:", toString count)).toList ++
    (mission.needyActivationDelay.map fun delay =>
      ("needy delay:", toString delay ++ "s")).toList ++
    (mission.factoryMode.map fun mode => ("factory:", mode.displayName)).toList

/-- The report on a mission. -/
def lines (palette : Palette) (mission : Mission) : List String :=
  (mission.rows palette).map (fun (label, value) =>
      "  " ++ palette.paint .dim (padded 12 label) ++ " " ++ value) ++
    (mission.pools.zipIdx.map fun (pool, place) => pool.line palette place) ++
    ["", "  " ++ palette.paint .dim "canonical:" ++ " " ++ palette.paint .cyan mission.written]

end Mission

/-- The report on what came of reading a mission line, up to the title over
the time it took. -/
def Reading.lines (palette : Palette) (reading : Reading) : List String :=
  ["", palette.paint .bold (palette.paint .cyan ("⚙  Parsing: \"" ++ reading.text ++ "\""))] ++
    palette.title "Tokens" ++
    (if reading.scan.tokens.isEmpty then [palette.paint .dim "  No tokens produced"] else []) ++
    reading.scan.tokens.map (Token.line palette reading.text) ++
    (if reading.covered then []
      else ["  " ++ palette.paint .red "✗ scan did not reach the end of the text"]) ++
    (match reading.result with
      | .ok mission => palette.title "Mission" ++ mission.lines palette
      | .error problems =>
        palette.title "Diagnostics" ++
          problems.map fun problem => "  " ++ palette.paint .red "✗" ++ " " ++ problem.message) ++
    palette.title "Timing"

/-- The lines that end the report on a reading: the time it took. -/
def elapsedLines (palette : Palette) (elapsed : String) : List String :=
  ["  Total: " ++ palette.paint .green elapsed, ""]

/-! ## Completion -/

/-- A candidate and its place among the others. -/
def Candidate.line (palette : Palette) (place : Nat) (candidate : Candidate) : String :=
  let shown (target : HighlightTarget) (text : String) :=
    if candidate.highlight.target = target then palette.emphasized text candidate.highlight
    else text
  let id := shown .id candidate.id
  let label := shown .label candidate.label
  let mark :=
    if candidate.selectable then palette.paint .gray ("[" ++ toString place ++ "]")
    else palette.paint .dim " · "
  if id.isEmpty then "  " ++ mark ++ " " ++ label
  else "  " ++ mark ++ " " ++ id ++ " " ++ palette.paint .dim "│" ++ " " ++ label

/-- The report on the candidates before a cursor. The text up to the cursor is
shown with it, or the whole text if the cursor is no place in it. -/
def candidateLines (palette : Palette) (text : String) (cursor : Nat)
    (candidates : List Candidate) : List String :=
  let typed := match Text.cut? text.toList cursor with
    | some (before, _) => String.ofList before
    | none => text
  [palette.paint .dim ("cursor " ++ toString cursor ++ ":") ++ " " ++
      palette.paint .cyan ("\"" ++ typed ++ "\"")] ++
    (if candidates.isEmpty then [palette.paint .dim "  No candidates"] else []) ++
    candidates.zipIdx.map fun (candidate, place) => candidate.line palette place

/-- The report on the identifier under a pointer. -/
def hoverLines (palette : Palette) : Option Hover → List String
  | none => [palette.paint .dim "No identifier here"]
  | some hover =>
    [palette.paint .bold hover.id ++ " " ++ palette.paint .dim "│" ++ " " ++
        palette.paint .blue (hover.displayName.getD "(unknown)"),
      "  " ++ palette.paint .yellow ("span " ++ hover.span.shown)]

end MissionText
