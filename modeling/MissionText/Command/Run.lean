import MissionText.Command.Arguments
import MissionText.Command.Record
import MissionText.Command.Report
import MissionText.Completion.Suggestion
import MissionText.Host.Loading
import MissionText.Json.Writer

/-!
# Running a command

What comes of a call, from what has been read for it. The catalog is loaded
before the profiles, and both before anything is done; the first failure is
the one that is shown. Reading a line with problems, and finding no identifier
under a pointer, are results of their own and not failures.
-/

namespace MissionText

/-- What has been read for a call. -/
structure Supplies where
  /-- What reading the catalog file gave. -/
  catalog : Except ReadFailure ByteArray
  /-- What reading the directory of profiles gave. -/
  profiles : Except ReadFailure Listing
  /-- The input of the program. -/
  input : ByteArray
  /-- Whether the output of the program is a terminal. -/
  terminal : Bool

/-- What a call finds at a place, with the given input and no terminal. -/
def Supplies.atPlace (invocation : Invocation) (place : Place) (input : ByteArray) : Supplies where
  catalog := place.read (invocation.catalog.getD "")
  profiles := place.list (invocation.profiles.getD "")
  input := input
  terminal := false

/-- What comes of calling the program. -/
inductive Outcome where
  /-- Everything was done. A report may still want the time it took at its
  end. -/
  | done (output : String) (found : Bool) (timed : Option Palette)
  /-- Something went wrong. -/
  | failed (message : String)

/-- What comes of a command whose result is there, or is not. -/
def Outcome.shown (output : String) (found : Bool) : Outcome := .done output found none

namespace Invocation

/-- The lines of the input, without the ends of lines after the last. -/
def inputText (bytes : ByteArray) : Except String String :=
  match unicodeText bytes with
  | .ok text =>
    let isLineEnd (c : Char) := c == '\r' || c == '\n'
    .ok (String.ofList (text.toList.reverse.dropWhile isLineEnd).reverse)
  | .error failure => .error ("error: failed to read stdin: " ++ failure.reason)

/-- What a call reads missions with. -/
def context (invocation : Invocation) (supplies : Supplies) : Except LoadFailure Context := do
  let catalog ← Catalog.load (invocation.catalog.map (⟨·, supplies.catalog⟩))
  let profiles ← Profiles.load (invocation.profiles.map (⟨·, supplies.profiles⟩))
  .ok ⟨catalog, profiles, invocation.maxModules, invocation.factory⟩

/-- Whether a call shows colors. -/
def palette (invocation : Invocation) (supplies : Supplies) : Palette :=
  ⟨invocation.color.getD supplies.terminal⟩

/-- Read a mission line. -/
def runParse (output : OutputFormat) (palette : Palette) (context : Context) (text : String) :
    Outcome :=
  let reading := Mission.read context text
  let found := reading.result.isOk
  match output with
  | .json => .shown reading.record.toText found
  | .text => .done (textOfLines (reading.lines palette)) found (some palette)

/-- Show the candidates before a cursor. -/
def runSuggest (output : OutputFormat) (palette : Palette) (context : Context) (text : String)
    (cursor : Nat) : Outcome :=
  let candidates := context.suggest text cursor
  match output with
  | .json => .shown (Json.ofList Candidate.record candidates).toText true
  | .text => .shown (textOfLines (candidateLines palette text cursor candidates)) true

/-- Pick a candidate. -/
def runApply (output : OutputFormat) (context : Context) (text : String) (cursor place : Nat) :
    Outcome :=
  let candidates := context.suggest text cursor
  match candidates[place]? with
  | none =>
    .failed ("error: no candidate " ++ toString place ++ " (" ++ toString candidates.length ++
      " available)")
  | some candidate =>
    let edit := Edit.pick text cursor candidate
    match output with
    | .json => .shown edit.record.toText true
    | .text => .shown (textOfLines [edit.text, toString edit.cursor]) true

/-- Show the identifier at an offset. -/
def runHover (output : OutputFormat) (palette : Palette) (context : Context) (text : String)
    (offset : Nat) : Outcome :=
  let hover := context.hover? text offset
  match output with
  | .json => .shown (Json.ofOption Hover.record hover).toText hover.isSome
  | .text => .shown (textOfLines (hoverLines palette hover)) hover.isSome

/-- What comes of a call. -/
def run (invocation : Invocation) (supplies : Supplies) : Outcome :=
  match invocation.context supplies with
  | .error failure => .failed failure.message
  | .ok context =>
    let palette := invocation.palette supplies
    match invocation.action with
    | .parse (some text) => runParse invocation.output palette context text
    | .parse none =>
      match inputText supplies.input with
      | .ok text => runParse invocation.output palette context text
      | .error message => .failed message
    | .suggest text cursor =>
      runSuggest invocation.output palette context text (cursor.getD text.utf8ByteSize)
    | .apply text cursor place =>
      runApply invocation.output context text (cursor.getD text.utf8ByteSize) place
    | .hover text offset => runHover invocation.output palette context text offset

end Invocation

/-- The status with which the program ends. -/
def Outcome.status : Outcome → Nat
  | done _ found _ => if found then 0 else 1
  | failed _ => 2

end MissionText
