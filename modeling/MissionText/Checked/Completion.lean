import MissionText.Checked.Scan
import MissionText.Completion.Edit
import MissionText.Completion.Suggestion
import MissionText.Text.Search
/-!
# Checked completion

What is offered at a cursor, what becomes of the text when a candidate is
picked, and what becomes of it when a comma is typed after that, with offsets
that are worked out step by step: a cursor is moved down to the nearest
character boundary, the line up to there is scanned, and the place of what is
being typed is that of the token in progress, or of the last identifier in its
list.
-/

namespace MissionText.Checked

/-- The nearest character boundary up to an offset: as long as there is none at
the offset, one is taken off it. -/
def floor (text : List Char) : Nat → Checked Nat
  | 0 => if Text.isBoundary text 0 then return 0 else throw .difference
  | n + 1 => if Text.isBoundary text (n + 1) then return n + 1 else floor text n

/-- A cursor that is moved into a text, and down to a character boundary. -/
def clamp (text : List Char) (cursor : Nat) : Checked Nat :=
  floor text (min cursor (Text.width text))

/-- The token being typed before a cursor. -/
def inProgress (matcher : Matcher) (text : List Char) (cursor : Nat) :
    Checked (Option Token) := do
  let before ← before text cursor
  let scan ← scan matcher before
  return scan.trailing?

/-- The offset in the list of a pool at which its last identifier starts. -/
def lastIdOffset (pool : PoolToken) : Nat :=
  (Text.lastOffset? Text.isSeparator pool.idList.toList).elim 0 (· + 1)

/-! ## Suggestions -/

/-- The last identifier of a pool without its quotes. -/
def stub (pool : PoolToken) : Checked String := do
  let last ← after pool.idList.toList (lastIdOffset pool)
  return String.ofList (Text.unquoted last)

/-- The candidates for the last identifier of a pool. -/
def suggestPool (context : Context) (pool : PoolToken) : Checked (List Candidate) := do
  let stub ← stub pool
  return (if pool.isNumber then suggestNumber stub else []) ++
    context.entries.filterMap (candidateOf? stub.toList)

/-- The candidates for what is being typed before a cursor. -/
def suggest (matcher : Matcher) (context : Context) (text : String) (cursor : Nat) :
    Checked (List Candidate) := do
  let cursor ← clamp text.toList cursor
  match ← inProgress matcher text.toList cursor with
  | none => return []
  | some token =>
    match token.kind with
    | .time time => return [explainTime time]
    | .strikes _ =>
      let typed ← between text.toList token.span.start token.span.stop
      return [explainStrikes typed]
    | .setting setting => return context.suggestSetting setting
    | .pool pool => suggestPool context pool

/-! ## Edits -/

/-- Where an identifier is put before a cursor, and whether it may need quotes
there. -/
def spliceStart (matcher : Matcher) (text : List Char) (cursor : Nat) :
    Checked (Nat × Bool) := do
  match ← inProgress matcher text cursor with
  | none => return (cursor, true)
  | some token =>
    match token.kind with
    | .pool pool =>
      let kept ← before pool.idList.toList (lastIdOffset pool)
      return (pool.idListStart + lastIdOffset pool, kept.count '"' % 2 = 0)
    | _ => return (token.span.start, false)

/-- Put an identifier in the place of what is being typed before a cursor,
with or without a space after it. -/
def splice (matcher : Matcher) (text : String) (cursor : Nat) (id : String) (spaced : Bool) :
    Checked Edit := do
  let cursor ← clamp text.toList cursor
  let (start, quotable) ← spliceStart matcher text.toList cursor
  let inserted := Edit.inserted quotable id spaced
  let head ← before text.toList start
  let tail ← after text.toList cursor
  return ⟨String.ofList (head ++ inserted ++ tail), start + Text.width inserted⟩

/-- The text that is being typed before a cursor. -/
def replaced (matcher : Matcher) (text : List Char) (cursor : Nat) : Checked (List Char) := do
  let cursor ← clamp text cursor
  match ← inProgress matcher text cursor with
  | none => between text cursor cursor
  | some token =>
    match token.kind with
    | .pool pool => between text (pool.idListStart + lastIdOffset pool) cursor
    | _ => between text token.span.start cursor

/-- What becomes of a text when a candidate is picked. -/
def pick (matcher : Matcher) (text : String) (cursor : Nat) (candidate : Candidate) :
    Checked Edit :=
  if candidate.selectable then splice matcher text cursor candidate.id (!candidate.expectsMore)
  else return ⟨text, min cursor text.utf8ByteSize⟩

/-- What becomes of a text when a comma stands right before the cursor and a
space before that. The room for the new text is one byte less. -/
def closeUp (text : String) (cursor : Nat) : Checked (Option Edit) := do
  let cursor ← clamp text.toList cursor
  let typed ← before text.toList cursor
  if [' ', ','].isSuffixOf typed then
    let _room ← difference (Text.width text.toList) 1
    let space ← difference cursor 2
    let comma ← difference cursor 1
    let head ← before text.toList space
    let tail ← after text.toList comma
    return some ⟨String.ofList (head ++ tail), comma⟩
  else return none

end MissionText.Checked
