import MissionText.Completion.Candidate
import MissionText.Completion.Stub

/-!
# Edits

What becomes of a text and its cursor when a candidate is picked. The
candidate takes the place of what is being typed, in quotes where it has to
be, and is followed by a space unless more is expected. When a comma is typed
next, it takes the place of that space.
-/

namespace MissionText

/-- A text and the offset of the cursor in it. -/
structure Edit where
  text : String
  cursor : Nat
  deriving DecidableEq, Repr

namespace Edit

/-- The edit with the given text before and after its cursor. -/
def ofParts (before after : List Char) : Edit :=
  ⟨String.ofList (before ++ after), Text.width before⟩

/-- What is put in the place of a stub for an identifier. -/
def inserted (quotable : Bool) (id : String) (spaced : Bool) : List Char :=
  (if quotable && Text.hasBlank id then '"' :: id.toList ++ ['"'] else id.toList) ++
    (if spaced then [' '] else [])

/-- Put an identifier in the place of what is being typed before a cursor,
with or without a space after it. -/
def splice (text : String) (cursor : Nat) (id : String) (spaced : Bool) : Edit :=
  let (before, after) := Text.cut text.toList cursor
  let stub := Stub.ofChars before
  ofParts (stub.kept ++ inserted stub.quotable id spaced) after

theorem splice_eq {text : String} {cursor : Nat} {before after : List Char}
    (hcut : Text.cut text.toList cursor = (before, after)) (id : String) (spaced : Bool) :
    splice text cursor id spaced =
      ofParts ((Stub.ofChars before).kept ++
        inserted (Stub.ofChars before).quotable id spaced) after := by
  rw [splice, hcut]

/-- What becomes of a text when a candidate is picked. Picking one that only
explains leaves the text as it is, and moves the cursor no further than into
it. -/
def pick (text : String) (cursor : Nat) (candidate : Candidate) : Edit :=
  if candidate.selectable then splice text cursor candidate.id (!candidate.expectsMore)
  else ⟨text, min cursor text.utf8ByteSize⟩

/-- A candidate that can be picked takes the place of the stub. -/
theorem pick_eq {text : String} {cursor : Nat} {before after : List Char} {candidate : Candidate}
    (hcut : Text.cut text.toList cursor = (before, after))
    (hpick : candidate.selectable = true) :
    pick text cursor candidate =
      ofParts ((Stub.ofChars before).kept ++
        inserted (Stub.ofChars before).quotable candidate.id (!candidate.expectsMore)) after := by
  rw [pick, if_pos hpick, splice_eq hcut]

/-- What becomes of a text when a comma stands right before the cursor and a
space before that: the comma takes the place of the space. -/
def closeUp? (text : String) (cursor : Nat) : Option Edit :=
  let (before, after) := Text.cut text.toList cursor
  match before.reverse with
  | ',' :: ' ' :: rest => some (ofParts (rest.reverse ++ [',']) after)
  | _ => none

end Edit

end MissionText
