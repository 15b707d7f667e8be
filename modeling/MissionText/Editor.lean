import MissionText.Completion.Cycle
import MissionText.Completion.Suggestion

/-!
# Editors

A line being edited: its text, its cursor, and the cycle that was started in
it, if any. Typing puts characters in at the cursor one by one and closes up
the space before each comma. The cursor of an editor always stands on a
character boundary, for every operation moves it to one.
-/

namespace MissionText

namespace Edit

/-- Put one character in at the cursor, and close up the space before it if it
is a comma. The answer also says whether that was done. -/
def typeChar (edit : Edit) (c : Char) : Edit × Bool :=
  let (before, after) := Text.cut edit.text.toList edit.cursor
  let typed := ofParts (before ++ [c]) after
  match closeUp? typed.text typed.cursor with
  | some closed => (closed, true)
  | none => (typed, false)

/-- Put characters in at the cursor one by one. The answer also says how often
a space was closed up. -/
def type (edit : Edit) (cs : List Char) : Edit × Nat :=
  cs.foldl (fun (edit, closed) c =>
    let (typed, again) := edit.typeChar c
    (typed, if again then closed + 1 else closed)) (edit, 0)

/-- Move the cursor to an offset, or down to the nearest boundary before it. -/
def moveTo (edit : Edit) (offset : Nat) : Edit :=
  let (before, after) := Text.cut edit.text.toList offset
  ofParts before after

/-- Take out the character before the cursor. The answer also says which it
was. -/
def backspace (edit : Edit) : Edit × Option Char :=
  let (before, after) := Text.cut edit.text.toList edit.cursor
  (ofParts before.dropLast after, before.getLast?)

/-- A text with the cursor at its end. -/
def atEnd (text : String) : Edit := ⟨text, text.utf8ByteSize⟩

end Edit

/-- A line being edited. -/
structure Editor where
  edit : Edit
  cycle : Option Cycle := none
  deriving DecidableEq, Repr

namespace Editor

/-- The candidates at the cursor. -/
def candidates (editor : Editor) (context : Context) : List Candidate :=
  context.suggest editor.edit.text editor.edit.cursor

/-- Pick a candidate by its place among those at the cursor. -/
def pick? (editor : Editor) (context : Context) (place : Nat) : Option (Editor × Candidate) := do
  let candidate ← (editor.candidates context)[place]?
  let edit := Edit.pick editor.edit.text editor.edit.cursor candidate
  pure ({ editor with edit }, candidate)

/-- Start a cycle over candidates at the cursor. -/
def startCycle (editor : Editor) (candidates : List Candidate) : Editor :=
  { editor with cycle := some (.ofText editor.edit.text editor.edit.cursor candidates) }

/-- Step the cycle and leave the text alone. -/
def stepCycle? (editor : Editor) (direction : Direction) : Option Editor := do
  let cycle ← editor.cycle
  let (landed, moved) := (Cycle.step direction).run.run cycle
  landed.map fun _ => { editor with cycle := some moved }

/-- Step the cycle and let the text follow. -/
def applyCycle? (editor : Editor) (direction : Direction) : Option Editor := do
  let cycle ← editor.cycle
  let (edit, moved) := (Cycle.turn editor.edit.text direction).run.run cycle
  edit.map fun edit => ⟨edit, some moved⟩

end Editor

end MissionText
