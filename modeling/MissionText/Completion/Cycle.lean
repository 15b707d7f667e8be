import MissionText.Completion.Edit

/-!
# Cycles

Going through candidates one by one with the text changing along. A cycle
remembers what it replaced, so that going past either end of the list brings
back what was typed:

    typed text, 0, 1, …, n - 1, typed text      forward
    typed text, n - 1, …, 1, 0, typed text      backward

A cycle over no candidates, or over ones that only explain, does not move. A
move that fails leaves the cycle as it was.
-/

namespace MissionText

/-- The way to go through a list. -/
inductive Direction where
  | forward
  | backward
  deriving DecidableEq, Repr

/-- The place after a place in a list of a length; no place is before the
first and after the last. -/
def Direction.next? (direction : Direction) (length : Nat) (current : Option Nat) : Option Nat :=
  if length = 0 then none
  else
    match direction, current with
    | .forward, none => some 0
    | .forward, some i => if i + 1 < length then some (i + 1) else none
    | .backward, none => some (length - 1)
    | .backward, some 0 => none
    | .backward, some (i + 1) => some i

/-- Candidates that are gone through at one place of a text. -/
structure Cycle where
  candidates : List Candidate
  /-- The candidate that the text shows, or none for the typed text. -/
  index : Option Nat
  /-- The typed text. -/
  stub : String
  /-- The offset at which the typed text started. -/
  start : Nat
  /-- The offset at which what the text shows now ends. -/
  stop : Nat
  deriving DecidableEq, Repr

namespace Cycle

/-- The cycle over candidates for what is being typed before a cursor. -/
def ofText (text : String) (cursor : Nat) (candidates : List Candidate) : Cycle :=
  let before := (Text.cut text.toList cursor).1
  let stub := Stub.ofChars before
  { candidates
    index := none
    stub := String.ofList stub.typed
    start := Text.width stub.kept
    stop := Text.width before }

/-- Whether there is nothing to go through. -/
def isInert (cycle : Cycle) : Bool :=
  match cycle.candidates with
  | [] => true
  | candidate :: _ => !candidate.selectable

/-- The candidate at which the cycle is. -/
def selected? (cycle : Cycle) : Option Candidate := do
  let i ← cycle.index
  cycle.candidates[i]?

/-- What a cycle lands on. -/
inductive Landing where
  | candidate (shown : Candidate)
  | stub (typed : String)
  deriving DecidableEq, Repr

/-- What the cycle is at. -/
def landing (cycle : Cycle) : Landing :=
  match cycle.selected? with
  | some candidate => .candidate candidate
  | none => .stub cycle.stub

/-- The text with what a cycle lands on, and the cursor after it. What was
typed is given with the text before it, and the text after it. -/
def Landing.edit (typed after : List Char) : Landing → Edit
  | .candidate shown =>
    Edit.splice (String.ofList (typed ++ after)) (Text.width typed) shown.id false
  | .stub _ => Edit.ofParts typed after

/-- The cycle one place on. -/
def moved (cycle : Cycle) (direction : Direction) : Cycle :=
  { cycle with index := direction.next? cycle.candidates.length cycle.index }

/-- Go one place on, if the cycle moves at all. -/
def step (direction : Direction) : OptionT (StateM Cycle) Landing := do
  let cycle ← get
  if cycle.isInert then failure
  let moved := cycle.moved direction
  set moved
  pure moved.landing

/-- Go one place on, and give the text with what the cycle is at now. The given
text has to be the one that the last such turn left. Nothing happens if the
cycle does not move, or if its place does not exist in the text. -/
def turn (text : String) (direction : Direction) : OptionT (StateM Cycle) Edit := do
  let cycle ← get
  let (head, _) ← (Text.cut? text.toList cycle.start).getM
  let (_, tail) ← (Text.cut? text.toList cycle.stop).getM
  let landed ← step direction
  let edit := landed.edit (head ++ cycle.stub.toList) tail
  modify ({ · with stop := edit.cursor })
  pure edit

end Cycle

end MissionText
