import MissionText.Checked.Completion
import MissionText.Completion.Cycle
/-!
# Checked cycles

A cycle that is asked for one thing after another: to go one place on, to do so
and give the text that shows what it is at, or to say what it is at. Its texts
may be any at all, and a turn looks at its two places in the text before it
takes anything from it. The places in the list of candidates are worked out by
taking one off, and are looked up without another check.
-/

namespace MissionText

/-- Something that a cycle is asked for. -/
inductive Request where
  | step (direction : Direction)
  | turn (text : String) (direction : Direction)
  | selected

/-- What a cycle answers. There is nothing to answer if it does not move. -/
inductive Answer where
  | landed (landing : Option Cycle.Landing)
  | turned (edit : Option Edit)
  | selected (candidate : Option Candidate)
  deriving DecidableEq

/-- What a cycle answers to a request, and the cycle after it. -/
def Cycle.answer (cycle : Cycle) : Request → Answer × Cycle
  | .step direction =>
    let (landing, cycle) := (Cycle.step direction).run.run cycle
    (.landed landing, cycle)
  | .turn text direction =>
    let (edit, cycle) := (Cycle.turn text direction).run.run cycle
    (.turned edit, cycle)
  | .selected => (.selected cycle.selected?, cycle)

/-- What a cycle answers to requests, one after the other. -/
def Cycle.answers (cycle : Cycle) : List Request → List Answer
  | [] => []
  | request :: requests =>
    (cycle.answer request).1 :: (cycle.answer request).2.answers requests

namespace Checked

/-- The cycle over candidates for what is being typed before a cursor. -/
def cycle (matcher : Matcher) (text : String) (cursor : Nat) (candidates : List Candidate) :
    Checked Cycle := do
  let cursor ← clamp text.toList cursor
  let stub ← replaced matcher text.toList cursor
  let start ← difference cursor (Text.width stub)
  return { candidates, index := none, stub := String.ofList stub, start, stop := cursor }

/-- The place after a place in a list of a length. -/
def next (direction : Direction) (length : Nat) (current : Option Nat) : Checked (Option Nat) :=
  if length = 0 then return none
  else
    match direction, current with
    | .forward, none => return some 0
    | .forward, some i => if length ≤ i + 1 then return none else return some (i + 1)
    | .backward, none => some <$> difference length 1
    | .backward, some 0 => return none
    | .backward, some i => some <$> difference i 1

/-- The candidate at which a cycle is. -/
def selected (cycle : Cycle) : Checked (Option Candidate) :=
  match cycle.index with
  | none => return none
  | some i => some <$> entry cycle.candidates i

/-- Go one place on, if the cycle moves at all. -/
def step (cycle : Cycle) (direction : Direction) :
    Checked (Option Cycle.Landing × Cycle) := do
  if cycle.isInert then return (none, cycle)
  else
    let index ← next direction cycle.candidates.length cycle.index
    match index with
    | some i =>
      let shown ← entry cycle.candidates i
      return (some (.candidate shown), { cycle with index })
    | none => return (some (.stub cycle.stub), { cycle with index })

/-- Go one place on, and give the text with what the cycle is at now. -/
def turn (matcher : Matcher) (cycle : Cycle) (text : String) (direction : Direction) :
    Checked (Option Edit × Cycle) := do
  match Text.cut? text.toList cycle.start, Text.cut? text.toList cycle.stop with
  | some (head, _), some (_, tail) =>
    let (landed, cycle) ← step cycle direction
    let restored := String.ofList (head ++ cycle.stub.toList ++ tail)
    let stop := cycle.start + Text.width cycle.stub.toList
    match landed with
    | none => return (none, cycle)
    | some (.candidate shown) =>
      let edit ← splice matcher restored stop shown.id false
      return (some edit, { cycle with stop := edit.cursor })
    | some (.stub _) => return (some ⟨restored, stop⟩, { cycle with stop })
  | _, _ => return (none, cycle)

/-- What a cycle answers to a request, and the cycle after it. -/
def answer (matcher : Matcher) (cycle : Cycle) : Request → Checked (Answer × Cycle)
  | .step direction => do
    let (landing, cycle) ← step cycle direction
    return (.landed landing, cycle)
  | .turn text direction => do
    let (edit, cycle) ← turn matcher cycle text direction
    return (.turned edit, cycle)
  | .selected => do return (.selected (← selected cycle), cycle)

/-- What a cycle answers to requests, one after the other. -/
def answers (matcher : Matcher) (cycle : Cycle) : List Request → Checked (List Answer)
  | [] => return []
  | request :: requests => do
    let (first, cycle) ← answer matcher cycle request
    return first :: (← answers matcher cycle requests)

end Checked

end MissionText
