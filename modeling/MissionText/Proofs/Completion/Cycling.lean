import Mathlib.Algebra.BigOperators.Group.List.Basic
import Mathlib.Algebra.Ring.Int.Defs
import Mathlib.Data.List.Induction
import MissionText.Editor
/-!
# Cycling — where any run of steps and turns leads

A cycle over `n` candidates has `n + 1` places, the typed text being the first
of them, and goes around them. Whatever calls are made on it, **the place is the
number of moves forward less those backward**, modulo `n + 1`; and after a turn
the text is a function of that place alone, though every turn starts from the
text that the last one left. What carries this over a run is `Keeps`: the line
is always the text before the stub, then whatever the cycle shows up to its
`stop`, then the text after the cursor. A call that fails changes nothing.
-/

namespace MissionText

open Text

/-- The way of a move as a number. -/
def Direction.sign : Direction → Int
  | .forward => 1
  | .backward => -1

/-- A call on the cycle of an editor: a step leaves the text alone, a turn takes
it along. -/
inductive Call where
  | step (direction : Direction)
  | turn (direction : Direction)
  deriving DecidableEq, Repr

namespace Call

/-- The way in which a call moves. -/
def direction : Call → Direction
  | .step direction => direction
  | .turn direction => direction

/-- The moves forward in a run of calls, less those backward. -/
def net (calls : List Call) : Int := (calls.map fun call => call.direction.sign).sum

@[simp] theorem net_nil : net [] = 0 := rfl

theorem net_concat (calls : List Call) (call : Call) :
    net (calls ++ [call]) = net calls + call.direction.sign := by
  simp [net]

end Call

/-- What a call does to an editor, if it succeeds. -/
def Editor.call? (editor : Editor) : Call → Option Editor
  | .step direction => editor.stepCycle? direction
  | .turn direction => editor.applyCycle? direction

namespace Cycle

/-- The place of a cycle among its `n + 1`: the typed text stands before the
first candidate. -/
def position (cycle : Cycle) : Nat :=
  match cycle.index with
  | none => 0
  | some i => i + 1

variable {cycle : Cycle} {candidates : List Candidate} {before after : List Char}
  {editor : Editor}

/-! ## Places -/

/-- A move ends at one of the candidates, or at the typed text. -/
theorem next?_lt {n i : Nat} {direction : Direction} {index : Option Nat}
    (hindex : ∀ j ∈ index, j < n) (h : direction.next? n index = some i) : i < n := by
  rcases Nat.eq_zero_or_pos n with rfl | hpos
  · cases h
  · simp only [Direction.next?, Nat.ne_of_gt hpos, if_false] at h
    cases direction with
    | forward =>
      cases index with
      | none => cases h; omega
      | some j =>
        simp only at h
        split at h <;> cases h
        omega
    | backward =>
      rcases index with - | - | j
      · cases h
        omega
      · cases h
      · cases h
        have := hindex (i + 1) rfl
        omega

/-- **A move goes one place on**, around the `n + 1` places. -/
theorem position_moved (direction : Direction)
    (hindex : ∀ i ∈ cycle.index, i < cycle.candidates.length) :
    ((cycle.moved direction).position : Int) =
      (cycle.position + direction.sign) % (cycle.candidates.length + 1) := by
  simp only [moved, position]
  generalize cycle.candidates.length = n at *
  generalize cycle.index = index at *
  rcases Nat.eq_zero_or_pos n with rfl | hpos
  · simp [Direction.next?]
  · have hne : n ≠ 0 := Nat.ne_of_gt hpos
    cases direction with
    | forward =>
      rcases index with - | i
      · have hnext : Direction.forward.next? n none = some 0 := by simp [Direction.next?, hne]
        simp only [hnext, Direction.sign]
        rw [Int.emod_eq_of_lt (by omega) (by omega)]
        rfl
      · have hi := hindex i rfl
        have hnext : Direction.forward.next? n (some i) =
            if i + 1 < n then some (i + 1) else none := by
          simp [Direction.next?, hne]
        simp only [hnext, Direction.sign]
        by_cases hlt : i + 1 < n
        · rw [if_pos hlt, Int.emod_eq_of_lt (by omega) (by omega)]
          rfl
        · -- the last candidate is left for the typed text
          have hlast : ((i + 1 : Nat) : Int) + 1 = n + 1 := by omega
          rw [if_neg hlt, hlast, Int.emod_self]
          rfl
    | backward =>
      rcases index with - | - | i
      · -- the typed text is left for the last candidate
        have hnext : Direction.backward.next? n none = some (n - 1) := by
          simp [Direction.next?, hne]
        have hlast : ((0 : Nat) : Int) + (-1) = n + (n + 1) * (-1) := by omega
        simp only [hnext, Direction.sign]
        rw [hlast, Int.add_mul_emod_self_left, Int.emod_eq_of_lt (by omega) (by omega)]
        omega
      · have hnext : Direction.backward.next? n (some 0) = none := by simp [Direction.next?]
        rw [hnext]
        simp [Direction.sign]
      · have hi := hindex (i + 1) rfl
        have hnext : Direction.backward.next? n (some (i + 1)) = some i := by
          simp [Direction.next?, hne]
        simp only [hnext, Direction.sign]
        rw [Int.emod_eq_of_lt (by omega) (by omega)]
        omega

/-! ## One call -/

section

/-! How a computation runs that may fail and keeps its state then. -/

variable {σ α β : Type}

theorem run_bind (x : OptionT (StateM σ) α) (f : α → OptionT (StateM σ) β) (s : σ) :
    (x >>= f).run.run s =
      match x.run.run s with
      | (some a, t) => (f a).run.run t
      | (none, t) => (none, t) := by
  rw [OptionT.run_bind, Option.elimM, StateT.run_bind]
  rcases x.run.run s with ⟨- | a, t⟩
  · rfl
  · rfl

theorem run_getM (found : Option α) (s : σ) :
    (found.getM : OptionT (StateM σ) α).run.run s = (found, s) := by
  cases found with
  | none => rfl
  | some a => rfl

end

/-- **What a step does**: nothing on a cycle that does not move. -/
theorem run_step (cycle : Cycle) (direction : Direction) :
    (step direction).run.run cycle =
      if cycle.isInert then (none, cycle)
      else (some (cycle.moved direction).landing, cycle.moved direction) := by
  rw [step, run_bind]
  change StateT.run (OptionT.run (if cycle.isInert = true then _ else _)) cycle = _
  split
  · rfl
  · rfl

/-- **What a turn does**: nothing on a cycle that does not move or has no place
in the text. -/
theorem run_turn (cycle : Cycle) (text : String) (direction : Direction) :
    (turn text direction).run.run cycle =
      match cut? text.toList cycle.start, cut? text.toList cycle.stop with
      | some (head, _), some (_, tail) =>
        if cycle.isInert then (none, cycle)
        else
          let edit := (cycle.moved direction).landing.edit (head ++ cycle.stub.toList) tail
          (some edit, { cycle.moved direction with stop := edit.cursor })
      | _, _ => (none, cycle) := by
  rw [turn, run_bind]
  change StateT.run (OptionT.run (_ >>= _)) cycle = _
  rw [run_bind, run_getM]
  cases cut? text.toList cycle.start with
  | none => rfl
  | some head =>
    change StateT.run (OptionT.run (_ >>= _)) cycle = _
    rw [run_bind, run_getM]
    cases cut? text.toList cycle.stop with
    | none => rfl
    | some tail =>
      change StateT.run (OptionT.run (_ >>= _)) cycle = _
      rw [run_bind, run_step]
      cases cycle.isInert with
      | true => rfl
      | false => rfl

/-- **A step or a turn that fails changes nothing.** -/
theorem unchanged_of_run_eq_none (cycle : Cycle) (text : String) (direction : Direction) :
    (((step direction).run.run cycle).1 = none → ((step direction).run.run cycle).2 = cycle) ∧
      (((turn text direction).run.run cycle).1 = none →
        ((turn text direction).run.run cycle).2 = cycle) := by
  constructor
  · rw [run_step]
    split
    · exact fun _ => rfl
    · nofun
  · rw [run_turn]
    split
    · split
      · exact fun _ => rfl
      · nofun
    · exact fun _ => rfl

/-- **What every call keeps** of a cycle that was started between two parts of
a line. -/
structure Keeps (before after : List Char) (candidates : List Candidate) (editor : Editor)
    (cycle : Cycle) : Prop where
  running : editor.cycle = some cycle
  offered : cycle.candidates = candidates
  moves : cycle.isInert = false
  index : ∀ i ∈ cycle.index, i < candidates.length
  stub : cycle.stub = String.ofList (Stub.ofChars before).typed
  start : cycle.start = width (Stub.ofChars before).kept
  /-- Whatever the cycle shows stands between what was before the stub and what
  was after the cursor. -/
  text : ∃ shown, editor.edit.text.toList = (Stub.ofChars before).kept ++ shown ++ after ∧
    cycle.stop = width ((Stub.ofChars before).kept ++ shown)

/-- What a cycle lands on takes the place of the stub and nothing else. -/
theorem Landing.exists_edit (landing : Landing) (before after : List Char) :
    ∃ shown, landing.edit before after = .ofParts ((Stub.ofChars before).kept ++ shown) after := by
  cases landing with
  | candidate shown =>
    refine ⟨_, Edit.splice_eq ?_ shown.id false⟩
    rw [String.toList_ofList, cut_width_append]
  | stub typed =>
    refine ⟨(Stub.ofChars before).typed, ?_⟩
    rw [Stub.kept_append_typed]
    rfl

/-- A turn of a cycle in its line moves it one place on, and shows that place in
the line it was started in. -/
theorem Keeps.run_turn (h : Keeps before after candidates editor cycle) (direction : Direction) :
    (turn editor.edit.text direction).run.run cycle =
      (some ((cycle.moved direction).landing.edit before after),
        { cycle.moved direction with
          stop := ((cycle.moved direction).landing.edit before after).cursor }) := by
  obtain ⟨shown, htext, hstop⟩ := h.text
  have hstart : cut? editor.edit.text.toList cycle.start =
      some ((Stub.ofChars before).kept, shown ++ after) := by
    rw [htext, h.start, List.append_assoc, cut?_append]
  have hend : cut? editor.edit.text.toList cycle.stop =
      some ((Stub.ofChars before).kept ++ shown, after) := by
    rw [htext, hstop, cut?_append]
  have hbefore : (Stub.ofChars before).kept ++ cycle.stub.toList = before := by
    rw [h.stub, String.toList_ofList, Stub.kept_append_typed]
  simp only [Cycle.run_turn, hstart, hend, h.moves, hbefore, Bool.false_eq_true, if_false]

/-- **One call succeeds**, moves the cycle one place on, and a turn shows that
place in the line the cycle was started in. -/
theorem Keeps.call (h : Keeps before after candidates editor cycle) (call : Call) :
    ∃ later moved, editor.call? call = some later ∧ Keeps before after candidates later moved ∧
      (moved.position : Int) =
        (cycle.position + call.direction.sign) % (candidates.length + 1) ∧
      ∀ direction, call = .turn direction →
        later.edit = moved.landing.edit before after := by
  have hindex : ∀ i ∈ cycle.index, i < cycle.candidates.length := h.offered ▸ h.index
  have hplace : ∀ i ∈ (cycle.moved call.direction).index, i < candidates.length := by
    intro i hi
    rw [← h.offered]
    exact next?_lt hindex hi
  have hposition := position_moved call.direction hindex
  rw [h.offered] at hposition
  cases call with
  | step direction =>
    have hcall : editor.call? (.step direction) =
        some { editor with cycle := some (cycle.moved direction) } := by
      simp [Editor.call?, Editor.stepCycle?, h.running, run_step, h.moves]
    exact ⟨_, _, hcall, ⟨rfl, h.offered, h.moves, hplace, h.stub, h.start, h.text⟩, hposition,
      nofun⟩
  | turn direction =>
    obtain ⟨shown, hedit⟩ := (cycle.moved direction).landing.exists_edit before after
    have hcall : editor.call? (.turn direction) = some
        ⟨(cycle.moved direction).landing.edit before after, some { cycle.moved direction with
          stop := ((cycle.moved direction).landing.edit before after).cursor }⟩ := by
      simp [Editor.call?, Editor.applyCycle?, h.running, h.run_turn]
    refine ⟨_, _, hcall, ⟨rfl, h.offered, h.moves, hplace, h.stub, h.start, shown, ?_⟩,
      hposition, fun _ _ => rfl⟩
    simp [hedit, Edit.ofParts]

/-! ## Runs of calls -/

/-- **Every run of calls succeeds**, and leads where the moves in it add up to. -/
theorem Keeps.calls (h : Keeps before after candidates editor cycle) (calls : List Call) :
    ∃ later moved, calls.foldlM Editor.call? editor = some later ∧
      Keeps before after candidates later moved ∧
      (moved.position : Int) =
        (cycle.position + Call.net calls) % (candidates.length + 1) ∧
      ∀ direction, calls.getLast? = some (.turn direction) →
        later.edit = moved.landing.edit before after := by
  induction calls using List.reverseRecOn with
  | nil =>
    refine ⟨editor, cycle, rfl, h, ?_, nofun⟩
    have hlt : cycle.position < candidates.length + 1 := by
      rw [position]
      split
      · omega
      · rename_i i hi
        have := h.index i hi
        omega
    rw [Call.net_nil, Int.add_zero, Int.emod_eq_of_lt (by omega) (by omega)]
  | append_singleton calls call ih =>
    obtain ⟨last, at', hrun, hkeeps, hposition, -⟩ := ih
    obtain ⟨later, moved, hcall, hlater, hmoved, hedit⟩ := hkeeps.call call
    refine ⟨later, moved, ?_, hlater, ?_, ?_⟩
    · rw [List.foldlM_append, hrun]
      simpa using hcall
    · rw [hmoved, hposition, Int.emod_add_emod, Call.net_concat, Int.add_assoc]
    · intro direction hlast
      exact hedit direction (by simpa using hlast)

/-- A cycle starts at the typed text, which its line shows. -/
theorem keeps_startCycle (hcut : cut editor.edit.text.toList editor.edit.cursor = (before, after))
    (hmoves : (ofText editor.edit.text editor.edit.cursor candidates).isInert = false) :
    Keeps before after candidates (editor.startCycle candidates)
      (ofText editor.edit.text editor.edit.cursor candidates) where
  running := rfl
  offered := rfl
  moves := hmoves
  index := nofun
  stub := by rw [ofText, hcut]
  start := by rw [ofText, hcut]
  text := by
    refine ⟨(Stub.ofChars before).typed, ?_⟩
    rw [Stub.kept_append_typed, ofText, hcut]
    exact ⟨(append_of_cut_eq hcut).symm, rfl⟩

end Cycle

/-- **Cycling is path independent and reversible.** On a cycle that moves, any
run of steps and turns succeeds, and ends at the place to which its moves add
up. After a turn the line shows that place alone: the line as it was, with the
cursor where it was, or the candidate spliced into it. And on any cycle and any
text, a call that fails leaves the cycle as it was. -/
theorem cycling_path_independent :
    (∀ (editor : Editor) (candidates : List Candidate) (calls : List Call),
      (Cycle.ofText editor.edit.text editor.edit.cursor candidates).isInert = false →
      ∀ before after, cut editor.edit.text.toList editor.edit.cursor = (before, after) →
      ∃ later cycle, calls.foldlM Editor.call? (editor.startCycle candidates) = some later ∧
        later.cycle = some cycle ∧
        (∀ i ∈ cycle.index, i < candidates.length) ∧
        (cycle.position : Int) = Call.net calls % (candidates.length + 1) ∧
        ∀ direction, calls.getLast? = some (.turn direction) →
          (cycle.index = none → later.edit = ⟨editor.edit.text, width before⟩) ∧
          ∀ i candidate, cycle.index = some i → candidates[i]? = some candidate →
            later.edit = .splice editor.edit.text editor.edit.cursor candidate.id false ∧
            later.edit = .ofParts ((Stub.ofChars before).kept ++
              Edit.inserted (Stub.ofChars before).quotable candidate.id false) after) ∧
    ∀ (cycle : Cycle) (text : String) (direction : Direction),
      (((Cycle.step direction).run.run cycle).1 = none →
        ((Cycle.step direction).run.run cycle).2 = cycle) ∧
      (((Cycle.turn text direction).run.run cycle).1 = none →
        ((Cycle.turn text direction).run.run cycle).2 = cycle) := by
  refine ⟨fun editor candidates calls hmoves before after hcut => ?_,
    Cycle.unchanged_of_run_eq_none⟩
  have hstart := Cycle.keeps_startCycle hcut hmoves
  obtain ⟨later, cycle, hrun, hkeeps, hposition, hedit⟩ := hstart.calls calls
  have htext : String.ofList (before ++ after) = editor.edit.text := by
    rw [append_of_cut_eq hcut, String.ofList_toList]
  refine ⟨later, cycle, hrun, hkeeps.running, hkeeps.index, ?_, fun direction hlast => ?_⟩
  · rw [hposition]
    simp [Cycle.ofText, Cycle.position]
  · have hshown := hedit direction hlast
    constructor
    · intro hnone
      have hlanding : cycle.landing = .stub cycle.stub := by
        simp [Cycle.landing, Cycle.selected?, hnone]
      rw [hshown, hlanding, Cycle.Landing.edit, Edit.ofParts, htext]
    · intro i candidate hindex hcandidate
      have hlanding : cycle.landing = .candidate candidate := by
        simp [Cycle.landing, Cycle.selected?, hindex, hkeeps.offered, hcandidate]
      have hsplice : later.edit =
          .splice (String.ofList (before ++ after)) (width before) candidate.id false := by
        rw [hshown, hlanding]
        rfl
      have hcut' : cut (String.ofList (before ++ after)).toList (width before) =
          (before, after) := by
        rw [String.toList_ofList, cut_width_append]
      rw [hsplice, Edit.splice_eq hcut', Edit.splice_eq hcut]
      exact ⟨rfl, rfl⟩

/-- Three turns back over two candidates, with two steps that undo each other,
restore what was typed. From there to the second candidate it does not matter
that one of the moves goes back first: the line shows the candidate. -/
theorem cycling_path_independent_vanilla :
    ∃ editor : Editor, ∃ candidates : List Candidate,
      editor = ⟨.atEnd "1:00 ALL_V", none⟩ ∧
      candidates = [.byId "ALL_VANILLA" "Solvable modules" 5,
        .byId "ALL_VANILLA_NEEDY" "Needy modules" 5] ∧
      (Cycle.ofText editor.edit.text editor.edit.cursor candidates).isInert = false ∧
      (∃ later, [.turn .backward, .turn .backward, .step .backward, .step .forward,
          .turn .backward].foldlM Editor.call? (editor.startCycle candidates) = some later ∧
        later.edit = .atEnd "1:00 ALL_V") ∧
      ∃ later, [.turn .backward, .step .forward, .turn .forward, .turn .forward].foldlM
          Editor.call? (editor.startCycle candidates) = some later ∧
        later.edit = ⟨"1:00 ALL_VANILLA_NEEDY", 22⟩ := by
  have hmoves : (Cycle.ofText "1:00 ALL_V" 10 [.byId "ALL_VANILLA" "Solvable modules" 5,
      .byId "ALL_VANILLA_NEEDY" "Needy modules" 5]).isInert = false := by decide
  refine ⟨_, _, rfl, rfl, hmoves, ?_, ?_⟩
  · obtain ⟨later, cycle, hrun, -, -, hposition, hedit⟩ :=
      cycling_path_independent.1 ⟨.atEnd "1:00 ALL_V", none⟩
        [.byId "ALL_VANILLA" "Solvable modules" 5, .byId "ALL_VANILLA_NEEDY" "Needy modules" 5]
        [.turn .backward, .turn .backward, .step .backward, .step .forward, .turn .backward]
        hmoves "1:00 ALL_V".toList [] (by decide)
    have hnone : cycle.index = none := by
      have hzero : (cycle.position : Int) = 0 := hposition
      cases hindex : cycle.index with
      | none => rfl
      | some i =>
        simp only [Cycle.position, hindex] at hzero
        omega
    exact ⟨later, hrun, (hedit .backward rfl).1 hnone⟩
  · obtain ⟨later, cycle, hrun, -, -, hposition, hedit⟩ :=
      cycling_path_independent.1 ⟨.atEnd "1:00 ALL_V", none⟩
        [.byId "ALL_VANILLA" "Solvable modules" 5, .byId "ALL_VANILLA_NEEDY" "Needy modules" 5]
        [.turn .backward, .step .forward, .turn .forward, .turn .forward]
        hmoves "1:00 ALL_V".toList [] (by decide)
    have hsecond : cycle.index = some 1 := by
      have htwo : (cycle.position : Int) = 2 := hposition
      cases hindex : cycle.index with
      | none =>
        simp only [Cycle.position, hindex] at htwo
        omega
      | some i =>
        simp only [Cycle.position, hindex] at htwo
        rw [show i = 1 by omega]
    have hspliced : Edit.splice "1:00 ALL_V" 10 "ALL_VANILLA_NEEDY" false =
        ⟨"1:00 ALL_VANILLA_NEEDY", 22⟩ := by decide +kernel
    exact ⟨later, hrun, ((hedit .forward rfl).2 1 _ hsecond rfl).1.trans hspliced⟩

end MissionText
