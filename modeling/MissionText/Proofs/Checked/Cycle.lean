import MissionText.Checked.Cycle
import MissionText.Proofs.Checked.Completion
import MissionText.Proofs.Completion.Cycling
/-!
# Checked cycles succeed

A cycle that is at a candidate is at one that it has (`Placed`). A new cycle is
at none, and every request leaves a cycle placed, whatever text comes with it:
only the offsets of the cycle are at odds with a text that it was not made for,
and those are looked at first. So a run of requests never fails.
-/

namespace MissionText.Checked

open Text

variable {cycle : Cycle}

/-- The start of what is being typed is so far from its end as it is wide. -/
theorem cycle_eq (matcher : Matcher) (text : String) (cursor : Nat)
    (candidates : List Candidate) :
    Checked.cycle matcher text cursor candidates = .ok (Cycle.ofText text cursor candidates) := by
  rcases hcut : Text.cut text.toList cursor with ⟨before, after⟩
  have hagain : Text.cut text.toList (width before) = (before, after) := by
    rw [← append_of_cut_eq hcut, cut_width_append]
  have hstart : difference (width before) (width (Stub.ofChars before).typed) =
      .ok (width (Stub.ofChars before).kept) := by
    rw [width_stub, difference_add_right]
  rw [Checked.cycle, clamp_eq hcut, ok_bind, replaced_eq matcher hagain, ok_bind, hstart, ok_bind,
    Cycle.ofText, hcut]
  rfl

/-! ## Moves -/

/-- The place after another is found without going below none. -/
theorem next_eq (direction : Direction) (length : Nat) (current : Option Nat) :
    next direction length current = .ok (direction.next? length current) := by
  rw [next.eq_def, Direction.next?.eq_def]
  split
  · rfl
  · rename_i hne
    cases direction with
    | forward =>
      cases current with
      | none => rfl
      | some i =>
        by_cases hlast : length ≤ i + 1
        · simp only [if_pos hlast, if_neg (Nat.not_lt.2 hlast), pure_eq_ok]
        · simp only [if_neg hlast, if_pos (Nat.not_le.1 hlast), pure_eq_ok]
    | backward =>
      rcases current with - | - | i
      · simp only [difference_of_le (Nat.one_le_iff_ne_zero.2 hne), map_ok]
      · rfl
      · simp only [difference_add_right, map_ok]

/-- **A cycle is at a candidate that it has**, if it is at any. -/
def Placed (cycle : Cycle) : Prop := ∀ i ∈ cycle.index, i < cycle.candidates.length

theorem placed_moved (h : Placed cycle) (direction : Direction) :
    Placed (cycle.moved direction) := fun _ hi => Cycle.next?_lt h hi

/-- A placed cycle has the candidate that it is at. -/
theorem exists_entry (h : Placed cycle) {i : Nat} (hi : cycle.index = some i) :
    ∃ shown, cycle.candidates[i]? = some shown :=
  ⟨_, List.getElem?_eq_getElem (h i hi)⟩

theorem selected_eq (h : Placed cycle) : selected cycle = .ok cycle.selected? := by
  rw [selected, Cycle.selected?]
  cases hi : cycle.index with
  | none => rfl
  | some i =>
    obtain ⟨shown, hshown⟩ := exists_entry h hi
    simp only [entry_of_getElem? hshown, map_ok]
    exact congrArg Except.ok hshown.symm

/-- **A step of a placed cycle succeeds.** -/
theorem step_eq (h : Placed cycle) (direction : Direction) :
    step cycle direction = .ok ((Cycle.step direction).run.run cycle) := by
  rw [step, Cycle.run_step]
  split
  · rfl
  · have hmoved : (cycle.moved direction).index =
        direction.next? cycle.candidates.length cycle.index := rfl
    rw [next_eq, ok_bind, ← hmoved]
    cases hi : (cycle.moved direction).index with
    | none =>
      have hlanding : (cycle.moved direction).landing = .stub cycle.stub := by
        rw [Cycle.landing, Cycle.selected?, hi]
        rfl
      rw [hlanding, Cycle.moved, ← hmoved, hi]
      rfl
    | some i =>
      obtain ⟨shown, hshown⟩ := exists_entry (placed_moved h direction) hi
      have hlanding : (cycle.moved direction).landing = .candidate shown := by
        simp [Cycle.landing, Cycle.selected?, hi, hshown]
      have hentry : entry cycle.candidates i = .ok shown := entry_of_getElem? hshown
      rw [hlanding, Cycle.moved, ← hmoved, hi]
      simp only [hentry, ok_bind, pure_eq_ok]

theorem placed_step (h : Placed cycle) (direction : Direction) :
    Placed ((Cycle.step direction).run.run cycle).2 := by
  rw [Cycle.run_step]
  split
  · exact h
  · exact placed_moved h direction

/-- **A turn of a placed cycle succeeds**, with any text: where the cycle has
its place in the text, the stub is put back between two parts of it. -/
theorem turn_eq (matcher : Matcher) (h : Placed cycle) (text : String) (direction : Direction) :
    turn matcher cycle text direction = .ok ((Cycle.turn text direction).run.run cycle) := by
  rw [turn, Cycle.run_turn]
  cases hstart : Text.cut? text.toList cycle.start with
  | none => rfl
  | some head =>
    cases hstop : Text.cut? text.toList cycle.stop with
    | none => rfl
    | some tail =>
      have hstep := step_eq h direction
      rw [Cycle.run_step] at hstep
      cases hinert : cycle.isInert with
      | true =>
        rw [hinert, if_pos rfl] at hstep
        simp only [hstep, ok_bind, pure_eq_ok, if_true]
      | false =>
        rw [hinert, if_neg Bool.false_ne_true] at hstep
        -- with the stub put back, the text is cut right after it
        have hstub : (cycle.moved direction).start + width (cycle.moved direction).stub.toList =
            width (head.1 ++ cycle.stub.toList) := by
          rw [width_append, (append_of_cut? hstart).2]
          rfl
        simp only [hstep, ok_bind, hstub, Bool.false_eq_true, if_false]
        cases (cycle.moved direction).landing with
        | candidate shown =>
          simp only [splice_eq, ok_bind]
          rfl
        | stub typed => rfl

theorem placed_turn (h : Placed cycle) (text : String) (direction : Direction) :
    Placed ((Cycle.turn text direction).run.run cycle).2 := by
  rw [Cycle.run_turn]
  split
  · split
    · exact h
    · exact placed_moved h direction
  · exact h

/-! ## Runs of requests -/

/-- A new cycle is at no candidate. -/
theorem placed_ofText (text : String) (cursor : Nat) (candidates : List Candidate) :
    Placed (Cycle.ofText text cursor candidates) := nofun

/-- **Every request succeeds** on a placed cycle. -/
theorem answer_eq (matcher : Matcher) (h : Placed cycle) (request : Request) :
    answer matcher cycle request = .ok (cycle.answer request) := by
  cases request with
  | step direction =>
    rw [answer, step_eq h, ok_bind]
    rfl
  | turn text direction =>
    rw [answer, turn_eq matcher h, ok_bind]
    rfl
  | selected =>
    rw [answer, selected_eq h, ok_bind]
    rfl

/-- **Every request keeps a cycle placed.** -/
theorem placed_answer (h : Placed cycle) (request : Request) :
    Placed (cycle.answer request).2 := by
  cases request with
  | step direction => exact placed_step h direction
  | turn text direction => exact placed_turn h text direction
  | selected => exact h

/-- **Every run of requests succeeds** on a placed cycle. -/
theorem answers_eq (matcher : Matcher) (h : Placed cycle) (requests : List Request) :
    answers matcher cycle requests = .ok (cycle.answers requests) := by
  induction requests generalizing cycle with
  | nil => rfl
  | cons request requests ih =>
    rw [answers, answer_eq matcher h, ok_bind]
    simp only [ih (placed_answer h request), ok_bind, pure_eq_ok, Cycle.answers]

end MissionText.Checked
