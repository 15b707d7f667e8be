import MissionText.Completion.Edit
import MissionText.Completion.Suggestion
import MissionText.Text.Search
/-!
# The cursor after a pick

A candidate that can be picked leaves the cursor at a character boundary, right
after what was put in, wherever the cursor stood before. A row that only
explains leaves the text as it is, and the cursor where it stood or at the end:
a cursor inside a character stays there (`pick_may_split_character`).
-/

namespace MissionText

open Text

namespace Edit

/-- The cursor of an edit that is given by the text before and after it stands
between the two. -/
theorem isBoundary_ofParts (before after : List Char) :
    isBoundary (ofParts before after).text.toList (ofParts before after).cursor = true := by
  rw [ofParts, String.toList_ofList]
  exact isBoundary_append before after

/-- **Where the cursor is after a pick.** It is never past the end, and a row
that only explains leaves the text as it is. The cursor stands at a character
boundary exactly if the candidate can be picked, or the cursor stood at one or
past the end before. -/
theorem cursor_after_pick (text : String) (cursor : Nat) (candidate : Candidate) :
    (pick text cursor candidate).cursor ≤ (pick text cursor candidate).text.utf8ByteSize ∧
      (candidate.selectable = true ∨ (pick text cursor candidate).text = text) ∧
      (isBoundary (pick text cursor candidate).text.toList (pick text cursor candidate).cursor =
          true ↔
        candidate.selectable = true ∨ text.utf8ByteSize ≤ cursor ∨
          isBoundary text.toList cursor = true) := by
  cases hpick : candidate.selectable with
  | true =>
    have hedit : pick text cursor candidate =
        splice text cursor candidate.id (!candidate.expectsMore) := if_pos hpick
    have hboundary : isBoundary (pick text cursor candidate).text.toList
        (pick text cursor candidate).cursor = true := by
      rw [hedit, splice]
      exact isBoundary_ofParts _ _
    exact ⟨le_of_isBoundary hboundary, .inl rfl, iff_of_true hboundary (.inl rfl)⟩
  | false =>
    have hedit : pick text cursor candidate = ⟨text, min cursor text.utf8ByteSize⟩ :=
      if_neg (by simp [hpick])
    rw [hedit]
    refine ⟨Nat.min_le_right _ _, .inr rfl, ?_⟩
    rcases Nat.lt_or_ge cursor text.utf8ByteSize with hinside | hpast
    · rw [Nat.min_eq_left (Nat.le_of_lt hinside)]
      constructor
      · exact fun hboundary => .inr (.inr hboundary)
      · rintro (hpick | hpast | hboundary)
        · cases hpick
        · omega
        · exact hboundary
    · rw [Nat.min_eq_right hpast]
      exact iff_of_true (isBoundary_end text) (.inr (.inl hpast))

/-- **A row that only explains may leave the cursor inside a character.** Here
the cursor stands in the character after a time. -/
theorem pick_may_split_character :
    ¬ ∀ (context : Context) (text : String) (cursor : Nat),
      ∀ candidate ∈ context.suggest text cursor,
        (pick text cursor candidate).cursor ≤ (pick text cursor candidate).text.utf8ByteSize ∧
          isBoundary (pick text cursor candidate).text.toList
            (pick text cursor candidate).cursor = true ∧
          (candidate.selectable = false → (pick text cursor candidate).text = text) := by
  intro hall
  have hoffered : explainTime ⟨none, 1, 30⟩ ∈ ({} : Context).suggest "1:30é" 5 := by
    decide +kernel
  have hsplit : isBoundary (pick "1:30é" 5 (explainTime ⟨none, 1, 30⟩)).text.toList
      (pick "1:30é" 5 (explainTime ⟨none, 1, 30⟩)).cursor = false := by
    decide
  have hboundary := (hall {} "1:30é" 5 _ hoffered).2.1
  rw [hsplit] at hboundary
  cases hboundary

end Edit

end MissionText
