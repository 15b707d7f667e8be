import MissionText.Proofs.Scan.Layout
import MissionText.Proofs.Text.Numeral
/-!
# Bounded tokens — the numbers of a scan

The numbers of a token other than a setting are fields of the text, so none of
them is larger than a field can hold.
-/

namespace MissionText

open Text

variable {start count : Nat} {cs run : List Char} {tokens : List Token} {token : Token}
  {time : TimeToken}

/-- The numbers of a token are no larger than a field can hold. -/
def Token.Bounded (token : Token) : Prop :=
  match token.kind with
  | .time time =>
    (∀ hours ∈ time.hours, hours ≤ fieldMax) ∧ time.minutes ≤ fieldMax ∧ time.seconds ≤ fieldMax
  | .strikes count => count ≤ fieldMax
  | .setting _ => True
  | .pool pool => ∀ count ∈ pool.count, count ≤ fieldMax

namespace TimeToken

/-- A time limit has fields. -/
def InFields (time : TimeToken) : Prop :=
  (∀ hours ∈ time.hours, hours ≤ fieldMax) ∧ time.minutes ≤ fieldMax ∧ time.seconds ≤ fieldMax

/-- Hours that are left out are none. -/
theorem InFields.hours_le (h : time.InFields) : time.hours.getD 0 ≤ fieldMax := by
  cases hours : time.hours with
  | none => exact Nat.zero_le _
  | some count => exact h.1 count hours

/-- **What three fields can express.** -/
theorem InFields.total_le (h : time.InFields) : time.total ≤ fieldMax * 3661 := by
  have hhours := h.hours_le
  obtain ⟨-, hminutes, hseconds⟩ := h
  rw [total]
  omega

theorem inFields_of_ofRun? (h : ofRun? run = some time) : time.InFields := by
  have hfields : ∀ n, some n ∈ (run.splitOn ':').map field? → n ≤ fieldMax := by
    intro n hn
    obtain ⟨ds, -, hds⟩ := List.mem_map.1 hn
    exact field?_le hds
  rw [ofRun?] at h
  split at h
  · rename_i minutes seconds heq
    cases h
    rw [heq] at hfields
    exact ⟨by simp, hfields _ (by simp), hfields _ (by simp)⟩
  · rename_i hours minutes seconds heq
    cases h
    rw [heq] at hfields
    refine ⟨?_, hfields _ (by simp), hfields _ (by simp)⟩
    simpa using hfields hours (by simp)
  · cases h

end TimeToken

theorem strikesOfRun?_le (h : strikesOfRun? run = some count) : count ≤ fieldMax := by
  rw [strikesOfRun?] at h
  split at h
  · split at h
    · exact field?_le h
    · cases h
  · cases h

theorem PoolToken.readCount_le (h : (readCount cs).1 = some count) : count ≤ fieldMax := by
  simp only [readCount] at h
  split at h
  · rename_i hfield _
    split at h
    · cases h
      exact field?_le hfield
    · cases h
  · cases h

theorem Token.bounded_read (start : Nat) (cs : List Char) : (read start cs).1.Bounded := by
  cases hrun : TokenKind.ofRun? (cs.takeWhile isInk) with
  | none =>
    rw [read_of_ofRun?_eq_none hrun]
    exact fun count hcount => PoolToken.readCount_le hcount
  | some kind =>
    rw [read_of_ofRun?_eq_some hrun, TokenKind.ofRun?] at *
    simp only [Option.or_eq_some_iff, Option.map_eq_some_iff] at hrun
    rcases hrun with ⟨time, htime, rfl⟩ | ⟨-, ⟨count, hcount, rfl⟩ | ⟨-, setting, -, rfl⟩⟩
    · exact TimeToken.inFields_of_ofRun? htime
    · exact strikesOfRun?_le hcount
    · trivial

namespace Scan

/-- **The numbers of a scan are those of fields.** -/
theorem Laid.bounded (h : Laid start cs tokens) : ∀ token ∈ tokens, token.Bounded := by
  induction h with
  | blank => simp
  | token _ _ _ _ _ ih =>
    intro token htoken
    rcases List.mem_cons.1 htoken with rfl | htoken
    · exact Token.bounded_read _ _
    · exact ih token htoken

theorem bounded_ofText (text : String) : ∀ token ∈ (ofText text).tokens, token.Bounded :=
  (laid_ofChars text.toList).bounded

end Scan

end MissionText
