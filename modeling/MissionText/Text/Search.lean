import MissionText.Text.Offset
import MissionText.Text.Quote
/-!
# Searches

Where in a text a character stands, as a byte offset, and whether an offset is
a character boundary at all. What stands before the first of some characters,
and after the last of them, is told by the offset (`firstOffset?_eq`,
`width_splitAfterLast`).
-/

namespace MissionText.Text

variable {p : Char → Bool} {cs : List Char}

/-- Whether an offset is the end of a beginning of a text. -/
def isBoundary (cs : List Char) (n : Nat) : Bool := (cut? cs n).isSome

/-- The offset of the first character with a property. -/
def firstOffset? (p : Char → Bool) : List Char → Option Nat
  | [] => none
  | c :: cs => if p c then some 0 else (firstOffset? p cs).map (c.utf8Size + ·)

/-- The offset of the last character with a property. -/
def lastOffset? (p : Char → Bool) : List Char → Option Nat
  | [] => none
  | c :: cs =>
    match lastOffset? p cs with
    | some n => some (c.utf8Size + n)
    | none => if p c then some 0 else none

/-- A text is cut at a boundary. -/
theorem exists_of_isBoundary {n : Nat} (h : isBoundary cs n = true) :
    ∃ before after, cs = before ++ after ∧ width before = n := by
  obtain ⟨⟨before, after⟩, hcut⟩ := Option.isSome_iff_exists.1 h
  obtain ⟨happ, hwidth⟩ := append_of_cut? hcut
  exact ⟨before, after, happ.symm, hwidth⟩

theorem isBoundary_append (before after : List Char) :
    isBoundary (before ++ after) (width before) = true := by
  rw [isBoundary, cut?_append]
  rfl

/-- The end of a text is a boundary. -/
theorem isBoundary_end (text : String) : isBoundary text.toList text.utf8ByteSize = true := by
  have hend := isBoundary_append text.toList []
  rwa [List.append_nil, width_toList] at hend

/-- A boundary is no further than the end. -/
theorem le_of_isBoundary {text : String} {n : Nat} (h : isBoundary text.toList n = true) :
    n ≤ text.utf8ByteSize := by
  obtain ⟨before, after, htext, rfl⟩ := exists_of_isBoundary h
  rw [← width_toList, htext, width_append]
  exact Nat.le_add_right _ _

/-- The first character with a property stands after those without it. -/
theorem firstOffset?_eq :
    firstOffset? p cs =
      if cs.dropWhile (fun c => !p c) = [] then none
      else some (width (cs.takeWhile fun c => !p c)) := by
  induction cs with
  | nil => rfl
  | cons c cs ih =>
    rw [firstOffset?]
    cases hc : p c with
    | true => simp [hc]
    | false =>
      simp only [ih, hc, Bool.false_eq_true, if_false, List.dropWhile_cons, Bool.not_false, if_true,
        List.takeWhile_cons, width_cons]
      split <;> rfl

/-- What goes up to the last character with a property is empty if there is
none. -/
theorem splitAfterLast_eq_nil_iff :
    (splitAfterLast p cs).1 = [] ↔ lastOffset? p cs = none := by
  induction cs with
  | nil => simp [splitAfterLast, lastOffset?]
  | cons c cs ih =>
    simp only [splitAfterLast, lastOffset?]
    cases hlast : lastOffset? p cs with
    | none =>
      have hnil := ih.2 hlast
      cases p c <;> simp [hnil]
    | some n =>
      have hne : (splitAfterLast p cs).1 ≠ [] := fun hnil => by simp [ih.1 hnil] at hlast
      simp [hne]

/-- **What goes up to the last character with a property** ends right after that
character, which takes one byte. -/
theorem width_splitAfterLast (hp : ∀ c, p c = true → c.utf8Size = 1) :
    width (splitAfterLast p cs).1 = (lastOffset? p cs).elim 0 (· + 1) := by
  induction cs with
  | nil => rfl
  | cons c cs ih =>
    have hnil : (splitAfterLast p cs).1 = [] ↔ lastOffset? p cs = none := splitAfterLast_eq_nil_iff
    simp only [splitAfterLast, lastOffset?]
    cases hlast : lastOffset? p cs with
    | none =>
      rw [hlast] at hnil
      cases hc : p c <;> simp [hnil.2 rfl, hc, hp]
    | some n =>
      rw [hlast] at ih hnil
      have hne : (splitAfterLast p cs).1 ≠ [] := by simp [hnil]
      simp [hne, ih, Nat.add_assoc]

theorem utf8Size_of_isSeparator {c : Char} (h : isSeparator c = true) : c.utf8Size = 1 := by
  rw [isSeparator, Bool.or_eq_true, beq_iff_eq, beq_iff_eq] at h
  rcases h with rfl | rfl <;> rfl

end MissionText.Text
