import MissionText.Text.CaseRange

/-!
# Lowercase comparison

Candidates are found by comparing what is typed with the beginning of a name,
one character at a time and without regard to case: two characters agree when
their full lowercase forms are the same. No context is taken into account and
no folding beyond lowercase is done, so a final sigma differs from a medial
one and a sharp s from two of them. Keywords of the mission line itself are
compared in the ASCII range alone.
-/

namespace MissionText.Text

/-- The lowercase form of a character. It is the character itself where the
tables have none, and two characters for a dotted capital I alone. -/
def lowercase (c : Char) : List Char :=
  if c.toNat = 0x130 then ['i', Char.ofNat 0x307]
  else match caseRanges.findSome? (·.lower? c.toNat) with
    | some n => [Char.ofNat n]
    | none => [c]

/-- What `typed` matches at the beginning of `shown`, character by character
in lowercase. The match is a piece of `shown`, whose characters may be wider
or narrower than those typed. -/
def matched? : (shown typed : List Char) → Option (List Char)
  | _, [] => some []
  | [], _ :: _ => none
  | s :: shown, t :: typed =>
    if lowercase s = lowercase t then (matched? shown typed).map (s :: ·) else none

/-- Whether two texts agree up to the case of ASCII letters. -/
def sameKeyword (a b : List Char) : Bool := a.map Char.toLower == b.map Char.toLower

/-- A character that is no ASCII capital stays as it is. -/
theorem toLower_eq_self {c : Char} (h : ¬ (c.val ≥ 'A'.val ∧ c.val ≤ 'Z'.val)) : c.toLower = c :=
  dif_neg h

/-- An ASCII capital moves on to the letter in the other case. -/
theorem val_toLower {c : Char} (h : c.val ≥ 'A'.val ∧ c.val ≤ 'Z'.val) :
    c.toLower.val = c.val + ('a'.val - 'A'.val) :=
  congrArg Char.val (dif_pos h)

/-- **A match is a beginning of what is shown**, as long as what is typed and
agreeing with it character by character in lowercase. -/
theorem matched?_eq_some_iff {shown typed found : List Char} :
    matched? shown typed = some found ↔
      found <+: shown ∧ found.map lowercase = typed.map lowercase := by
  induction typed generalizing shown found with
  | nil =>
    simp only [matched?, Option.some.injEq, List.map_nil, List.map_eq_nil_iff]
    exact ⟨fun h => ⟨h ▸ List.nil_prefix, h.symm⟩, fun h => h.2.symm⟩
  | cons t typed ih =>
    cases shown with
    | nil =>
      simp only [matched?, List.prefix_nil, reduceCtorEq, false_iff]
      rintro ⟨rfl, h⟩
      simp at h
    | cons s shown =>
      rw [matched?]
      split
      · rename_i hst
        simp only [Option.map_eq_some_iff, ih]
        constructor
        · rintro ⟨f, ⟨hpre, hmap⟩, rfl⟩
          exact ⟨(List.prefix_cons_inj s).2 hpre, by simp [hst, hmap]⟩
        · rintro ⟨hpre, hmap⟩
          cases found with
          | nil => simp at hmap
          | cons f found =>
            obtain ⟨rfl, htail⟩ := List.cons_prefix_cons.1 hpre
            simp only [List.map_cons, List.cons.injEq] at hmap
            exact ⟨found, ⟨htail, hmap.2⟩, rfl⟩
      · rename_i hst
        simp only [reduceCtorEq, false_iff]
        rintro ⟨hpre, hmap⟩
        cases found with
        | nil => simp at hmap
        | cons f found =>
          obtain ⟨rfl, -⟩ := List.cons_prefix_cons.1 hpre
          simp only [List.map_cons, List.cons.injEq] at hmap
          exact hst hmap.1

end MissionText.Text
