/-!
# Byte offsets

Positions in a mission line count bytes of its UTF-8 form. The text itself is
handled as a list of characters, and an offset is only ever used to cut that
list in two: `cut?` refuses an offset that is past the end or inside a
character, `cut` moves it down to the nearest character boundary. Both cuts
put the text back together (`cut_append`, `append_of_cut?`), so nothing is
ever lost at a position.
-/

namespace MissionText.Text

/-- The number of bytes the characters take in UTF-8. -/
def width (cs : List Char) : Nat := cs.foldr (fun c total => c.utf8Size + total) 0

@[simp] theorem width_nil : width [] = 0 := rfl

@[simp] theorem width_cons (c : Char) (cs : List Char) :
    width (c :: cs) = c.utf8Size + width cs := rfl

@[simp] theorem width_append (as bs : List Char) : width (as ++ bs) = width as + width bs := by
  induction as with
  | nil => simp
  | cons a as ih => rw [List.cons_append, width_cons, width_cons, ih, Nat.add_assoc]

/-- A character takes at least one byte. -/
theorem length_le_width (cs : List Char) : cs.length ≤ width cs := by
  induction cs with
  | nil => simp
  | cons c cs ih =>
    have := c.utf8Size_pos
    simp only [List.length_cons, width_cons]
    omega

/-- The width of a string's characters is its size in bytes. -/
theorem width_toList (s : String) : width s.toList = s.utf8ByteSize := by
  have key : ∀ cs : List Char, width cs = (String.ofList cs).utf8ByteSize := by
    intro cs
    induction cs with
    | nil => simp [String.ofList_nil]
    | cons c cs ih =>
      have happ : String.ofList (c :: cs) = String.singleton c ++ String.ofList cs := by
        rw [String.singleton_eq_ofList, ← String.ofList_append]
        rfl
      rw [width_cons, ih, happ, String.utf8ByteSize_append, String.utf8ByteSize_singleton]
  rw [key, String.ofList_toList]

/-- The text before and after byte offset `n`. An offset inside a character
or past the end gives nothing. -/
def cut? : List Char → Nat → Option (List Char × List Char)
  | cs, 0 => some ([], cs)
  | [], _ + 1 => none
  | c :: cs, n + 1 =>
    if c.utf8Size ≤ n + 1 then
      (cut? cs (n + 1 - c.utf8Size)).map fun (before, after) => (c :: before, after)
    else none

/-- The text before and after byte offset `n`, which is first moved down to
the end of the text or to the nearest character boundary. -/
def cut : List Char → Nat → List Char × List Char
  | [], _ => ([], [])
  | c :: cs, n =>
    if c.utf8Size ≤ n then
      let (before, after) := cut cs (n - c.utf8Size)
      (c :: before, after)
    else ([], c :: cs)

/-- **A cut loses nothing.** -/
theorem cut_append (cs : List Char) (n : Nat) : (cut cs n).1 ++ (cut cs n).2 = cs := by
  induction cs generalizing n with
  | nil => rfl
  | cons c cs ih =>
    rw [cut]
    split
    · simp [ih]
    · rfl

theorem append_of_cut_eq {cs before after : List Char} {n : Nat}
    (h : cut cs n = (before, after)) : before ++ after = cs := by
  have happ := cut_append cs n
  rwa [h] at happ

/-- **A checked cut loses nothing and stands exactly at its offset.** -/
theorem append_of_cut? {cs before after : List Char} {n : Nat}
    (h : cut? cs n = some (before, after)) : before ++ after = cs ∧ width before = n := by
  induction cs generalizing n before with
  | nil =>
    cases n with
    | zero => simp only [cut?, Option.some.injEq, Prod.mk.injEq] at h; simp [← h.1, ← h.2]
    | succ n => simp [cut?] at h
  | cons c cs ih =>
    cases n with
    | zero => simp only [cut?, Option.some.injEq, Prod.mk.injEq] at h; simp [← h.1, ← h.2]
    | succ n =>
      rw [cut?] at h
      split at h
      · simp only [Option.map_eq_some_iff, Prod.mk.injEq, Prod.exists] at h
        obtain ⟨b, a, hcut, rfl, rfl⟩ := h
        obtain ⟨happ, hw⟩ := ih hcut
        exact ⟨by simp [happ], by simp [hw]; omega⟩
      · simp at h

/-- At the width of its first part a text is cut back into its parts. -/
theorem cut?_append (before after : List Char) :
    cut? (before ++ after) (width before) = some (before, after) := by
  induction before with
  | nil => cases after <;> rfl
  | cons c cs ih =>
    have hpos := c.utf8Size_pos
    obtain ⟨k, hk⟩ : ∃ k, c.utf8Size + width cs = k + 1 :=
      ⟨c.utf8Size + width cs - 1, by omega⟩
    rw [List.cons_append, width_cons, hk, cut?, if_pos (by omega),
      show k + 1 - c.utf8Size = width cs by omega, ih]
    rfl

theorem cut_width_append (before after : List Char) :
    cut (before ++ after) (width before) = (before, after) := by
  induction before with
  | nil =>
    cases after with
    | nil => rfl
    | cons c cs =>
      have hpos := c.utf8Size_pos
      rw [List.nil_append, cut, if_neg (by rw [width_nil]; omega)]
  | cons c cs ih =>
    rw [List.cons_append, cut, width_cons, if_pos (Nat.le_add_right _ _), Nat.add_sub_cancel_left,
      ih]

/-- At its end nothing is cut off a text. -/
theorem cut_end (s : String) : cut s.toList s.utf8ByteSize = (s.toList, []) := by
  have hcut := cut_width_append s.toList []
  rwa [List.append_nil, width_toList] at hcut

/-- The text between two byte offsets, if both are character boundaries of it
in this order. -/
def slice? (cs : List Char) (start stop : Nat) : Option (List Char) :=
  if start ≤ stop then do
    let (_, after) ← cut? cs start
    let (piece, _) ← cut? after (stop - start)
    pure piece
  else none

/-- Between the widths of two beginnings of a text stands what one of them has
more than the other. -/
theorem slice?_append (before piece after : List Char) :
    slice? (before ++ (piece ++ after)) (width before) (width before + width piece) =
      some piece := by
  rw [slice?, if_pos (Nat.le_add_right _ _), Nat.add_sub_cancel_left, cut?_append]
  simp [cut?_append]

end MissionText.Text
