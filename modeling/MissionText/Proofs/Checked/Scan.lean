import MissionText.Checked.Scan
import MissionText.Proofs.Scan.Layout
import MissionText.Proofs.Token.Claimed
/-!
# Checked scans succeed

Where a token ends a character ends, so the next round cuts the text where it
can be cut. By induction on the layout of the text, a checked scan reads the
tokens of the layout and takes no step that cannot be taken.
-/

namespace MissionText.Checked

open Text Token Scan

variable {matcher : Matcher} {start : Nat} {before cs gap piece rest : List Char}
  {tokens : List Token}

/-! ## One round -/

theorem width_eq_zero_iff : width cs = 0 ↔ cs = [] := by
  refine ⟨fun h => List.eq_nil_of_length_eq_zero ?_, fun h => h ▸ rfl⟩
  have := length_le_width cs
  omega

/-- The blanks at the start of a text are as wide as the text is wider with
them. -/
theorem difference_dropWhile (hgap : Blank gap) (hrest : ∀ c ∈ rest.head?, isBlank c = false) :
    difference (width (gap ++ rest)) (width ((gap ++ rest).dropWhile isBlank)) =
      .ok (width gap) := by
  rw [dropWhile_append_of_head hrest, List.dropWhile_eq_nil_iff.2 hgap, List.nil_append,
    width_append, difference_add_right]

/-- A piece is classified as the token that it is read as. -/
theorem classify_piece (hpiece : IsPiece piece) (hrest : AtBoundary rest)
    (hopen : rest = [] ∨ (ofPiece 0 piece).isOpen = false) (before : List Char) :
    classify matcher (before ++ (piece ++ rest)) (width before) =
      .ok (ofPiece (width before) piece) := by
  obtain ⟨c, tail, rfl, hink⟩ := hpiece.exists_cons
  rw [List.cons_append, classify_eq_read matcher hink, ← List.cons_append,
    hpiece.read_append hrest hopen]

/-- The last round goes over blanks. -/
theorem readFrom_of_blank (hgap : Blank gap) (before : List Char) :
    readFrom matcher (before ++ gap) (width before) = .ok ⟨[], width before + width gap⟩ := by
  have hdiff : difference (width gap) (width (gap.dropWhile isBlank)) = .ok (width gap) := by
    rw [List.dropWhile_eq_nil_iff.2 hgap, width_nil, difference_of_le (Nat.zero_le _), Nat.sub_zero]
  rw [readFrom]
  simp only [after_append, ok_bind, hdiff, width_append, Nat.le_refl, dite_true]
  split
  · rename_i hzero
    rw [hzero.2]
    rfl
  · rfl

/-- **Any other round reads a piece**, at the beginning of the text or after a
blank, and the next one starts where the piece ends. -/
theorem readFrom_of_piece (hgap : Blank gap) (hpiece : IsPiece piece) (hrest : AtBoundary rest)
    (hopen : rest = [] ∨ (ofPiece 0 piece).isOpen = false) (hstart : before = [] ∨ gap ≠ [])
    {later : Scan}
    (hnext : readFrom matcher (before ++ (gap ++ (piece ++ rest)))
      (width before + width gap + width piece) = .ok later) :
    readFrom matcher (before ++ (gap ++ (piece ++ rest))) (width before) =
      .ok ⟨ofPiece (width before + width gap) piece :: later.tokens, later.stop⟩ := by
  have hpos : 0 < width piece := Nat.pos_of_ne_zero fun h => hpiece.ne_nil (width_eq_zero_iff.1 h)
  have hgo : ¬ (0 < width before ∧ width gap = 0) := by
    rintro ⟨hbefore, hzero⟩
    rcases hstart with rfl | hne
    · cases hbefore
    · exact hne (width_eq_zero_iff.1 hzero)
  have hclassify : classify matcher (before ++ (gap ++ (piece ++ rest)))
      (width before + width gap) = .ok (ofPiece (width before + width gap) piece) := by
    rw [← List.append_assoc, ← width_append]
    exact classify_piece hpiece hrest hopen _
  have hend : ¬ width (before ++ (gap ++ (piece ++ rest))) ≤ width before + width gap := by
    simp only [width_append]
    omega
  have hstop : width before + width gap <
      (ofPiece (width before + width gap) piece).span.stop := by
    rw [hpiece.stop_ofPiece]
    omega
  rw [readFrom]
  simp only [after_append, ok_bind, difference_dropWhile hgap hpiece.isBlank_head]
  rw [if_neg hgo, dif_neg hend, hclassify, ok_bind, dif_pos hstop, hpiece.stop_ofPiece, hnext]
  rfl

/-! ## All rounds -/

/-- **A checked scan reads the layout of its text.** -/
theorem readFrom_of_laid (h : Laid start cs tokens) (hbefore : width before = start)
    (hstart : before = [] ∨ AtBoundary cs) :
    readFrom matcher (before ++ cs) start = .ok ⟨tokens, start + width cs⟩ := by
  induction h generalizing before with
  | blank hgap =>
    subst hbefore
    exact readFrom_of_blank hgap before
  | @token start gap piece rest tokens hgap hpiece hrest hopen hlaid ih =>
    subst hbefore
    -- a piece is no boundary, so a text at a boundary begins with a gap
    have hgap' : before = [] ∨ gap ≠ [] := by
      refine hstart.imp_right fun hb hnil => ?_
      rw [hnil, List.nil_append] at hb
      exact hpiece.not_atBoundary hb
    have hnext : readFrom matcher (before ++ gap ++ piece ++ rest)
        (width before + width gap + width piece) =
          .ok ⟨tokens, width before + width gap + width piece + width rest⟩ :=
      ih (by simp only [width_append]) (.inr hrest)
    rw [List.append_assoc, List.append_assoc] at hnext
    rw [readFrom_of_piece hgap hpiece hrest hopen hgap' hnext]
    simp only [width_append, Nat.add_assoc]

/-- **A checked scan is the scan.** -/
theorem scan_eq (matcher : Matcher) (cs : List Char) : scan matcher cs = .ok (ofChars cs) := by
  have hread : readFrom matcher ([] ++ cs) 0 = .ok ⟨(ofChars cs).tokens, 0 + width cs⟩ :=
    readFrom_of_laid (laid_ofChars cs) rfl (.inl rfl)
  rwa [List.nil_append, Nat.zero_add, ← ofChars_stop] at hread

end MissionText.Checked
