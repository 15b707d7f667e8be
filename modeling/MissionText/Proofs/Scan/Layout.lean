import MissionText.Proofs.Token.Piece
import MissionText.Scan
/-!
# Layouts — how tokens lie in a text

`Laid start cs tokens` says that the text `cs`, which begins at offset
`start`, is made of blanks and pieces in turn, and that `tokens` are what the
pieces are read as. Every text has a layout (`exists_laid`), and the scan of a
text is its layout (`readFrom_eq_of_laid`), so the scan never stops before the
end of the text. What later files say about scans they prove by induction on
the layout, one case for a rest of blanks and one for a piece.
-/

namespace MissionText.Scan

open Text Token

variable {start : Nat} {cs gap piece rest before after : List Char} {tokens : List Token}

/-- **The layout of a text**: pieces with blanks before, between and after
them. -/
inductive Laid : Nat → List Char → List Token → Prop
  /-- Nothing but blanks is left. -/
  | blank {start : Nat} {gap : List Char} (hgap : Blank gap) : Laid start gap []
  /-- After some blanks there is a piece, and after the piece a boundary. A
  quote is open there only if nothing follows. -/
  | token {start : Nat} {gap piece rest : List Char} {tokens : List Token}
      (hgap : Blank gap) (hpiece : IsPiece piece) (hrest : AtBoundary rest)
      (hopen : rest = [] ∨ (ofPiece 0 piece).isOpen = false)
      (hlaid : Laid (start + width gap + width piece) rest tokens) :
      Laid start (gap ++ (piece ++ rest)) (ofPiece (start + width gap) piece :: tokens)

/-- A text has a layout wherever it begins. -/
theorem exists_laid (start : Nat) (cs : List Char) : ∃ tokens, Laid start cs tokens := by
  induction hlen : cs.length using Nat.strongRecOn generalizing start cs with
  | _ n ih =>
    subst hlen
    have hgap : Blank (cs.takeWhile isBlank) := fun c hc => List.mem_takeWhile_imp hc
    have hcs : cs.takeWhile isBlank ++ cs.dropWhile isBlank = cs :=
      List.takeWhile_append_dropWhile
    cases hdrop : cs.dropWhile isBlank with
    | nil =>
      rw [hdrop, List.append_nil] at hcs
      exact ⟨[], hcs ▸ .blank hgap⟩
    | cons c tail =>
      have hink : isBlank c = false := by
        have := List.head?_dropWhile_not isBlank cs
        rwa [hdrop] at this
      obtain ⟨piece, rest, hsplit, hpiece, hrest, hopen⟩ := exists_piece hink tail
      rw [hdrop, hsplit] at hcs
      -- the piece is not empty, so the induction goes on with a shorter text
      have hshort : rest.length < cs.length := by
        have := List.length_pos_iff.2 hpiece.ne_nil
        rw [← hcs]
        simp only [List.length_append]
        omega
      obtain ⟨tokens, hlaid⟩ :=
        ih rest.length hshort (start + width (cs.takeWhile isBlank) + width piece) rest rfl
      refine ⟨ofPiece (start + width (cs.takeWhile isBlank)) piece :: tokens, ?_⟩
      have := Laid.token hgap hpiece hrest hopen hlaid
      rwa [hcs] at this

/-- A layout with more blanks before it. -/
theorem Laid.blank_append (h : Laid (start + width gap) cs tokens) (hgap : Blank gap) :
    Laid start (gap ++ cs) tokens := by
  generalize hstart : start + width gap = begin at h
  cases h with
  | blank hcs =>
    refine .blank fun c hc => ?_
    exact (List.mem_append.1 hc).elim (hgap c) (hcs c)
  | @token _ gap' piece rest tokens hgap' hpiece hrest hopen hlaid =>
    subst hstart
    have hboth : Blank (gap ++ gap') := fun c hc =>
      (List.mem_append.1 hc).elim (hgap c) (hgap' c)
    have hwidth : start + width gap + width gap' = start + width (gap ++ gap') := by
      rw [width_append, Nat.add_assoc]
    rw [hwidth] at hlaid ⊢
    rw [← List.append_assoc]
    exact .token hboth hpiece hrest hopen hlaid

/-! ## Where the tokens stand -/

/-- A layout has no tokens exactly if its text is blank. -/
theorem Laid.eq_nil_iff (h : Laid start cs tokens) : tokens = [] ↔ Blank cs := by
  cases h with
  | blank hgap => simpa using hgap
  | token _ hpiece =>
    obtain ⟨c, tail, rfl, hink⟩ := hpiece.exists_cons
    simp only [reduceCtorEq, false_iff]
    intro hblank
    rw [hblank c (by simp)] at hink
    cases hink

/-- The tokens of a layout start where the text does, or later. -/
theorem Laid.start_le (h : Laid start cs tokens) : ∀ token ∈ tokens, start ≤ token.span.start := by
  induction h with
  | blank => simp
  | token _ hpiece _ _ _ ih =>
    intro token htoken
    rcases List.mem_cons.1 htoken with rfl | htoken
    · rw [hpiece.span_ofPiece]
      exact Nat.le_add_right _ _
    · have := ih token htoken
      omega

/-- At a boundary the tokens of a layout start later than the text. -/
theorem Laid.start_lt (h : Laid start cs tokens) (hcs : AtBoundary cs) :
    ∀ token ∈ tokens, start < token.span.start := by
  induction h with
  | blank => simp
  | @token start gap piece rest tokens hgap hpiece hrest hopen hlaid ih =>
    have hpos : 0 < width gap := by
      have := length_le_width gap
      cases gap with
      | nil => exact absurd hcs hpiece.not_atBoundary
      | cons c gap => simp only [List.length_cons] at this; omega
    intro token htoken
    rcases List.mem_cons.1 htoken with rfl | htoken
    · rw [hpiece.span_ofPiece]
      exact Nat.lt_add_of_pos_right hpos
    · have := ih hrest token htoken
      omega

/-! ## The scan is the layout -/

/-- How blanks are scanned. -/
theorem readFrom_blank (hgap : Blank gap) (start : Nat) :
    readFrom start gap = ⟨[], start + width gap⟩ := by
  have htake : gap.takeWhile isBlank = gap := List.takeWhile_eq_self_iff.2 hgap
  have hdrop : gap.dropWhile isBlank = [] := List.dropWhile_eq_nil_iff.2 hgap
  rw [readFrom, htake]
  split
  · rename_i h
    simp [h.2]
  · split
    · rfl
    · rename_i heq
      rw [hdrop] at heq
      cases heq

/-- **How a piece is scanned**, at the beginning of the text or after a
blank. -/
theorem readFrom_piece (hgap : Blank gap) (hpiece : IsPiece piece) (hrest : AtBoundary rest)
    (hopen : rest = [] ∨ (ofPiece 0 piece).isOpen = false) (hstart : start = 0 ∨ gap ≠ []) :
    readFrom start (gap ++ (piece ++ rest)) =
      ⟨ofPiece (start + width gap) piece ::
          (readFrom (start + width gap + width piece) rest).tokens,
        (readFrom (start + width gap + width piece) rest).stop⟩ := by
  have htake : (gap ++ (piece ++ rest)).takeWhile isBlank = gap := by
    rw [takeWhile_append_of_head hpiece.isBlank_head, List.takeWhile_eq_self_iff.2 hgap]
  have hdrop : (gap ++ (piece ++ rest)).dropWhile isBlank = piece ++ rest := by
    rw [dropWhile_append_of_head hpiece.isBlank_head, List.dropWhile_eq_nil_iff.2 hgap,
      List.nil_append]
  -- the scan does not break off here, since there is a gap or nothing came before
  rw [readFrom, htake, if_neg fun h => hstart.elim (fun hzero => by omega) (· h.2)]
  split
  · rename_i heq
    rw [hdrop] at heq
    exact absurd (List.append_eq_nil_iff.1 heq).1 hpiece.ne_nil
  · rename_i c tail heq
    rw [hdrop] at heq
    simp only [← heq, hpiece.read_append hrest hopen, hpiece.stop_ofPiece]

/-- **The scan of a text is its layout**, and it reaches the end of the text.
The text has to begin where a token may begin: at offset zero, or with a
blank. -/
theorem readFrom_eq_of_laid (h : Laid start cs tokens) (hstart : start = 0 ∨ AtBoundary cs) :
    readFrom start cs = ⟨tokens, start + width cs⟩ := by
  induction h with
  | blank hgap => exact readFrom_blank hgap _
  | @token start gap piece rest tokens hgap hpiece hrest hopen _ ih =>
    -- a piece is no boundary, so a text at a boundary begins with a gap
    have hgap' : start = 0 ∨ gap ≠ [] := by
      refine hstart.imp_right fun hb hnil => ?_
      rw [hnil, List.nil_append] at hb
      exact hpiece.not_atBoundary hb
    rw [readFrom_piece hgap hpiece hrest hopen hgap', ih (.inr hrest)]
    simp only [width_append, Nat.add_assoc]

theorem ofChars_eq_of_laid (h : Laid 0 cs tokens) : ofChars cs = ⟨tokens, width cs⟩ := by
  rw [ofChars, readFrom_eq_of_laid h (.inl rfl), Nat.zero_add]

/-- Every text is laid out as it is scanned. -/
theorem laid_ofChars (cs : List Char) : Laid 0 cs (ofChars cs).tokens := by
  obtain ⟨tokens, h⟩ := exists_laid 0 cs
  rw [ofChars_eq_of_laid h]
  exact h

/-- **A scan reaches the end of its text.** -/
theorem ofChars_stop (cs : List Char) : (ofChars cs).stop = width cs := by
  rw [ofChars_eq_of_laid (laid_ofChars cs)]

/-- **A scan finds no tokens exactly in a blank text.** -/
theorem tokens_ofChars_eq_nil_iff : (ofChars cs).tokens = [] ↔ Blank cs :=
  (laid_ofChars cs).eq_nil_iff

end MissionText.Scan
