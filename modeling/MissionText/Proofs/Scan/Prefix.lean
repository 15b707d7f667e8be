import MissionText.Completion.Stub
import MissionText.Proofs.Scan.Layout
/-!
# Prefixes — what a scan knows before the end of its text

Candidates are offered from the text before the cursor alone. The scan of that
text knows every token of the whole line that ends before the cursor, as it
is. Of the token that reaches the cursor it knows where it begins, though what
follows may make the token longer or change what it says. Both are proved by
induction on the layout of the text before the cursor (`Laid.exists_continued`):
a token that something follows is settled, since reading is local, and the
last one can only grow (`IsPiece.exists_longer`).
-/

namespace MissionText

open Text

variable {start cursor : Nat} {piece after before cs : List Char} {tokens whole : List Token}

/-- **A piece can only grow.** The piece at its place in a longer text is no
shorter. -/
theorem Token.IsPiece.exists_longer (h : IsPiece piece) (after : List Char) :
    ∃ longer rest, piece ++ after = longer ++ rest ∧ IsPiece longer ∧ AtBoundary rest ∧
      (rest = [] ∨ (ofPiece 0 longer).isOpen = false) ∧ width piece ≤ width longer := by
  obtain ⟨c, tail, rfl, hink⟩ := h.exists_cons
  obtain ⟨longer, rest, hsplit, hlonger, hrest, hopen⟩ := exists_piece hink (tail ++ after)
  refine ⟨longer, rest, hsplit, hlonger, hrest, hopen, ?_⟩
  rcases List.append_eq_append_iff.1 (List.cons_append ▸ hsplit) with
    ⟨more, rfl, -⟩ | ⟨more, hpiece, rfl⟩
  · simp
  · -- had the longer text a shorter piece, that would be read from the piece too
    rcases eq_or_ne more [] with rfl | hmore
    · rw [hpiece, List.append_nil]
    · have hmoreBoundary : AtBoundary more := by
        obtain ⟨e, more, rfl⟩ := List.exists_cons_of_ne_nil hmore
        simpa using hrest
      have hclosed : (ofPiece 0 longer).isOpen = false :=
        hopen.resolve_left fun hnil => hmore (List.append_eq_nil_iff.1 hnil).1
      have hwhole := h.whole
      rw [hpiece, hlonger.read_append hmoreBoundary (.inr hclosed)] at hwhole
      exact absurd hwhole hmore

namespace Scan

/-- A text that ends with ink ends with a token. -/
theorem Laid.isBlank_getLast (h : Laid start cs tokens)
    (hlast : ∀ token ∈ tokens.getLast?, token.span.stop ≠ start + width cs) :
    ∀ c ∈ cs.getLast?, isBlank c = true := by
  induction h with
  | blank hgap => exact fun c hc => hgap c (List.mem_of_mem_getLast? hc)
  | @token start gap piece rest tokens hgap hpiece hrest hopen hlaid ih =>
    rcases eq_or_ne rest [] with rfl | hne
    · obtain rfl := hlaid.eq_nil_iff.2 nofun
      simp [hpiece.stop_ofPiece, Nat.add_assoc] at hlast
    · have hlast' : ∀ token ∈ tokens.getLast?, token.span.stop ≠
          start + width gap + width piece + width rest := by
        intro token htoken hstop
        refine hlast token ?_ ?_
        · rw [List.getLast?_cons, Option.mem_def.1 htoken]
          rfl
        · rw [hstop]
          simp [Nat.add_assoc]
      simpa [List.getLast?_append, hne] using ih hlast'

/-- What the tokens before a cursor say about those of the whole line. -/
structure Continued (cursor : Nat) (tokens whole : List Token) : Prop where
  /-- The tokens that end before the cursor are the same. -/
  settled : whole.filter (·.span.stop < cursor) = tokens.filter (·.span.stop < cursor)
  /-- A token that reaches the cursor begins where it is seen to begin. -/
  typed : ∀ token ∈ tokens.getLast?, token.span.stop = cursor →
    ∃ grown ∈ whole, grown.span.start = token.span.start ∧ cursor ≤ grown.span.stop
  /-- If none is seen to reach the cursor, none stands there. -/
  untyped : (∀ token ∈ tokens.getLast?, token.span.stop ≠ cursor) →
    ∀ token ∈ whole, token.span.stop ≤ cursor ∨ cursor ≤ token.span.start

/-- A settled token before the cursor. -/
theorem Continued.cons (h : Continued cursor tokens whole) {token : Token}
    (hstop : token.span.stop < cursor) : Continued cursor (token :: tokens) (token :: whole) := by
  have hlast : ∀ last ∈ (token :: tokens).getLast?, last = token ∨ last ∈ tokens.getLast? := by
    intro last hlast
    rw [List.getLast?_cons] at hlast
    cases htokens : tokens.getLast? with
    | none => simpa [htokens, eq_comm] using hlast
    | some other => exact .inr (by simpa [htokens] using hlast)
  refine ⟨?_, fun last hmem hcursor => ?_, fun hnone other hother => ?_⟩
  · simp [hstop, h.settled]
  · rcases hlast last hmem with rfl | hmem
    · omega
    · obtain ⟨grown, hgrown, hspan⟩ := h.typed last hmem hcursor
      exact ⟨grown, List.mem_cons_of_mem _ hgrown, hspan⟩
  · rcases List.mem_cons.1 hother with rfl | hother
    · exact .inl (Nat.le_of_lt hstop)
    · refine h.untyped (fun last hmem => hnone last ?_) other hother
      rw [List.getLast?_cons, Option.mem_def.1 hmem]
      rfl

/-- Nothing is settled of tokens that stop at the cursor or later. -/
theorem filter_settled_eq_nil (h : ∀ token ∈ tokens, cursor ≤ token.span.stop) :
    tokens.filter (·.span.stop < cursor) = [] := by
  refine List.filter_eq_nil_iff.2 fun token htoken => ?_
  have := h token htoken
  simpa using this

/-- **A scan of the text before a cursor is continued by that of the whole
line.** -/
theorem Laid.exists_continued (h : Laid start before tokens) (after : List Char) :
    ∃ whole, Laid start (before ++ after) whole ∧
      Continued (start + width before) tokens whole := by
  induction h with
  | @blank start gap hgap =>
    obtain ⟨whole, hwhole⟩ := exists_laid (start + width gap) after
    have hle := hwhole.start_le
    refine ⟨whole, hwhole.blank_append hgap, ?_, by simp, fun _ token htoken => .inr (hle _ htoken)⟩
    refine filter_settled_eq_nil fun token htoken => ?_
    have := hle token htoken
    rw [Span.stop]
    omega
  | @token start gap piece rest tokens hgap hpiece hrest hopen hlaid ih =>
    have hcursor : start + width (gap ++ (piece ++ rest)) =
        start + width gap + width piece + width rest := by
      simp [Nat.add_assoc]
    rw [hcursor, List.append_assoc, List.append_assoc]
    rcases eq_or_ne rest [] with rfl | hne
    · -- the last token reaches the cursor, and may grow
      obtain rfl := hlaid.eq_nil_iff.2 nofun
      obtain ⟨longer, rest, hsplit, hlonger, hrest, hopen, hgrown⟩ := hpiece.exists_longer after
      obtain ⟨whole, hwhole⟩ := exists_laid (start + width gap + width longer) rest
      have hstop := hpiece.stop_ofPiece (start + width gap)
      have hstop' := hlonger.stop_ofPiece (start + width gap)
      rw [List.nil_append, hsplit, width_nil, Nat.add_zero]
      refine ⟨_, .token hgap hlonger hrest hopen hwhole, ?_, fun token htoken _ => ?_,
        fun hnone => ?_⟩
      · rw [filter_settled_eq_nil, filter_settled_eq_nil]
        · simp [hstop]
        · intro token htoken
          rcases List.mem_cons.1 htoken with rfl | htoken
          · omega
          · have := hwhole.start_le token htoken
            rw [Span.stop]
            omega
      · obtain rfl : Token.ofPiece (start + width gap) piece = token := by simpa using htoken
        refine ⟨_, List.mem_cons_self, ?_, by omega⟩
        rw [hlonger.span_ofPiece, hpiece.span_ofPiece]
      · exact absurd hstop (hnone _ rfl)
    · -- the token is settled, since a boundary follows it
      obtain ⟨whole, hwhole, hcontinued⟩ := ih
      have hrest' : AtBoundary (rest ++ after) := hrest.append hne
      have hclosed := hopen.resolve_left hne
      refine ⟨_, .token hgap hpiece hrest' (.inr hclosed) hwhole, hcontinued.cons ?_⟩
      have := length_le_width rest
      have := List.length_pos_iff.2 hne
      rw [hpiece.stop_ofPiece]
      omega

/-- A scan of the text before a cursor is continued by that of the whole
line. -/
theorem continued_ofChars (before after : List Char) :
    Continued (width before) (ofChars before).tokens (ofChars (before ++ after)).tokens := by
  obtain ⟨whole, hwhole, hcontinued⟩ := (laid_ofChars before).exists_continued after
  rw [ofChars_eq_of_laid hwhole]
  simpa using hcontinued

end Scan

/-! ## The token that is being typed -/

theorem inProgress?_eq_some_iff {token : Token} :
    inProgress? before = some token ↔
      token ∈ (Scan.ofChars before).tokens.getLast? ∧ token.span.stop = width before := by
  simp [inProgress?, Scan.trailing?, Scan.ofChars_stop]

theorem inProgress?_eq_none_iff :
    inProgress? before = none ↔
      ∀ token ∈ (Scan.ofChars before).tokens.getLast?, token.span.stop ≠ width before := by
  simp [inProgress?, Scan.trailing?, Scan.ofChars_stop]

/-- **The tokens at a cursor are those of the whole line.** The text before the
cursor has the same tokens that end before it; a token in progress begins where
a token of the line begins that reaches the cursor; and if there is none, the
text before the cursor is blank or ends with a blank, and no token of the line
stands across the cursor. -/
theorem tokens_agree_at_cursor (text : String) {cursor : Nat}
    (hcut : cut? text.toList cursor = some (before, after)) :
    (Scan.ofChars before).tokens.filter (·.span.stop < cursor) =
        (Scan.ofText text).tokens.filter (·.span.stop < cursor) ∧
      (∀ token, inProgress? before = some token → ∃ whole ∈ (Scan.ofText text).tokens,
        whole.span.start = token.span.start ∧ cursor ≤ whole.span.stop) ∧
      (inProgress? before = none →
        (Blank before ∨ ∃ c ∈ before.getLast?, isBlank c = true) ∧
          ∀ whole ∈ (Scan.ofText text).tokens,
            ¬ (whole.span.start < cursor ∧ cursor < whole.span.stop)) := by
  obtain ⟨htext, rfl⟩ := append_of_cut? hcut
  have hcontinued := Scan.continued_ofChars before after
  rw [htext] at hcontinued
  refine ⟨hcontinued.settled.symm, fun token htoken => ?_,
    fun hnone => ⟨?_, fun whole hwhole => ?_⟩⟩
  · obtain ⟨hlast, hstop⟩ := inProgress?_eq_some_iff.1 htoken
    exact hcontinued.typed token hlast hstop
  · have hlast := (Scan.laid_ofChars before).isBlank_getLast (by
      simpa using inProgress?_eq_none_iff.1 hnone)
    rcases List.eq_nil_or_concat before with rfl | ⟨cs, c, rfl⟩
    · exact .inl nofun
    · exact .inr ⟨c, by simp, hlast c (by simp)⟩
  · have := hcontinued.untyped (inProgress?_eq_none_iff.1 hnone) whole hwhole
    omega

/-- A cursor after the first word of a quoted identifier. -/
theorem tokens_agree_at_cursor_quoted :
    cut? "2:00 \"My Mod\" Wires".toList 8 =
        some ("2:00 \"My".toList, " Mod\" Wires".toList) ∧
      inProgress? "2:00 \"My".toList = some ⟨⟨5, 3⟩, .pool ⟨none, "\"My", 5⟩⟩ ∧
      ∃ whole ∈ (Scan.ofText "2:00 \"My Mod\" Wires").tokens,
        whole.span.start = 5 ∧ 8 ≤ whole.span.stop := by
  have hcut : cut? "2:00 \"My Mod\" Wires".toList 8 =
      some ("2:00 \"My".toList, " Mod\" Wires".toList) := by decide
  have htyped : inProgress? "2:00 \"My".toList = some ⟨⟨5, 3⟩, .pool ⟨none, "\"My", 5⟩⟩ := by
    decide +kernel
  obtain ⟨-, hinProgress, -⟩ := tokens_agree_at_cursor "2:00 \"My Mod\" Wires" hcut
  exact ⟨hcut, htyped, hinProgress _ htyped⟩

end MissionText
