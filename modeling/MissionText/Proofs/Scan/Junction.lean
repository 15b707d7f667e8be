import MissionText.Proofs.Scan.Layout
import MissionText.Proofs.Text.CommaList
/-!
# Junctions — where a text is put together anew

What becomes of the tokens of a line when a part of it is replaced. A token can
be cut out of its layout and anything else laid out in its place (`Around`), two
layouts with a boundary between them are one (`Laid.append`), and a layout is
the same at any offset but for the places of its tokens (`Laid.moved`). So the
text after a replaced part is read as before, **unless a quote is left open
there**: an open quote takes in the first token of what follows
(`tokens_after_iff`).
-/

namespace MissionText

open Text

variable {start old new : Nat} {cs piece gap rest : List Char} {tokens later : List Token}
  {token : Token}

/-! ## Moving tokens -/

namespace Token

/-- The token as it stands after everything from one offset on has moved to
another. -/
def moved (old new : Nat) (token : Token) : Token where
  span := ⟨token.span.start + new - old, token.span.length⟩
  kind := match token.kind with
    | .pool pool => .pool { pool with idListStart := pool.idListStart + new - old }
    | kind => kind

/-- Only the difference of the offsets counts. -/
theorem moved_add (old new n : Nat) : moved (old + n) (new + n) = moved old new := by
  funext token
  simp only [moved, ← Nat.add_assoc, Nat.add_sub_add_right]

/-- **A piece reads the same at any offset**, but for its place. -/
theorem IsPiece.moved_ofPiece (h : IsPiece piece) (hle : old ≤ start) :
    (ofPiece start piece).moved old new = ofPiece (start + new - old) piece := by
  have hspan (s : Nat) := h.span_ofPiece s
  cases hrun : TokenKind.ofRun? (piece.takeWhile isInk) with
  | none =>
    have hkind (s : Nat) := h.ofPiece_pool hrun s
    have hskip (n : Nat) : start + n + new - old = start + new - old + n := by omega
    cases hpiece : ofPiece (start + new - old) piece
    simp only [moved, hspan, hkind, hskip]
    simp only [← hkind, ← hspan, hpiece]
  | some kind =>
    simp only [moved, ofPiece, read_of_ofRun?_eq_some hrun]
    cases kind with
    | pool pool => exact absurd hrun (TokenKind.ofRun?_ne_pool pool)
    | _ => rfl

/-- Whether a quote is left open does not hang on the offset. -/
theorem IsPiece.isOpen_ofPiece (h : IsPiece piece) (start : Nat) :
    (ofPiece start piece).isOpen = (ofPiece 0 piece).isOpen := by
  cases hrun : TokenKind.ofRun? (piece.takeWhile isInk) with
  | none => rw [isOpen, isOpen, h.ofPiece_pool hrun, h.ofPiece_pool hrun]
  | some kind => simp only [isOpen, ofPiece, read_of_ofRun?_eq_some hrun]

/-- **An open quote reads on.** Before any boundary a piece that leaves a quote
open goes on as long as the quoted run of what follows. -/
theorem IsPiece.read_append_of_isOpen (h : IsPiece piece)
    (hopen : (ofPiece 0 piece).isOpen = true) (hrest : AtBoundary rest) (start : Nat) :
    (read start (piece ++ rest)).2 = (quotedRun true rest).2 := by
  have htake : (piece ++ rest).takeWhile isInk = piece.takeWhile isInk :=
    takeWhile_append_of_head hrest.isInk_head
  cases hrun : TokenKind.ofRun? (piece.takeWhile isInk) with
  | none =>
    have hquoted : quotedAfter false (PoolToken.readCount piece).2.2 = true := by
      rw [isOpen, h.ofPiece_pool hrun] at hopen
      simpa using hopen
    rw [read_of_ofRun?_eq_none (by rw [htake]; exact hrun)]
    simp only [PoolToken.read_eq, PoolToken.readCount_append hrest,
      quotedRun_append_of_unbroken (h.unbroken hrun), hquoted]
  | some kind =>
    rw [isOpen_ofPiece_of_run hrun] at hopen
    cases hopen

end Token

namespace Scan

open Token

/-- **A layout is the same at any offset**, but for the places of its tokens. -/
theorem Laid.moved (h : Laid start cs tokens) (hle : old ≤ start) :
    Laid (start + new - old) cs (tokens.map (Token.moved old new)) := by
  induction h with
  | blank hgap => exact .blank hgap
  | @token start gap piece rest tokens hgap hpiece hrest hopen hlaid ih =>
    have hle' : old ≤ start + width gap := by omega
    have hgap' : start + width gap + new - old = start + new - old + width gap := by omega
    have hrest' : start + width gap + width piece + new - old =
        start + new - old + width gap + width piece := by omega
    have hih := ih (by omega)
    rw [hrest'] at hih
    rw [List.map_cons, hpiece.moved_ofPiece hle', hgap']
    exact .token hgap hpiece hrest hopen hih

/-- The layout of a text that begins with a piece. -/
theorem Laid.of_piece (hpiece : IsPiece piece) (hrest : AtBoundary rest)
    (hopen : rest = [] ∨ (ofPiece 0 piece).isOpen = false)
    (hlaid : Laid (start + width piece) rest tokens) :
    Laid start (piece ++ rest) (ofPiece start piece :: tokens) := by
  have hall : Laid start ([] ++ (piece ++ rest)) (ofPiece (start + width []) piece :: tokens) :=
    .token nofun hpiece hrest hopen hlaid
  exact hall

/-- The layout of one piece. -/
theorem laid_piece (hpiece : IsPiece piece) (start : Nat) :
    Laid start piece [ofPiece start piece] := by
  have hnil : Laid (start + width piece) [] [] := .blank nofun
  have hlaid := Laid.of_piece hpiece atBoundary_nil (.inl rfl) hnil
  rwa [List.append_nil] at hlaid

/-- The tokens of a layout start before its end. -/
theorem Laid.start_lt_stop (h : Laid start cs tokens) :
    ∀ token ∈ tokens, token.span.start < start + width cs := by
  induction h with
  | blank => simp
  | @token start gap piece rest tokens hgap hpiece hrest hopen hlaid ih =>
    have hpos := length_le_width piece
    have hne := List.length_pos_iff.2 hpiece.ne_nil
    intro token htoken
    simp only [width_append]
    rcases List.mem_cons.1 htoken with rfl | htoken
    · rw [hpiece.span_ofPiece]
      simp only
      omega
    · have := ih token htoken
      omega

/-! ## A token in its place -/

/-- **A token of a layout in its place**: its piece, the text and the tokens
before it, and those after it. -/
structure Around (start : Nat) (cs : List Char) (tokens : List Token) (token : Token)
    (before piece after : List Char) (prior later : List Token) : Prop where
  text : cs = before ++ (piece ++ after)
  order : tokens = prior ++ token :: later
  isPiece : IsPiece piece
  read : token = ofPiece (start + width before) piece
  boundary : AtBoundary after
  /-- A quote is open after the piece only if nothing follows. -/
  closed : after = [] ∨ (ofPiece 0 piece).isOpen = false
  follows : Laid (start + width before + width piece) after later
  /-- No quote is open before the piece. -/
  settled : ∀ token ∈ prior, token.isOpen = false
  /-- Anything may be laid out in the place of the piece and what follows. -/
  replace : ∀ {other : List Char} {more : List Token},
    Laid (start + width before) other more → Laid start (before ++ other) (prior ++ more)

theorem Around.span_start {before after : List Char} {prior : List Token}
    (h : Around start cs tokens token before piece after prior later) :
    token.span.start = start + width before := by
  rw [h.read, h.isPiece.span_ofPiece]

theorem Around.span_stop {before after : List Char} {prior : List Token}
    (h : Around start cs tokens token before piece after prior later) :
    token.span.stop = start + width before + width piece := by
  rw [h.read, h.isPiece.stop_ofPiece]

/-- Every token of a layout stands in its place. -/
theorem Laid.exists_around (h : Laid start cs tokens) (hmem : token ∈ tokens) :
    ∃ before piece after prior later,
      Around start cs tokens token before piece after prior later := by
  induction h with
  | blank => cases hmem
  | @token start gap piece rest tokens hgap hpiece hrest hopen hlaid ih =>
    rcases List.mem_cons.1 hmem with rfl | hmem
    · exact ⟨gap, piece, rest, [], tokens, rfl, rfl, hpiece, rfl, hrest, hopen, hlaid, nofun,
        fun hother => hother.blank_append hgap⟩
    · obtain ⟨before, found, after, prior, later, haround⟩ := ih hmem
      have hwidth : start + width (gap ++ (piece ++ before)) =
          start + width gap + width piece + width before := by
        simp [Nat.add_assoc]
      have hne : rest ≠ [] := by
        rw [haround.text]
        simp [haround.isPiece.ne_nil]
      have hclosed := hopen.resolve_left hne
      -- a piece is no boundary, so there are blanks between the two
      have hbefore : before ≠ [] := by
        rintro rfl
        rw [haround.text, List.nil_append] at hrest
        exact haround.isPiece.not_atBoundary hrest
      refine ⟨gap ++ (piece ++ before), found, after, ofPiece (start + width gap) piece :: prior,
        later, ?_, ?_, haround.isPiece, ?_, haround.boundary, haround.closed, ?_, ?_, ?_⟩
      · rw [haround.text]
        simp
      · rw [haround.order]
        rfl
      · rw [hwidth]
        exact haround.read
      · rw [hwidth]
        exact haround.follows
      · intro other hother
        rcases List.mem_cons.1 hother with rfl | hother
        · rw [hpiece.isOpen_ofPiece]
          exact hclosed
        · exact haround.settled other hother
      · intro other more hother
        rw [hwidth] at hother
        have hrest' : AtBoundary (before ++ other) := by
          obtain ⟨c, tail, rfl⟩ := List.exists_cons_of_ne_nil hbefore
          rw [haround.text] at hrest
          simpa using hrest
        have hlaid := Laid.token hgap hpiece hrest' (.inr hclosed) (haround.replace hother)
        simpa using hlaid

/-- **A token is replaced and blanks after it**, and the tokens before it stay. -/
theorem Around.tokens_of_replace {before other after : List Char} {prior : List Token}
    (h : Around 0 cs tokens token before piece after prior later) (hother : IsPiece other)
    (hclosed : (ofPiece 0 other).isOpen = false) (hrest : Blank rest) :
    (ofChars (before ++ (other ++ rest))).tokens = prior ++ [ofPiece (width before) other] := by
  have hboundary : AtBoundary rest := fun c hc => hrest c (List.mem_of_mem_head? hc)
  have hlaid := h.replace (.of_piece hother hboundary (.inr hclosed) (.blank hrest))
  rw [ofChars_eq_of_laid hlaid, Nat.zero_add]

/-- The tokens before a token start before it. -/
theorem Around.start_lt {before after : List Char} {prior : List Token}
    (h : Around start cs tokens token before piece after prior later) :
    ∀ other ∈ prior, other.span.start < start + width before := by
  have hnil : Laid (start + width before) [] [] := .blank nofun
  have hbefore := h.replace hnil
  rw [List.append_nil, List.append_nil] at hbefore
  exact hbefore.start_lt_stop

/-! ## Two layouts in a row -/

/-- **Two layouts are one**, if a boundary is between them and the first leaves
no quote open. -/
theorem Laid.append (h : Laid start cs tokens)
    (hclosed : ∀ last ∈ tokens.getLast?, last.isOpen = false) (hrest : AtBoundary rest)
    (hlater : Laid (start + width cs) rest later) :
    Laid start (cs ++ rest) (tokens ++ later) := by
  induction h with
  | blank hgap => exact hlater.blank_append hgap
  | @token start gap piece cs tokens hgap hpiece hcs hopen hlaid ih =>
    have hwidth : start + width (gap ++ (piece ++ cs)) =
        start + width gap + width piece + width cs := by
      simp [Nat.add_assoc]
    rw [hwidth] at hlater
    have hclosed' : ∀ last ∈ tokens.getLast?, last.isOpen = false := by
      intro last hlast
      refine hclosed last ?_
      rw [List.getLast?_cons, Option.mem_def.1 hlast]
      rfl
    have hpieceClosed : (ofPiece 0 piece).isOpen = false := by
      rcases hopen with rfl | hopen
      · obtain rfl := hlaid.eq_nil_iff.2 nofun
        rw [← hpiece.isOpen_ofPiece]
        exact hclosed _ rfl
      · exact hopen
    have hboundary : AtBoundary (cs ++ rest) := by
      rcases eq_or_ne cs [] with rfl | hne
      · exact hrest
      · exact hcs.append hne
    have hall := Laid.token hgap hpiece hboundary (.inr hpieceClosed) (ih hclosed' hlater)
    simpa using hall

/-- The quoted run after an open quote takes in what comes after some blanks. -/
theorem width_quotedRun_lt {c : Char} {tail : List Char} (hgap : Blank gap) :
    width (quotedRun true (gap ++ c :: tail)).2 < width (c :: tail) := by
  have hplain : ∀ d ∈ gap, isQuote d = false := by
    intro d hd
    have hblank := hgap d hd
    rw [isQuote, beq_eq_false_iff_ne]
    rintro rfl
    revert hblank
    decide
  have hrun : quotedRun true (gap ++ c :: tail) = _ :=
    quotedRun_append_of_unbroken (unbroken_of_plain hplain)
  have happ := congrArg width (quotedRun_append (true != isQuote c) tail)
  have hpos := c.utf8Size_pos
  rw [quotedAfter_of_plain hplain] at hrun
  simp only [hrun, quotedRun, Bool.not_true, Bool.and_false, Bool.false_eq_true, if_false,
    width_cons]
  rw [width_append] at happ
  omega

/-- **An open quote takes in the next token.** No token starts where the first
one of what follows would. -/
theorem Laid.exists_swallowed (h : Laid start cs tokens) {last : Token}
    (hlast : last ∈ tokens.getLast?) (hopen : last.isOpen = true) {c : Char} {tail : List Char}
    (hgap : Blank gap) (hrest : AtBoundary (gap ++ c :: tail)) :
    ∃ whole, Laid start (cs ++ (gap ++ c :: tail)) whole ∧
      ∀ token ∈ whole, token.span.start ≠ start + width cs + width gap := by
  obtain ⟨before, piece, after, prior, later, haround⟩ :=
    h.exists_around (List.mem_of_mem_getLast? hlast)
  have hpieceOpen : (ofPiece 0 piece).isOpen = true := by
    rw [haround.read, haround.isPiece.isOpen_ofPiece] at hopen
    exact hopen
  obtain rfl : after = [] := haround.closed.resolve_right (by simp [hpieceOpen])
  have hcs : cs = before ++ piece := by simpa using haround.text
  -- the piece, read on into what follows
  obtain ⟨d, more, hpiece, hink⟩ := haround.isPiece.exists_cons
  obtain ⟨longer, rest, hsplit, hlonger, hboundary, hclosed⟩ :=
    exists_piece hink (more ++ (gap ++ c :: tail))
  rw [← List.cons_append, ← hpiece] at hsplit
  have hleft : rest = (quotedRun true (gap ++ c :: tail)).2 := by
    rw [← haround.isPiece.read_append_of_isOpen hpieceOpen hrest 0, hsplit,
      hlonger.read_append hboundary hclosed]
  have hwidth := congrArg width hsplit
  have hlt : width (quotedRun true (gap ++ c :: tail)).2 < width (c :: tail) :=
    width_quotedRun_lt hgap
  rw [← hleft] at hlt
  simp only [width_append] at hwidth
  obtain ⟨others, hothers⟩ := exists_laid (start + width before + width longer) rest
  have hlaid := haround.replace (.of_piece hlonger hboundary hclosed hothers)
  rw [← hsplit, ← List.append_assoc, ← hcs] at hlaid
  refine ⟨_, hlaid, ?_⟩
  have hpos := length_le_width piece
  have hne := List.length_pos_iff.2 haround.isPiece.ne_nil
  intro token htoken
  rw [hcs, width_append]
  rcases List.mem_append.1 htoken with hprior | hmore
  · have := haround.start_lt token hprior
    omega
  · rcases List.mem_cons.1 hmore with rfl | hlater
    · rw [hlonger.span_ofPiece]
      simp only
      omega
    · have := hothers.start_le token hlater
      omega

/-! ## What follows a replaced part -/

/-- The tokens from the end of a token on are those that follow it. -/
theorem Around.filter_follows {before after : List Char} {prior : List Token}
    (h : Around start cs tokens token before piece after prior later) :
    tokens.filter (token.span.stop ≤ ·.span.start) = later := by
  have hstop := h.span_stop
  have hpos := length_le_width piece
  have hne := List.length_pos_iff.2 h.isPiece.ne_nil
  have hprior : prior.filter (token.span.stop ≤ ·.span.start) = [] := by
    refine List.filter_eq_nil_iff.2 fun other hother => ?_
    have := h.start_lt other hother
    simp only [decide_eq_true_eq]
    omega
  have hself : ¬ token.span.stop ≤ token.span.start := by
    rw [hstop, h.span_start]
    omega
  have hlater : later.filter (token.span.stop ≤ ·.span.start) = later := by
    refine List.filter_eq_self.2 fun other hother => ?_
    have := h.follows.start_le other hother
    simp only [decide_eq_true_eq]
    omega
  rw [h.order, List.filter_append, List.filter_cons, if_neg (by simpa using hself), hprior, hlater,
    List.nil_append]

/-- No token starts in the blanks at the end of a text. -/
theorem start_lt_of_blank {front : List Char} (hrest : Blank rest) :
    ∀ token ∈ (ofChars (front ++ rest)).tokens, token.span.start < width front := by
  intro token htoken
  obtain ⟨before, piece, after, prior, later, haround⟩ :=
    (laid_ofChars (front ++ rest)).exists_around htoken
  obtain ⟨d, more, hpiece, hink⟩ := haround.isPiece.exists_cons
  have hstart := haround.span_start
  have htext := haround.text
  rw [hpiece] at htext
  have hnotBlank : d ∉ rest := by
    intro hd
    rw [hrest d hd] at hink
    cases hink
  rcases List.append_eq_append_iff.1 htext with ⟨others, hbefore, hother⟩ | ⟨others, hfront, hother⟩
  · exact (hnotBlank (by simp [hother])).elim
  · cases others with
    | nil =>
      rw [List.nil_append] at hother
      exact (hnotBlank (by simp [← hother])).elim
    | cons e others =>
      have hpos := e.utf8Size_pos
      rw [hstart, hfront, width_append, width_cons, Nat.zero_add]
      omega

/-- **A text is read as before after a replaced part** exactly if it is blank or
the part that replaces leaves no quote open. -/
theorem tokens_after_iff {front : List Char} (hlater : Laid old rest later)
    (hrest : AtBoundary rest) :
    (ofChars (front ++ rest)).tokens.filter (width front ≤ ·.span.start) =
        later.map (Token.moved old (width front)) ↔
      Blank rest ∨ ∀ last ∈ (ofChars front).tokens.getLast?, last.isOpen = false := by
  have hmoved : Laid (old + width front - old) rest (later.map (Token.moved old (width front))) :=
    hlater.moved (Nat.le_refl old)
  rw [Nat.add_sub_cancel_left] at hmoved
  constructor
  · intro hsame
    by_cases hblank : Blank rest
    · exact .inl hblank
    · refine .inr fun last hlast => ?_
      by_contra hopen
      rw [Bool.not_eq_false] at hopen
      -- an open quote takes in the first token of the rest, which is there
      have hfirst : ∃ gap c tail, rest = gap ++ c :: tail ∧ Blank gap ∧
          ∃ token ∈ later, token.span.start = old + width gap := by
        cases hlater with
        | blank hgap => exact absurd hgap hblank
        | @token _ gap piece rest tokens hgap hpiece =>
          obtain ⟨c, more, rfl⟩ := List.exists_cons_of_ne_nil hpiece.ne_nil
          refine ⟨gap, c, more ++ rest, rfl, hgap, _, List.mem_cons_self, ?_⟩
          rw [hpiece.span_ofPiece]
      obtain ⟨gap, c, tail, rfl, hgap, first, hfirst, hstart⟩ := hfirst
      obtain ⟨whole, hwhole, hswallowed⟩ :=
        (laid_ofChars front).exists_swallowed hlast hopen hgap hrest
      rw [ofChars_eq_of_laid hwhole] at hsame
      have hmem : first.moved old (width front) ∈ whole := by
        have := List.mem_map_of_mem (f := Token.moved old (width front)) hfirst
        rw [← hsame] at this
        exact (List.mem_filter.1 this).1
      refine hswallowed _ hmem ?_
      simp only [Token.moved, hstart]
      omega
  · rintro (hblank | hclosed)
    · have hnil : later = [] := hlater.eq_nil_iff.2 hblank
      rw [hnil, List.map_nil, List.filter_eq_nil_iff]
      intro token htoken
      have := start_lt_of_blank hblank token htoken
      simpa using this
    · have hall := (laid_ofChars front).append hclosed hrest (by simpa using hmoved)
      have hfront : (ofChars front).tokens.filter (width front ≤ ·.span.start) = [] := by
        refine List.filter_eq_nil_iff.2 fun token htoken => ?_
        have := (laid_ofChars front).start_lt_stop token htoken
        simpa using this
      have hback : (later.map (Token.moved old (width front))).filter
          (width front ≤ ·.span.start) = later.map (Token.moved old (width front)) := by
        refine List.filter_eq_self.2 fun token htoken => ?_
        simpa using hmoved.start_le token htoken
      rw [ofChars_eq_of_laid hall, List.filter_append, hfront, hback, List.nil_append]

end Scan

end MissionText
