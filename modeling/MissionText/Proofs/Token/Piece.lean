import MissionText.Proofs.Text.Boundary
import MissionText.Token.Lexeme
/-!
# Pieces — the text of one token

A piece is a stretch of text that is read as one token with nothing left over.
Two facts carry everything that is said about scans. **Reading is local**
(`read_append`): a piece is read as the same token whatever stands after it,
as long as a boundary follows and no quote is open. And **a token never ends
early** (`exists_piece`): whatever text begins with ink begins with a piece
that a boundary follows.
-/

namespace MissionText

open Text

variable {cs piece rest : List Char} {start : Nat}

/-! ## Counts -/

namespace PoolToken

variable {ds tail : List Char} {sep c : Char} {count : Nat}

/-- **A count** is a field and a sign before something to count. -/
theorem readCount_counted (hfield : field? ds = some count) (hsep : sep = ';' ∨ sep = '*')
    (hink : isBlank c = false) :
    readCount (ds ++ sep :: c :: tail) = (some count, width ds + 1, c :: tail) := by
  have hdigits := (field?_eq_some_iff.1 hfield).1.2.2
  have hmark : sep.isDigit = false := by
    rcases hsep with rfl | rfl <;> rfl
  simp [readCount, takeWhile_isDigit_mark hdigits hmark, dropWhile_isDigit_mark hdigits hmark,
    hfield, hsep, hink]

/-- Without a count the list is all there is. -/
theorem readCount_eq_none_or (cs : List Char) :
    readCount cs = (none, 0, cs) ∨
      ∃ ds sep c tail count, cs = ds ++ sep :: c :: tail ∧ field? ds = some count ∧
        (sep = ';' ∨ sep = '*') ∧ isBlank c = false := by
  have hcs : cs.takeWhile Char.isDigit ++ cs.dropWhile Char.isDigit = cs :=
    List.takeWhile_append_dropWhile
  rw [readCount]
  split
  · rename_i count sep c tail hfield htail
    split
    · rename_i hsep
      rw [htail] at hcs
      exact .inr ⟨_, sep, c, tail, count, hcs.symm, hfield, hsep.1, by simpa using hsep.2⟩
    · exact .inl rfl
  · exact .inl rfl

/-- The width of the count and the list after it make up the whole. -/
theorem exists_readCount_append (cs : List Char) :
    ∃ head, cs = head ++ (readCount cs).2.2 ∧ width head = (readCount cs).2.1 := by
  rcases readCount_eq_none_or cs with hnone | ⟨ds, sep, c, tail, count, rfl, hfield, hsep, hink⟩
  · rw [hnone]
    exact ⟨[], rfl, rfl⟩
  · have hone : sep.utf8Size = 1 := by
      rcases hsep with rfl | rfl <;> rfl
    rw [readCount_counted hfield hsep hink]
    exact ⟨ds ++ [sep], by simp, by simp [hone]⟩

/-- The pool at the head of a text in terms of its count and its list. -/
theorem read_eq (start : Nat) (cs : List Char) :
    read start cs =
      (⟨(readCount cs).1, String.ofList (quotedRun false (readCount cs).2.2).1,
          start + (readCount cs).2.1⟩,
        (quotedRun false (readCount cs).2.2).2) := rfl

/-- **A count is found before a boundary or not at all.** -/
theorem readCount_append (hrest : AtBoundary rest) :
    readCount (cs ++ rest) =
      ((readCount cs).1, (readCount cs).2.1, (readCount cs).2.2 ++ rest) := by
  have htake : (cs ++ rest).takeWhile Char.isDigit = cs.takeWhile Char.isDigit :=
    takeWhile_append_of_head hrest.isDigit_head
  have hdrop : (cs ++ rest).dropWhile Char.isDigit = cs.dropWhile Char.isDigit ++ rest :=
    dropWhile_append_of_head hrest.isDigit_head
  simp only [readCount, htake, hdrop]
  cases hfield : field? (cs.takeWhile Char.isDigit) with
  | none => rfl
  | some count =>
    rcases hcs : cs.dropWhile Char.isDigit with - | ⟨sep, - | ⟨c, tail⟩⟩
    · -- the digits reach the boundary, and a blank is no separator
      rcases rest with - | ⟨d, - | ⟨e, rest⟩⟩
      · rfl
      · rfl
      · have hd := atBoundary_cons.1 hrest
        have hsep : ¬ (d = ';' ∨ d = '*') := by
          rintro (rfl | rfl) <;> exact absurd hd (by decide)
        simp [hsep]
    · -- the separator stands before the boundary, with nothing to count
      rcases rest with - | ⟨d, rest⟩
      · rfl
      · simp [atBoundary_cons.1 hrest]
    · simp only [List.cons_append]
      split <;> rfl

end PoolToken

/-! ## Runs that are no pools -/

/-- What a run says by itself is no pool. -/
theorem TokenKind.ofRun?_ne_pool {run : List Char} (pool : PoolToken) :
    ofRun? run ≠ some (.pool pool) := by
  simp [ofRun?, Option.or_eq_some_iff]

namespace Token

/-- Whether a quote is open at the end of a token, which then reaches to the
end of the text. -/
def isOpen (token : Token) : Bool :=
  match token.kind with
  | .pool pool => quotedAfter false pool.idList.toList
  | _ => false

/-- The token that a piece is read as at an offset. -/
def ofPiece (start : Nat) (piece : List Char) : Token := (read start piece).1

/-- **The text of one token**: it begins with ink and is read whole. -/
structure IsPiece (piece : List Char) : Prop where
  /-- There is a first character, and it is no blank. -/
  head : ∃ c ∈ piece.head?, isBlank c = false
  /-- Nothing is left over. -/
  whole : (read 0 piece).2 = []

theorem IsPiece.exists_cons (h : IsPiece piece) :
    ∃ c tail, piece = c :: tail ∧ isBlank c = false := by
  obtain ⟨c, hc, hink⟩ := h.head
  obtain ⟨tail, htail⟩ := List.head?_eq_some_iff.1 hc
  exact ⟨c, tail, htail, hink⟩

theorem IsPiece.ne_nil (h : IsPiece piece) : piece ≠ [] := by
  obtain ⟨c, tail, rfl, -⟩ := h.exists_cons
  exact List.cons_ne_nil c tail

/-- A text that begins with a piece begins with ink. -/
theorem IsPiece.isBlank_head (h : IsPiece piece) :
    ∀ c ∈ (piece ++ rest).head?, isBlank c = false := by
  obtain ⟨d, tail, rfl, hink⟩ := h.exists_cons
  intro c hc
  cases hc
  exact hink

/-- A piece is no boundary. -/
theorem IsPiece.not_atBoundary (h : IsPiece piece) : ¬ AtBoundary (piece ++ rest) := by
  obtain ⟨c, tail, rfl, hink⟩ := h.exists_cons
  intro hb
  have := hb c rfl
  rw [hink] at this
  cases this

/-- How a text is read that does not begin with a time, a strike limit or a
setting. -/
theorem read_of_ofRun?_eq_none (h : TokenKind.ofRun? (cs.takeWhile isInk) = none) :
    read start cs =
      (⟨⟨start, (PoolToken.read start cs).1.stop - start⟩, .pool (PoolToken.read start cs).1⟩,
        (PoolToken.read start cs).2) := by
  simp only [read, h]

/-- How a text is read that begins with one. -/
theorem read_of_ofRun?_eq_some {kind : TokenKind}
    (h : TokenKind.ofRun? (cs.takeWhile isInk) = some kind) :
    read start cs = (⟨⟨start, width (cs.takeWhile isInk)⟩, kind⟩, cs.dropWhile isInk) := by
  simp only [read, h]

/-- A token that is a pool is read from a text that is not one of these. -/
theorem ofRun?_eq_none_of_kind {pool : PoolToken} (h : (ofPiece start piece).kind = .pool pool) :
    TokenKind.ofRun? (piece.takeWhile isInk) = none := by
  cases hrun : TokenKind.ofRun? (piece.takeWhile isInk) with
  | none => rfl
  | some kind =>
    rw [ofPiece, read_of_ofRun?_eq_some hrun] at h
    obtain rfl : kind = .pool pool := h
    exact absurd hrun (TokenKind.ofRun?_ne_pool pool)

/-- Only a pool can leave a quote open. -/
theorem isOpen_ofPiece_of_run {kind : TokenKind}
    (hrun : TokenKind.ofRun? (piece.takeWhile isInk) = some kind) (start : Nat) :
    (ofPiece start piece).isOpen = false := by
  rw [isOpen, ofPiece, read_of_ofRun?_eq_some hrun]
  cases kind with
  | pool pool => exact absurd hrun (TokenKind.ofRun?_ne_pool pool)
  | _ => rfl

/-- The list of a pool that is a piece is unbroken. -/
theorem IsPiece.unbroken (h : IsPiece piece)
    (hrun : TokenKind.ofRun? (piece.takeWhile isInk) = none) :
    Unbroken false (PoolToken.readCount piece).2.2 := by
  have := h.whole
  rwa [read_of_ofRun?_eq_none hrun] at this

/-- The pool that a piece is. -/
theorem IsPiece.ofPiece_pool (h : IsPiece piece)
    (hrun : TokenKind.ofRun? (piece.takeWhile isInk) = none) (start : Nat) :
    (ofPiece start piece).kind =
      .pool ⟨(PoolToken.readCount piece).1, String.ofList (PoolToken.readCount piece).2.2,
        start + (PoolToken.readCount piece).2.1⟩ := by
  rw [ofPiece, read_of_ofRun?_eq_none hrun, PoolToken.read_eq,
    quotedRun_of_unbroken (h.unbroken hrun)]

/-- A piece that is no pool is a run of ink. -/
theorem IsPiece.dropWhile_isInk (h : IsPiece piece) {kind : TokenKind}
    (hrun : TokenKind.ofRun? (piece.takeWhile isInk) = some kind) :
    piece.dropWhile isInk = [] := by
  have := h.whole
  rwa [read_of_ofRun?_eq_some hrun] at this

/-- **A token covers its piece.** -/
theorem IsPiece.span_ofPiece (h : IsPiece piece) (start : Nat) :
    (ofPiece start piece).span = ⟨start, width piece⟩ := by
  cases hrun : TokenKind.ofRun? (piece.takeWhile isInk) with
  | none =>
    obtain ⟨head, hpiece, hhead⟩ := PoolToken.exists_readCount_append piece
    have hwidth := congrArg width hpiece
    rw [width_append, hhead] at hwidth
    rw [ofPiece, read_of_ofRun?_eq_none hrun, PoolToken.read_eq,
      quotedRun_of_unbroken (h.unbroken hrun)]
    simp only [PoolToken.stop, String.toList_ofList, hwidth, Span.mk.injEq, true_and]
    omega
  | some kind =>
    have hall := List.takeWhile_append_dropWhile (p := isInk) (l := piece)
    rw [h.dropWhile_isInk hrun, List.append_nil] at hall
    rw [ofPiece, read_of_ofRun?_eq_some hrun, hall]

theorem IsPiece.stop_ofPiece (h : IsPiece piece) (start : Nat) :
    (ofPiece start piece).span.stop = start + width piece := by
  rw [h.span_ofPiece]
  rfl

/-- **Reading is local.** A piece is read as the same token before any
boundary, unless one of its quotes is open there. -/
theorem IsPiece.read_append (h : IsPiece piece) (hrest : AtBoundary rest)
    (hopen : rest = [] ∨ (ofPiece 0 piece).isOpen = false) (start : Nat) :
    read start (piece ++ rest) = (ofPiece start piece, rest) := by
  have htake : (piece ++ rest).takeWhile isInk = piece.takeWhile isInk :=
    takeWhile_append_of_head hrest.isInk_head
  cases hrun : TokenKind.ofRun? (piece.takeWhile isInk) with
  | none =>
    have hquoted : rest = [] ∨ quotedAfter false (PoolToken.readCount piece).2.2 = false := by
      refine hopen.imp_right fun hclosed => ?_
      rw [isOpen, h.ofPiece_pool hrun] at hclosed
      simpa using hclosed
    -- the run takes in nothing of the rest: it is over, or no quote is open
    have hstop : quotedRun (quotedAfter false (PoolToken.readCount piece).2.2) rest =
        ([], rest) := by
      rcases hquoted with rfl | hclosed
      · rfl
      · rw [hclosed, quotedRun_of_atBoundary hrest]
    rw [ofPiece, read_of_ofRun?_eq_none (by rw [htake]; exact hrun), read_of_ofRun?_eq_none hrun]
    simp only [PoolToken.read_eq, PoolToken.readCount_append hrest,
      quotedRun_append_of_unbroken (h.unbroken hrun), quotedRun_of_unbroken (h.unbroken hrun),
      hstop, List.append_nil]
  | some kind =>
    rw [ofPiece, read_of_ofRun?_eq_some (by rw [htake]; exact hrun), read_of_ofRun?_eq_some hrun,
      htake, dropWhile_append_of_head hrest.isInk_head, h.dropWhile_isInk hrun, List.nil_append]

/-- A beginning of a text that begins with ink begins with ink. -/
theorem head_of_append {c : Char} (hink : isBlank c = false) (hsplit : c :: cs = piece ++ rest)
    (hne : piece ≠ []) : ∃ d ∈ piece.head?, isBlank d = false := by
  obtain ⟨d, piece, rfl⟩ := List.exists_cons_of_ne_nil hne
  rw [List.cons_append] at hsplit
  exact ⟨d, rfl, (List.cons.inj hsplit).1 ▸ hink⟩

/-- A text that begins with a time, a strike limit or a setting begins with a
piece, which is the run up to the first blank. -/
theorem exists_piece_of_run {c : Char} (hink : isBlank c = false) {kind : TokenKind}
    (hrun : TokenKind.ofRun? ((c :: cs).takeWhile isInk) = some kind) :
    ∃ piece rest, c :: cs = piece ++ rest ∧ IsPiece piece ∧ AtBoundary rest ∧
      (rest = [] ∨ (ofPiece 0 piece).isOpen = false) := by
  have hrun' : TokenKind.ofRun? (((c :: cs).takeWhile isInk).takeWhile isInk) = some kind := by
    rw [List.takeWhile_idem, hrun]
  have hsplit : c :: cs = (c :: cs).takeWhile isInk ++ (c :: cs).dropWhile isInk :=
    List.takeWhile_append_dropWhile.symm
  have hne : (c :: cs).takeWhile isInk ≠ [] := by
    rw [List.takeWhile_cons, if_pos (by simp [hink])]
    simp
  have hpiece : IsPiece ((c :: cs).takeWhile isInk) := by
    refine ⟨head_of_append hink hsplit hne, ?_⟩
    rw [read_of_ofRun?_eq_some hrun']
    exact List.dropWhile_eq_nil_iff.2 fun d hd => List.mem_takeWhile_imp hd
  exact ⟨_, _, hsplit, hpiece, atBoundary_dropWhile _, .inr (isOpen_ofPiece_of_run hrun' 0)⟩

/-- A text that begins with a pool begins with a piece, which is the count and
what the quoted run of the list takes in. -/
theorem exists_piece_of_pool {c : Char} (hink : isBlank c = false)
    (hrun : TokenKind.ofRun? ((c :: cs).takeWhile isInk) = none) :
    ∃ piece rest, c :: cs = piece ++ rest ∧ IsPiece piece ∧ AtBoundary rest ∧
      (rest = [] ∨ (ofPiece 0 piece).isOpen = false) := by
  obtain ⟨head, hlist, -⟩ := PoolToken.exists_readCount_append (c :: cs)
  have happ := quotedRun_append false (PoolToken.readCount (c :: cs)).2.2
  have hstop := quotedRun_stop false (PoolToken.readCount (c :: cs)).2.2
  have hunbroken := unbroken_quotedRun false (PoolToken.readCount (c :: cs)).2.2
  generalize (quotedRun false (PoolToken.readCount (c :: cs)).2.2).1 = ids at *
  generalize (quotedRun false (PoolToken.readCount (c :: cs)).2.2).2 = rest at *
  -- the run stops at the end or before a blank, and both are boundaries
  have hrest : AtBoundary rest := by
    rcases hstop with rfl | hstop
    · exact atBoundary_nil
    · exact hstop.1
  have hsplit : c :: cs = head ++ ids ++ rest := by
    rw [List.append_assoc, happ]
    exact hlist
  have hne : head ++ ids ≠ [] := by
    intro hnil
    rw [hnil, List.nil_append] at hsplit
    rw [← hsplit, atBoundary_cons, hink] at hrest
    cases hrest
  -- the count is found before the boundary, so the piece has the same count
  have hcount : (PoolToken.readCount (head ++ ids)).2.2 = ids := by
    have hread : PoolToken.readCount (head ++ ids ++ rest) = _ := PoolToken.readCount_append hrest
    rw [← hsplit] at hread
    have hids := congrArg (·.2.2) hread
    simp only [← happ] at hids
    exact (List.append_cancel_right hids).symm
  -- and the same run of ink, so it is no time, strike limit or setting either
  have hrun' : TokenKind.ofRun? ((head ++ ids).takeWhile isInk) = none := by
    rwa [hsplit, takeWhile_append_of_head hrest.isInk_head] at hrun
  have hpiece : IsPiece (head ++ ids) := by
    refine ⟨head_of_append hink hsplit hne, ?_⟩
    rw [read_of_ofRun?_eq_none hrun', PoolToken.read_eq, hcount]
    exact hunbroken
  refine ⟨head ++ ids, rest, hsplit, hpiece, hrest, ?_⟩
  rw [isOpen, hpiece.ofPiece_pool hrun', hcount]
  simpa using hstop.imp_right And.right

/-- **A token never ends early.** A text that begins with ink begins with a
piece, and after the piece comes a boundary; a quote is open there only at the
end of the text. -/
theorem exists_piece {c : Char} (hink : isBlank c = false) (cs : List Char) :
    ∃ piece rest, c :: cs = piece ++ rest ∧ IsPiece piece ∧ AtBoundary rest ∧
      (rest = [] ∨ (ofPiece 0 piece).isOpen = false) := by
  cases hrun : TokenKind.ofRun? ((c :: cs).takeWhile isInk) with
  | none => exact exists_piece_of_pool hink hrun
  | some kind => exact exists_piece_of_run hink hrun

end Token

end MissionText
