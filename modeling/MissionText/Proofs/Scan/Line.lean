import MissionText.Proofs.Draft.Step
import MissionText.Proofs.Scan.Layout
/-!
# Lines — words with one blank between them

Where a token stands means nothing to a draft: only its gist counts, which is
the token without its place (`Draft.ofTokens_gist`). A word is a piece that
leaves no quote open, so whatever blank follows ends it, and a line of words
is scanned word by word (`gists_ofText_intercalate`). Together these reduce
the reading of a line that was put together from words to the reading of each
word by itself.
-/

namespace MissionText

open Text

variable {start : Nat} {piece word : List Char} {words : List (List Char)} {token : Token}
  {context : Context}

/-! ## The gist of a token -/

/-- What a token says, wherever it stands. -/
def Token.gist (token : Token) : TokenKind :=
  match token.kind with
  | .pool pool => .pool { pool with idListStart := 0 }
  | kind => kind

/-- A token of which nothing but the gist is known, at the beginning of a
line. -/
def TokenKind.atStart (kind : TokenKind) : Token := ⟨⟨0, 0⟩, kind⟩

/-- The gist of a piece does not hang on the offset. -/
theorem Token.IsPiece.gist_ofPiece (h : IsPiece piece) (start : Nat) :
    (ofPiece start piece).gist = (ofPiece 0 piece).gist := by
  cases hrun : TokenKind.ofRun? (piece.takeWhile isInk) with
  | none => rw [gist, gist, h.ofPiece_pool hrun, h.ofPiece_pool hrun]
  | some kind =>
    rw [gist, gist, ofPiece, ofPiece, read_of_ofRun?_eq_some hrun, read_of_ofRun?_eq_some hrun]

/-- **A draft takes in the gist of a token** and nothing else. -/
theorem Draft.add_gist (context : Context) (draft : Draft) (token : Token) :
    add context draft token.gist.atStart = add context draft token := by
  obtain ⟨span, kind⟩ := token
  cases kind <;> rfl

theorem Draft.ofTokens_gist (context : Context) (tokens : List Token) :
    ofTokens context (tokens.map fun token => token.gist.atStart) = ofTokens context tokens := by
  rw [ofTokens, List.foldl_map]
  simp only [add_gist]
  rfl

/-! ## Words -/

/-- **A word** is a piece that any blank ends, since it leaves no quote
open. -/
structure Token.IsWord (word : List Char) : Prop extends IsPiece word where
  /-- No quote is open at the end. -/
  closed : (ofPiece 0 word).isOpen = false

namespace Scan

/-- Words with one blank between them are laid out as the words that they
are. -/
theorem exists_laid_intercalate (start : Nat) (h : ∀ word ∈ words, Token.IsWord word) :
    ∃ tokens, Laid start ([' '].intercalate words) tokens ∧
      tokens.map Token.gist = words.map fun word => (Token.ofPiece 0 word).gist := by
  induction words generalizing start with
  | nil => exact ⟨[], .blank nofun, rfl⟩
  | cons word words ih =>
    have hword := h word List.mem_cons_self
    have hgap : Blank [] := nofun
    cases words with
    | nil =>
      have hlaid : Laid start ([] ++ (word ++ [])) [Token.ofPiece (start + width []) word] :=
        .token hgap hword.toIsPiece atBoundary_nil (.inl rfl) (.blank hgap)
      refine ⟨[Token.ofPiece start word], ?_, by simp [hword.gist_ofPiece]⟩
      simpa using hlaid
    | cons next words =>
      have htail := fun other hother => h other (List.mem_cons_of_mem word hother)
      obtain ⟨tokens, hlaid, hgists⟩ := ih (start + width word + width [' ']) htail
      have hspace : isBlank ' ' = true := by decide
      have hrest : Laid (start + width word) ([' '] ++ [' '].intercalate (next :: words)) tokens :=
        hlaid.blank_append (by simp [Blank, hspace])
      have hline : Laid start ([] ++ (word ++ ([' '] ++ [' '].intercalate (next :: words))))
          (Token.ofPiece (start + width []) word :: tokens) :=
        .token hgap hword.toIsPiece (by simp [hspace]) (.inr hword.closed) hrest
      refine ⟨Token.ofPiece start word :: tokens, ?_, by simp [hword.gist_ofPiece, hgists]⟩
      simpa [List.intercalate_cons_cons] using hline

/-- **A line of words is scanned word by word.** -/
theorem gists_ofText_intercalate {words : List String}
    (h : ∀ word ∈ words, Token.IsWord word.toList) :
    (ofText (" ".intercalate words)).tokens.map Token.gist =
      words.map fun word => (Token.ofPiece 0 word.toList).gist := by
  have hwords : ∀ word ∈ words.map String.toList, Token.IsWord word := by simpa using h
  obtain ⟨tokens, hlaid, hgists⟩ := exists_laid_intercalate 0 hwords
  rw [ofText, String.toList_intercalate, ofChars_eq_of_laid (by simpa using hlaid), hgists,
    List.map_map]
  rfl

end Scan

end MissionText
