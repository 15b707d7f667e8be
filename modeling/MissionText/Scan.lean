import MissionText.Token.Lexeme

/-!
# Scans

A scan reads a mission line from left to right into its tokens: it skips
blanks, reads a token, and goes on from the end of that token. Between two
tokens there has to be at least one blank, and a scan that finds none stops
where it is. The last token may be one that is still being typed; it is in
progress when nothing at all follows it.
-/

namespace MissionText

/-- The tokens of a mission line, and the offset at which reading stopped. -/
structure Scan where
  tokens : List Token
  stop : Nat
  deriving DecidableEq, Repr

namespace Scan

/-- The scan of the text that starts at an offset. -/
def readFrom (start : Nat) (cs : List Char) : Scan :=
  let gap := cs.takeWhile Text.isBlank
  if 0 < start ∧ gap = [] then ⟨[], start⟩
  else
    match _h : cs.dropWhile Text.isBlank with
    | [] => ⟨[], start + Text.width gap⟩
    | c :: rest =>
      let next := Token.read (start + Text.width gap) (c :: rest)
      let scan := readFrom next.1.span.stop next.2
      ⟨next.1 :: scan.tokens, scan.stop⟩
termination_by cs.length
decreasing_by
  have hblank : Text.isBlank c = false := by
    have := List.head?_dropWhile_not Text.isBlank cs
    rwa [_h] at this
  have hle := Text.length_dropWhile_le Text.isBlank cs
  rw [_h] at hle
  exact Nat.lt_of_lt_of_le (Token.length_read_lt _ hblank) hle

/-- The scan of a whole text. -/
def ofChars (cs : List Char) : Scan := readFrom 0 cs

/-- The scan of a mission line. -/
def ofText (text : String) : Scan := ofChars text.toList

/-- Whether a scan found tokens and reached the end of its text. -/
def covers (scan : Scan) (text : String) : Bool :=
  !scan.tokens.isEmpty && text.utf8ByteSize ≤ scan.stop

/-- The token that ends exactly where reading stopped. There is none after a
blank. -/
def trailing? (scan : Scan) : Option Token :=
  scan.tokens.getLast?.filter (·.span.stop == scan.stop)

/-- The pools of a scan, in the order in which they stand. -/
def pools (scan : Scan) : List PoolToken := scan.tokens.filterMap Token.pool?

end Scan

end MissionText
