import MissionText.Scan

/-!
# Stubs

What a candidate takes the place of. Only the text before the cursor matters:
its last token is the one being typed, unless a blank or nothing at all stands
before the cursor. Of a pool only the last identifier is replaced, of any
other token the whole.
-/

namespace MissionText

/-- The token being typed at the end of a text, if there is one. -/
def inProgress? (before : List Char) : Option Token := (Scan.ofChars before).trailing?

/-- The text before a cursor, split at the beginning of what is being
typed. -/
structure Stub where
  /-- The text that stays. -/
  kept : List Char
  /-- The text being typed, with its quotes. -/
  typed : List Char
  /-- Whether an identifier with a blank in it has to be put in quotes here. It
  has not inside quotes, nor as a whole token. -/
  quotable : Bool
  deriving DecidableEq, Repr

namespace Stub

/-- The offset at which the typed text of a token starts, and whether an
identifier may need quotes there. -/
def startOf (token : Token) : Nat × Bool :=
  match token.kind with
  | .pool pool =>
    (pool.idListStart + pool.lastIdOffset, !Text.quotedAfter false pool.lastId.1)
  | _ => (token.span.start, false)

/-- What is being typed at the end of a text. -/
def ofChars (before : List Char) : Stub :=
  match inProgress? before with
  | none => ⟨before, [], true⟩
  | some token =>
    let (start, quotable) := startOf token
    let (kept, typed) := Text.cut before start
    ⟨kept, typed, quotable⟩

/-- **A stub is a split of its text.** -/
theorem kept_append_typed (before : List Char) :
    (ofChars before).kept ++ (ofChars before).typed = before := by
  rw [ofChars]
  split
  · simp
  · exact Text.cut_append before _

end Stub

end MissionText
