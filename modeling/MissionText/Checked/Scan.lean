import MissionText.Scan
import MissionText.Token.Shape
/-!
# Checked scans

The scan of a text, step by step: the rest of the text is cut off at the place
that is reached, the blanks at its start are counted by how much shorter it is
without them, and the token after them is classified. Each token has to end
after it starts, or the scan would not get on.
-/

namespace MissionText.Checked

/-- The scan of a text from an offset on. -/
def readFrom (matcher : Matcher) (text : List Char) (pos : Nat) : Checked Scan := do
  let rest ← after text pos
  let gap ← difference (Text.width rest) (Text.width (rest.dropWhile Text.isBlank))
  if 0 < pos ∧ gap = 0 then return ⟨[], pos⟩
  else if _hend : Text.width text ≤ pos + gap then return ⟨[], pos + gap⟩
  else
    let token ← Token.classify matcher text (pos + gap)
    if _hstop : pos + gap < token.span.stop then
      let scan ← readFrom matcher text token.span.stop
      return ⟨token :: scan.tokens, scan.stop⟩
    else throw .endless
termination_by Text.width text - pos

/-- The scan of a text. -/
def scan (matcher : Matcher) (text : List Char) : Checked Scan := readFrom matcher text 0

end MissionText.Checked
