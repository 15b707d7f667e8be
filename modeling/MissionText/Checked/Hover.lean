import MissionText.Checked.Scan
import MissionText.Hover
import MissionText.Text.Search
/-!
# Checked hovers

The identifier under a pointer, by offsets in the list that it stands in: from
the separator before the pointer, or the start of the list, to the separator
after it, or the end.
-/

namespace MissionText.Checked

/-- The pool that a token is, if an offset lies in its list. -/
def poolAt? (offset : Nat) (token : Token) : Option PoolToken :=
  token.pool?.filter fun pool => pool.idListStart ≤ offset && offset < token.span.stop

/-- The identifier at an offset of a mission line. -/
def hover (matcher : Matcher) (context : Context) (text : String) (offset : Nat) :
    Checked (Option Hover) := do
  let scan ← scan matcher text.toList
  match scan.tokens.findSome? (poolAt? offset) with
  | none => return none
  | some pool =>
    let list := pool.idList.toList
    let place ← difference offset pool.idListStart
    if !Text.isBoundary list place then return none
    let right ← after list place
    if right.head?.any Text.isSeparator then return none
    let left ← before list place
    let first := (Text.lastOffset? Text.isSeparator left).elim 0 (· + 1)
    let last := (Text.firstOffset? Text.isSeparator right).elim (Text.width list) (place + ·)
    let piece ← between list first last
    let id := String.ofList (Text.trim (Text.unquoted piece))
    if id.isEmpty then return none
    let length ← difference last first
    return some ⟨id, context.displayName? id, ⟨pool.idListStart + first, length⟩⟩

end MissionText.Checked
