import MissionText.Category
import MissionText.Context
import MissionText.Scan

/-!
# Hovers

The identifier under a pointer. It is the piece between two separators of a
pool's list, with quotes and outer blanks taken off, and is shown with its
name if it is known.
-/

namespace MissionText

/-- The identifier found at an offset. -/
structure Hover where
  id : String
  /-- The name of the module or category, if there is one. -/
  displayName : Option String
  /-- Where the identifier stands, with its quotes and blanks. -/
  span : Span
  deriving DecidableEq, Repr

/-- The piece of a list around an offset: the width of what stands before it,
and its characters. There is none on a separator or inside a character. -/
def pieceAt? (list : List Char) (offset : Nat) : Option (Nat × List Char) := do
  let (before, after) ← Text.cut? list offset
  let (earlier, head) := Text.splitAfterLast Text.isSeparator before
  let tail := after.takeWhile fun c => !Text.isSeparator c
  if tail.isEmpty then none else some (Text.width earlier, head ++ tail)

/-- The pool in whose list an offset lies. -/
def Scan.poolAt? (scan : Scan) (offset : Nat) : Option PoolToken :=
  scan.pools.find? fun pool => pool.idListStart ≤ offset && offset < pool.stop

namespace Context

/-- The name under which an identifier is shown. -/
def displayName? (context : Context) (id : String) : Option String :=
  match context.catalog.get? id with
  | some found => some found.displayName
  | none => (Category.ofId? id).map (·.displayName)

/-- The identifier at an offset of a mission line. -/
def hover? (context : Context) (text : String) (offset : Nat) : Option Hover := do
  let pool ← (Scan.ofText text).poolAt? offset
  let (start, piece) ← pieceAt? pool.idList.toList (offset - pool.idListStart)
  let id := String.ofList (Text.trim (Text.unquoted piece))
  if id.isEmpty then none
  else some ⟨id, context.displayName? id, ⟨pool.idListStart + start, Text.width piece⟩⟩

end Context

end MissionText
