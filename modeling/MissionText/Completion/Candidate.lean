/-!
# Candidates

A row that completion offers for what is being typed. Most rows can be picked
and replace what is typed by their identifier; the others only explain what
the typed token means. Each row marks a piece of its identifier or of its
label.
-/

namespace MissionText

/-- The string of a candidate in which a piece is marked. -/
inductive HighlightTarget where
  | label
  | id
  deriving DecidableEq, Repr

/-- A marked piece of a candidate, in bytes. -/
structure Highlight where
  target : HighlightTarget
  start : Nat
  length : Nat
  deriving DecidableEq, Repr

/-- A row offered for what is being typed. -/
structure Candidate where
  /-- What takes the place of the typed text when the row is picked. -/
  id : String
  /-- What the row shows. -/
  label : String
  highlight : Highlight
  /-- Whether the row can be picked at all. -/
  selectable : Bool
  deriving DecidableEq, Repr

namespace Candidate

/-- A row that explains a token by a title and the meaning, which is
marked. -/
def explaining (title meaning : String) : Candidate where
  id := ""
  label := title ++ meaning
  highlight := ⟨.label, title.utf8ByteSize, meaning.utf8ByteSize⟩
  selectable := false

/-- A row that can be picked, with the beginning of its identifier marked. -/
def byId (id label : String) (length : Nat) : Candidate := ⟨id, label, ⟨.id, 0, length⟩, true⟩

/-- A row that can be picked, with the beginning of its label marked. -/
def byLabel (id label : String) (length : Nat) : Candidate :=
  ⟨id, label, ⟨.label, 0, length⟩, true⟩

/-- The string in which a piece of the candidate is marked. -/
def highlighted (candidate : Candidate) : String :=
  match candidate.highlight.target with
  | .label => candidate.label
  | .id => candidate.id

/-- Whether an identifier is only a beginning, after which more has to be
typed. -/
def expectsMore (candidate : Candidate) : Bool :=
  match candidate.id.toList.getLast? with
  | some c => c == '*' || c == ':'
  | none => false

end Candidate

end MissionText
