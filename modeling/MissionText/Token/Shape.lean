import MissionText.Checked
import MissionText.Pattern
import MissionText.Token
import MissionText.Text.Numeral
/-!
# Shapes

A token can also be told by trying the shapes of tokens one after the other: a
time, a strike limit, a setting, a pool. A shape is a pattern with a way to
build a token from what it matched. It claims the text at an offset if its
pattern matches there, the match ends before a blank or at the end of the text,
and the token can be built; the first shape that claims it has it.

The match of a pattern is the first one that there is, which need not be the
longest, and whether it ends at a boundary is looked at afterwards. So it is
not obvious that a shape claims all it should; `Token.claimed?_eq_read` says so.
-/

namespace MissionText

/-- A shape of tokens: a pattern, and the token that a match at an offset is, if
it is one. -/
structure Shape where
  pattern : Pattern
  build? : Match → Nat → Option TokenKind

/-- The number in a group, if the group took part in the match and holds one. -/
def Match.number? (found : Match) (index : Nat) : Option Nat :=
  (found.group? index).bind fun held => Text.unsigned? Text.settingBound held.text

namespace Pattern

/-- A character that has no case. -/
def mark (c : Char) : Pattern := one (· == c)

/-- A letter in either case. -/
def letter (c : Char) : Pattern := one fun d => Text.caseFold d == c

/-- A word in any case. -/
def word (cs : List Char) : Pattern := each (cs.map fun c d => Text.caseFold d == c)

/-- One to nine digits. -/
def field : Pattern := both (one Char.isDigit) (upTo 8 (one Char.isDigit))

/-- A field and the colon after it. -/
def hours : Pattern := both (group 1 field) (mark ':')

/-- Two fields with a colon between them. -/
def clock : Pattern := both (group 2 field) (both (mark ':') (group 3 field))

/-- Two or three fields with colons between them. -/
def time : Pattern := both (optional hours) clock

/-- A field and an `x` that ends a word. -/
def strikes : Pattern := both (group 1 field) (both (letter 'x') edge)

/-- One of the keywords, in any case. -/
def keyword : Pattern :=
  group 1 (anyOf (SettingName.all.map fun name => word name.keyword.toList))

/-- A colon and the ink after it. -/
def value : Pattern := both (mark ':') (group 2 (many (one Text.isInk)))

/-- A keyword, or a keyword, a colon and a value. -/
def setting : Pattern := both keyword (optional value)

/-- From one quote to the next, or to the end of the text. -/
def quotation : Pattern :=
  both (mark '"') (both (many (one fun c => !Text.isQuote c)) (either (mark '"') finish))

/-- What a list is made of. -/
def listItem : Pattern := either (one fun c => Text.isInk c && !Text.isQuote c) quotation

/-- A count and the sign after it. -/
def poolCount : Pattern := both (group 1 field) (one fun c => c == ';' || c == '*')

/-- A list, which has at least one item. -/
def list : Pattern := group 2 (atLeastOne listItem)

/-- A list, or a count and a list. -/
def pool : Pattern := both (optional poolCount) list

end Pattern

namespace Shape

/-- A time has minutes and seconds, and it may have hours. -/
def time : Shape where
  pattern := .time
  build? found _ := do
    let minutes ← found.number? 2
    let seconds ← found.number? 3
    return .time ⟨found.number? 1, minutes, seconds⟩

/-- A strike limit is a number. -/
def strikes : Shape where
  pattern := .strikes
  build? found _ := (found.number? 1).map .strikes

/-- A setting has a name and perhaps a value. That the keyword is one in the
ASCII range is looked at here alone. -/
def setting : Shape where
  pattern := .setting
  build? found _ := do
    let keyword ← found.group? 1
    let name ← SettingName.ofKeyword? (String.ofList keyword.text)
    return .setting ⟨name, String.ofList keyword.text,
      (found.group? 2).map fun value => String.ofList value.text⟩

/-- A pool has a list and perhaps a count. -/
def pool : Shape where
  pattern := .pool
  build? found start := do
    let ids ← found.group? 2
    return .pool ⟨found.number? 1, String.ofList ids.text, start + Text.width ids.before⟩

/-- The shapes in the order in which they are tried. -/
def all : List Shape := [time, strikes, setting, pool]

/-- The token that a shape claims at the start of a text, which itself starts at
an offset. -/
def claim? (matcher : Matcher) (start : Nat) (text : List Char) (shape : Shape) :
    Checked (Option Token) :=
  match matcher.find? shape.pattern text with
  | none => pure none
  | some found => do
    let after ← Checked.after text (Text.width found.read)
    if found.read = [] ∨ after.head?.any Text.isInk then return none
    return (shape.build? found start).map (⟨⟨start, Text.width found.read⟩, ·⟩)

/-- The token that the first of some shapes claims. -/
def firstClaim? (matcher : Matcher) (start : Nat) (text : List Char) :
    List Shape → Checked (Option Token)
  | [] => pure none
  | shape :: shapes => do
    match ← shape.claim? matcher start text with
    | some token => return some token
    | none => firstClaim? matcher start text shapes

end Shape

namespace Token

/-- The token that a shape claims at an offset of a text. -/
def claimed? (matcher : Matcher) (text : List Char) (start : Nat) : Checked (Option Token) := do
  Shape.firstClaim? matcher start (← Checked.after text start) Shape.all

/-- A run of ink that no shape claims is kept as a pool. -/
def unclaimed (text : List Char) (start : Nat) : Checked Token := do
  let rest ← Checked.after text start
  let run ← Checked.before rest (Text.width (rest.takeWhile Text.isInk))
  return ⟨⟨start, Text.width run⟩, .pool ⟨none, String.ofList run, start⟩⟩

/-- **The token at an offset of a text.** -/
def classify (matcher : Matcher) (text : List Char) (start : Nat) : Checked Token := do
  match ← claimed? matcher text start with
  | some token => return token
  | none => unclaimed text start

end Token

end MissionText
