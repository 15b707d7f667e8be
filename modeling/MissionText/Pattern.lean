import MissionText.Text.Blank
/-!
# Patterns

The shapes of tokens are given as patterns. A pattern is matched from where a
text starts, and it may match in several ways; which of them is taken is told
by their order. An earlier alternative comes before a later one, and a
repetition comes with as many rounds as it can before it comes with fewer.
`Pattern.ways` lists all the ways in this order, and `first?` takes the first
of them: a search that backtracks tries them one after the other.

What counts as a word character matters for the edges of words alone and is
told by the matcher, as is the search itself: `Matcher` says what is relied on.
-/

namespace MissionText

/-- A pattern for the text from some place on. -/
inductive Pattern where
  /-- Nothing at all. -/
  | empty
  /-- One character with a property. -/
  | one (p : Char → Bool)
  /-- The end of the text. -/
  | finish
  /-- The edge of a word. -/
  | edge
  /-- Two patterns, one after the other. -/
  | both (first second : Pattern)
  /-- Either of two patterns, the first one before the second. -/
  | either (first second : Pattern)
  /-- At most so many rounds of a pattern, the more the better. -/
  | upTo (most : Nat) (round : Pattern)
  /-- Any number of rounds of a pattern, each of which reads something; the
  more the better. -/
  | many (round : Pattern)
  /-- A pattern whose text is kept under a number. -/
  | group (index : Nat) (body : Pattern)

/-- What a group holds: its text, and what was read before it. -/
structure Held where
  before : List Char
  text : List Char
  deriving DecidableEq, Repr

/-- How far a match has come: what it has read, what is left, and what its
groups hold, the last one first. -/
structure Match where
  read : List Char
  rest : List Char
  groups : List (Nat × Held)
  deriving DecidableEq, Repr

namespace Match

/-- At the start of a text nothing is read. -/
def atStart (text : List Char) : Match := ⟨[], text, []⟩

/-- What a group holds, if it took part in the match. -/
def group? (found : Match) (index : Nat) : Option Held := found.groups.lookup index

@[simp] theorem group?_nil (read rest : List Char) (index : Nat) :
    group? ⟨read, rest, []⟩ index = none := rfl

@[simp] theorem group?_cons (read rest : List Char) (i index : Nat) (held : Held)
    (groups : List (Nat × Held)) :
    group? ⟨read, rest, (i, held) :: groups⟩ index =
      if index = i then some held else group? ⟨read, rest, groups⟩ index := by
  simp only [group?, List.lookup_cons]
  split <;> simp_all

/-- A match with a group that holds what was read since an earlier one. -/
def hold (index : Nat) (earlier found : Match) : Match where
  read := found.read
  rest := found.rest
  groups := (index, ⟨earlier.read, found.read.drop earlier.read.length⟩) :: found.groups

end Match

namespace Pattern

/-- The ways to go on for at most so many rounds, those with more rounds
first. -/
def rounds (round : Match → List Match) : Nat → Match → List Match
  | 0, found => [found]
  | most + 1, found => (round found).flatMap (rounds round most) ++ [found]

/-- **The ways in which a pattern goes on from a match**, in the order in which
a search tries them. -/
def ways (isWord : Char → Bool) : Pattern → Match → List Match
  | empty, found => [found]
  | one p, found =>
    match found.rest with
    | [] => []
    | c :: rest => if p c then [⟨found.read ++ [c], rest, found.groups⟩] else []
  | finish, found => if found.rest = [] then [found] else []
  | edge, found =>
    if found.read.getLast?.any isWord = found.rest.head?.any isWord then [] else [found]
  | both first second, found => (ways isWord first found).flatMap (ways isWord second)
  | either first second, found => ways isWord first found ++ ways isWord second found
  | upTo most round, found => rounds (ways isWord round) most found
  | many round, found => rounds (ways isWord round) found.rest.length found
  | group index body, found => (ways isWord body found).map (Match.hold index found)

/-- The match of a pattern at the start of a text. -/
def first? (isWord : Char → Bool) (pattern : Pattern) (text : List Char) : Option Match :=
  (pattern.ways isWord (Match.atStart text)).head?

/-- A pattern, or nothing. -/
def optional (body : Pattern) : Pattern := upTo 1 body

/-- One or more rounds of a pattern. -/
def atLeastOne (round : Pattern) : Pattern := both round (many round)

/-- Characters with given properties, one after the other. -/
def each : List (Char → Bool) → Pattern
  | [] => empty
  | p :: ps => both (one p) (each ps)

/-- Any of several patterns, an earlier one before a later one. -/
def anyOf : List Pattern → Pattern
  | [] => one fun _ => false
  | pattern :: patterns => either pattern (anyOf patterns)

end Pattern

/-- The character that stands for all that are the same but for case, as far as
ASCII letters go. Of the characters that fold to one, two are no ASCII letters
themselves: the long s and the Kelvin sign. -/
def Text.caseFold (c : Char) : Char :=
  if c.toNat = 0x17F then 's' else if c.toNat = 0x212A then 'k' else c.toLower

/-- **A matcher**: which characters make up words, and a search that finds the
first way in which a pattern matches. Letters belong to words and blanks do
not. -/
structure Matcher where
  isWord : Char → Bool
  find? : Pattern → List Char → Option Match
  isWord_of_isAlpha : ∀ c : Char, c.isAlpha = true → isWord c = true
  isWord_of_isBlank : ∀ c : Char, Text.isBlank c = true → isWord c = false
  find?_eq : ∀ pattern text, find? pattern text = pattern.first? isWord text

/-- The matcher whose words are made up of ASCII letters and digits, and which
tries all the ways. -/
def Matcher.ascii : Matcher where
  isWord := Char.isAlphanum
  find? := Pattern.first? Char.isAlphanum
  isWord_of_isAlpha c h := by simp [Char.isAlphanum, h]
  isWord_of_isBlank c h := by
    simp only [Text.isBlank, Text.blankRanges, List.any_cons, List.any_nil, Bool.or_false,
      Bool.or_eq_true, Bool.and_eq_true, decide_eq_true_eq] at h
    refine Bool.eq_false_iff.2 fun hword => ?_
    unfold Char.isAlphanum Char.isAlpha Char.isUpper Char.isLower Char.isDigit at hword
    simp only [Bool.or_eq_true, Bool.and_eq_true, decide_eq_true_eq, UInt32.le_iff_toNat_le,
      ge_iff_le] at hword
    change ((65 ≤ c.toNat ∧ c.toNat ≤ 90) ∨ (97 ≤ c.toNat ∧ c.toNat ≤ 122)) ∨
      (48 ≤ c.toNat ∧ c.toNat ≤ 57) at hword
    omega
  find?_eq _ _ := rfl

end MissionText
