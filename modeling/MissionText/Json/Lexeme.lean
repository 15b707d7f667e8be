import MissionText.Json

/-!
# JSON lexemes

A JSON text is first read into lexemes: brackets, separators, and values that
stand for themselves. Strings may not hold control characters, and a pair of
escapes for the two halves of a surrogate pair spells one character.
-/

namespace MissionText.Json

/-- A lexeme of a JSON text. -/
inductive Lexeme where
  | openArray
  | closeArray
  | openObject
  | closeObject
  | colon
  | comma
  | scalar (value : Json)

/-- One piece of a string: a character, or half a surrogate pair. -/
inductive Piece where
  | char (c : Char)
  | half (unit : Nat)

/-- The value of a hexadecimal digit. -/
def hexDigit? (c : Char) : Option Nat :=
  if c.isDigit then some (c.toNat - '0'.toNat)
  else if 'a' ≤ c ∧ c ≤ 'f' then some (c.toNat - 'a'.toNat + 10)
  else if 'A' ≤ c ∧ c ≤ 'F' then some (c.toNat - 'A'.toNat + 10)
  else none

/-- The number of some hexadecimal digits. -/
def hexNumber? (digits : List Char) : Option Nat :=
  digits.foldlM (fun n c => (hexDigit? c).map (16 * n + ·)) 0

/-- The piece that a sixteen-bit unit spells. -/
def Piece.ofUnit (unit : Nat) : Piece :=
  if 0xD800 ≤ unit ∧ unit < 0xE000 then .half unit else .char (Char.ofNat unit)

/-- The character of an escape of one letter. -/
def escape? : Char → Option Char
  | '"' => some '"'
  | '\\' => some '\\'
  | '/' => some '/'
  | 'b' => some '\x08'
  | 'f' => some '\x0c'
  | 'n' => some '\n'
  | 'r' => some '\r'
  | 't' => some '\t'
  | _ => none

/-- The pieces of a string after its opening quote, and the text after its
closing one. The pieces read so far are given last first. -/
def readString (read : List Piece) : List Char → Option (List Piece × List Char)
  | [] => none
  | '"' :: rest => some (read.reverse, rest)
  | '\\' :: 'u' :: a :: b :: c :: d :: rest =>
    match hexNumber? [a, b, c, d] with
    | some unit => readString (.ofUnit unit :: read) rest
    | none => none
  | '\\' :: c :: rest =>
    match escape? c with
    | some c => readString (.char c :: read) rest
    | none => none
  | c :: rest =>
    if c.toNat < 0x20 ∨ c = '\\' then none else readString (.char c :: read) rest

/-- The characters of some pieces. A high half has to stand right before a low
one, and neither stands for anything alone. -/
def joinPieces : List Piece → Option (List Char)
  | [] => some []
  | .char c :: pieces => (joinPieces pieces).map (c :: ·)
  | .half high :: .half low :: pieces =>
    if high < 0xDC00 ∧ 0xDC00 ≤ low then
      let c := Char.ofNat (0x10000 + (high - 0xD800) * 0x400 + (low - 0xDC00))
      (joinPieces pieces).map (c :: ·)
    else none
  | .half _ :: _ => none

/-- Whether a character belongs to a number or a name. -/
def isWordChar (c : Char) : Bool := c.isAlphanum || c == '+' || c == '-' || c == '.'

/-- What follows at least one digit. -/
def afterDigits? (cs : List Char) : Option (List Char) :=
  if (cs.takeWhile Char.isDigit).isEmpty then none else some (cs.dropWhile Char.isDigit)

/-- What follows the whole part of a number, which has no leading zeros. -/
def afterWhole? : List Char → Option (List Char)
  | '0' :: rest => some rest
  | cs => afterDigits? cs

/-- What follows a fraction, if there is one. -/
def afterFraction? : List Char → Option (List Char)
  | '.' :: rest => afterDigits? rest
  | cs => some cs

/-- What follows an exponent, if there is one. -/
def afterExponent? : List Char → Option (List Char)
  | 'e' :: '+' :: rest | 'e' :: '-' :: rest | 'E' :: '+' :: rest | 'E' :: '-' :: rest =>
    afterDigits? rest
  | 'e' :: rest | 'E' :: rest => afterDigits? rest
  | cs => some cs

/-- Whether a word is a number. -/
def isNumber (word : List Char) : Bool :=
  let unsigned := match word with
    | '-' :: rest => rest
    | _ => word
  ((afterWhole? unsigned).bind fun rest => (afterFraction? rest).bind afterExponent?) == some []

/-- The value of a word. -/
def ofWord? (word : List Char) : Option Json :=
  match String.ofList word with
  | "null" => some .null
  | "true" => some (.bool true)
  | "false" => some (.bool false)
  | lexeme => if isNumber word then some (.number lexeme) else none

/-- Whether a character may stand between lexemes. -/
def isSpace (c : Char) : Bool := c == ' ' || c == '\t' || c == '\n' || c == '\r'

/-- The lexeme that begins with a character, and the text after it. -/
def Lexeme.read? (c : Char) (rest : List Char) : Option (Lexeme × List Char) :=
  match c with
  | '[' => some (.openArray, rest)
  | ']' => some (.closeArray, rest)
  | '{' => some (.openObject, rest)
  | '}' => some (.closeObject, rest)
  | ':' => some (.colon, rest)
  | ',' => some (.comma, rest)
  | '"' =>
    match readString [] rest with
    | some (pieces, after) =>
      some (.scalar (.string ((joinPieces pieces).map String.ofList)), after)
    | none => none
  | c =>
    match ofWord? (c :: rest.takeWhile isWordChar) with
    | some value => some (.scalar value, rest.dropWhile isWordChar)
    | none => none

theorem length_readString_le {read pieces : List Piece} {cs after : List Char}
    (h : readString read cs = some (pieces, after)) : after.length ≤ cs.length := by
  fun_induction readString read cs with
  | case1 => simp at h
  | case2 _ rest => simp only [Option.some.injEq, Prod.mk.injEq] at h; simp [← h.2]
  | case3 _ a b c d rest unit hu ih =>
    have := ih h
    simp only [List.length_cons]
    omega
  | case4 => simp at h
  | case5 _ c rest _ c' hc ih =>
    have := ih h
    simp only [List.length_cons]
    omega
  | case6 => simp at h
  | case7 => simp at h
  | case8 _ c rest _ _ _ hc ih =>
    have := ih h
    simp only [List.length_cons]
    omega

/-- **Reading a lexeme does not lengthen the text after its first
character.** -/
theorem Lexeme.length_read?_le {c : Char} {rest after : List Char} {lexeme : Lexeme}
    (h : Lexeme.read? c rest = some (lexeme, after)) : after.length ≤ rest.length := by
  simp only [Lexeme.read?] at h
  split at h
  iterate 6
    simp only [Option.some.injEq, Prod.mk.injEq] at h
    simp [← h.2]
  · split at h
    · rename_i hread
      simp only [Option.some.injEq, Prod.mk.injEq] at h
      exact h.2 ▸ length_readString_le hread
    · simp at h
  · split at h
    · simp only [Option.some.injEq, Prod.mk.injEq] at h
      exact h.2 ▸ (List.dropWhile_suffix _).length_le
    · simp at h

/-- The lexemes of a text, if it consists of lexemes. -/
def lexemes? (cs : List Char) : Option (List Lexeme) :=
  match _hcs : cs.dropWhile isSpace with
  | [] => some []
  | c :: rest =>
    match _hread : Lexeme.read? c rest with
    | none => none
    | some (lexeme, after) => (lexemes? after).map (lexeme :: ·)
termination_by cs.length
decreasing_by
  have hafter := Lexeme.length_read?_le _hread
  have hrest := (List.dropWhile_suffix (l := cs) isSpace).length_le
  rw [_hcs, List.length_cons] at hrest
  omega

end MissionText.Json
