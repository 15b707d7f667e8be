/-!
# Blank characters

The characters that separate the tokens of a mission line: those with the
Unicode property `White_Space`, twenty-five in all. The control characters
from U+001C to U+001F, the Mongolian vowel separator and the zero-width
characters are not among them, so none of those ends a token.
-/

namespace MissionText.Text

/-- The blank characters, as closed ranges of code points in ascending
order. -/
def blankRanges : List (Nat × Nat) :=
  [(0x09, 0x0D), (0x20, 0x20), (0x85, 0x85), (0xA0, 0xA0), (0x1680, 0x1680), (0x2000, 0x200A),
    (0x2028, 0x2029), (0x202F, 0x202F), (0x205F, 0x205F), (0x3000, 0x3000)]

example : blankRanges.foldr (fun (first, last) total => last - first + 1 + total) 0 = 25 := by
  decide

/-- Whether `c` separates tokens. -/
def isBlank (c : Char) : Bool :=
  blankRanges.any fun (first, last) => first ≤ c.toNat && c.toNat ≤ last

/-- Whether `c` belongs to a token wherever it stands. -/
def isInk (c : Char) : Bool := !isBlank c

/-- What is left of a text is not longer than the text. -/
theorem length_dropWhile_le (p : Char → Bool) (cs : List Char) :
    (cs.dropWhile p).length ≤ cs.length :=
  (List.dropWhile_suffix p).length_le

/-- The characters without the blanks at either end. -/
def trim (cs : List Char) : List Char :=
  ((cs.dropWhile isBlank).reverse.dropWhile isBlank).reverse

/-- Whether a string holds a blank, and so has to be quoted to stay one
identifier. -/
def hasBlank (s : String) : Bool := s.toList.any isBlank

end MissionText.Text
