/-!
# Numerals

How numbers are written in a mission line. The fields of a time, a strike
limit and a pool count are one to nine digits; a setting takes a whole number
below a limit, with an optional plus sign and any number of leading zeros.
-/

namespace MissionText.Text

/-- The number written by a list of digits. -/
def digitsValue (ds : List Char) : Nat := Nat.ofDigitChars 10 ds 0

/-- The most digits that a field of a token may have. -/
def fieldDigits : Nat := 9

/-- The largest number that a field of a token can hold. -/
def fieldMax : Nat := 999999999

/-- The number written by one to nine digits. -/
def field? (ds : List Char) : Option Nat :=
  if ds ≠ [] ∧ ds.length ≤ fieldDigits ∧ ds.all Char.isDigit then some (digitsValue ds)
  else none

/-- The number written by one or more digits, however many. -/
def natural? (ds : List Char) : Option Nat :=
  if ds ≠ [] ∧ ds.all Char.isDigit then some (digitsValue ds) else none

/-- The whole number below `bound` that is written by digits after an
optional plus sign. -/
def unsigned? (bound : Nat) (cs : List Char) : Option Nat :=
  let digits := match cs with
    | '+' :: ds => ds
    | ds => ds
  (natural? digits).filter (· < bound)

/-- The bound of the values that settings take. -/
def settingBound : Nat := UInt32.size

/-- A number in at least two digits. -/
def twoDigits (n : Nat) : String := if n < 10 then "0" ++ toString n else toString n

theorem field?_eq_some_iff {ds : List Char} {n : Nat} :
    field? ds = some n ↔
      (ds ≠ [] ∧ ds.length ≤ 9 ∧ ∀ c ∈ ds, c.isDigit) ∧ digitsValue ds = n := by
  simp [field?, fieldDigits]

/-- A number of at most nine digits is read back from its digits. -/
theorem field?_toDigits {n : Nat} (h : n ≤ fieldMax) : field? (Nat.toDigits 10 n) = some n := by
  have hlen : (Nat.toDigits 10 n).length ≤ 9 :=
    (Nat.length_toDigits_le_iff (by decide) (by decide)).2 (by simp only [fieldMax] at h; omega)
  rw [field?_eq_some_iff]
  exact ⟨⟨Nat.toDigits_ne_nil, hlen, fun c hc => Nat.isDigit_of_mem_toDigits (by decide)
    (by decide) hc⟩, Nat.ofDigitChars_toDigits (by decide) (by decide)⟩

end MissionText.Text
