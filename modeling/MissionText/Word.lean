/-!
# Words

A machine counts in words of 64 bits and keeps some numbers in half a word. A
step of its arithmetic is exact as long as the result fits and is not negative;
here a step says so when that is not the case, and a run of steps stops at the
first of them. Each comes with the law that tells when it can be taken.
-/

namespace MissionText

/-- Why a step of arithmetic would not be exact. -/
inductive WordFault where
  /-- The result does not fit. -/
  | overflow
  /-- The result would be negative. -/
  | negative
  deriving DecidableEq, Repr

/-- The outcome of arithmetic on words. -/
abbrev Word := Except WordFault

namespace Word

/-- A number that has to be below a bound. -/
def fit (bound n : Nat) : Word Nat := if n < bound then .ok n else .error .overflow

/-- A sum in a word. -/
def sum (m n : Nat) : Word Nat := fit UInt64.size (m + n)

/-- A product in a word. -/
def product (m n : Nat) : Word Nat := fit UInt64.size (m * n)

/-- A difference in a word. -/
def difference (m n : Nat) : Word Nat := if n ≤ m then .ok (m - n) else .error .negative

/-- A word that is moved into half a word. -/
def half (n : Nat) : Word Nat := fit UInt32.size n

variable {α β : Type} {m n : Nat}

@[simp] theorem ok_bind (a : α) (f : α → Word β) : ((.ok a : Word α) >>= f) = f a := rfl

@[simp] theorem pure_eq_ok (a : α) : (pure a : Word α) = .ok a := rfl

theorem sum_of_lt (h : m + n < UInt64.size) : sum m n = .ok (m + n) := if_pos h

theorem product_of_lt (h : m * n < UInt64.size) : product m n = .ok (m * n) := if_pos h

theorem difference_of_le (h : n ≤ m) : difference m n = .ok (m - n) := if_pos h

theorem half_of_lt (h : n < UInt32.size) : half n = .ok n := if_pos h

end Word

end MissionText
