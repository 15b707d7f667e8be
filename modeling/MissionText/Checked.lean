import MissionText.Text.Offset
/-!
# Checked steps

A text can be cut only at a character boundary that it has, a list has an entry
only at a place that it has, and a number can be taken only from one that is
not smaller. A checked step is one that says so when it cannot be taken, and a
run of such steps stops at the first of them. Each comes with the law that tells
when it can be taken.
-/

namespace MissionText

/-- Why a checked step cannot be taken. -/
inductive Fault where
  /-- A text has no such character boundary, or the two are in the wrong order. -/
  | slice
  /-- A list has no such entry. -/
  | entry
  /-- A difference would be negative. -/
  | difference
  /-- A loop would go on for ever. -/
  | endless
  deriving DecidableEq, Repr

/-- The outcome of steps that are checked. -/
abbrev Checked := Except Fault

namespace Checked

/-- What a step gives, unless there is nothing. -/
def ofOption {α : Type} (fault : Fault) : Option α → Checked α
  | some a => .ok a
  | none => .error fault

/-- The text before and after an offset. -/
def cut (cs : List Char) (n : Nat) : Checked (List Char × List Char) :=
  ofOption .slice (Text.cut? cs n)

/-- The text up to an offset. -/
def before (cs : List Char) (n : Nat) : Checked (List Char) := Prod.fst <$> cut cs n

/-- The text from an offset on. -/
def after (cs : List Char) (n : Nat) : Checked (List Char) := Prod.snd <$> cut cs n

/-- The text between two offsets. -/
def between (cs : List Char) (start stop : Nat) : Checked (List Char) :=
  ofOption .slice (Text.slice? cs start stop)

example : between ['é'] 0 1 = .error .slice := rfl

/-- One number less another. -/
def difference (m n : Nat) : Checked Nat :=
  if n ≤ m then .ok (m - n) else .error .difference

/-- The entry of a list at a place. -/
def entry {α : Type} (xs : List α) (i : Nat) : Checked α := ofOption .entry xs[i]?

section Outcomes

variable {α β : Type}

@[simp] theorem ok_bind (a : α) (f : α → Checked β) : ((.ok a : Checked α) >>= f) = f a := rfl

@[simp] theorem pure_eq_ok (a : α) : (pure a : Checked α) = .ok a := rfl

@[simp] theorem map_ok (f : α → β) (a : α) : f <$> (.ok a : Checked α) = .ok (f a) := rfl

end Outcomes

variable {cs as bs : List Char} {m n : Nat}

@[simp] theorem cut_append : cut (as ++ bs) (Text.width as) = .ok (as, bs) := by
  rw [cut, Text.cut?_append]
  rfl

@[simp] theorem before_append : before (as ++ bs) (Text.width as) = .ok as := by
  rw [before, cut_append]
  rfl

@[simp] theorem after_append : after (as ++ bs) (Text.width as) = .ok bs := by
  rw [after, cut_append]
  rfl

@[simp] theorem between_append :
    between (as ++ (cs ++ bs)) (Text.width as) (Text.width as + Text.width cs) = .ok cs := by
  rw [between, Text.slice?_append]
  rfl

theorem difference_of_le (h : n ≤ m) : difference m n = .ok (m - n) := if_pos h

@[simp] theorem difference_add_left : difference (m + n) m = .ok n := by
  rw [difference_of_le (Nat.le_add_right _ _), Nat.add_sub_cancel_left]

@[simp] theorem difference_add_right : difference (m + n) n = .ok m := by
  rw [difference_of_le (Nat.le_add_left _ _), Nat.add_sub_cancel]

theorem entry_of_getElem? {α : Type} {xs : List α} {i : Nat} {a : α} (h : xs[i]? = some a) :
    entry xs i = .ok a := by
  rw [entry, h]
  rfl

end Checked

end MissionText
