import MissionText.Text.Numeral
import MissionText.Token

/-!
# Reading a token

Times, strike limits and settings are runs of characters up to the next blank,
and are told apart by the whole run: `TokenKind.ofRun?`. Any other token is a
pool, which may hold blanks between quotes and so can be longer than its first
run: `PoolToken.read`. `Token.read` reads the token at the head of a text and
leaves the rest, which is always shorter (`length_read_lt`).
-/

namespace MissionText

/-- A time is two or three fields with colons between them. -/
def TimeToken.ofRun? (run : List Char) : Option TimeToken :=
  match (run.splitOn ':').map Text.field? with
  | [some minutes, some seconds] => some ⟨none, minutes, seconds⟩
  | [some hours, some minutes, some seconds] => some ⟨some hours, minutes, seconds⟩
  | _ => none

/-- A strike limit is a field with an `x` after it. -/
def strikesOfRun? (run : List Char) : Option Nat :=
  match run.dropWhile Char.isDigit with
  | [mark] => if mark = 'x' ∨ mark = 'X' then Text.field? (run.takeWhile Char.isDigit) else none
  | _ => none

/-- A setting is a keyword, or a keyword, a colon and a value. -/
def SettingToken.ofRun? (run : List Char) : Option SettingToken :=
  let rawName := String.ofList (run.takeWhile (· ≠ ':'))
  (SettingName.ofKeyword? rawName).map fun name =>
    ⟨name, rawName,
      match run.dropWhile (· ≠ ':') with
      | [] => none
      | _ :: value => some (String.ofList value)⟩

/-- What a run of characters without blanks says by itself, if it is not a
pool. -/
def TokenKind.ofRun? (run : List Char) : Option TokenKind :=
  ((TimeToken.ofRun? run).map .time).or <|
    ((strikesOfRun? run).map .strikes).or <|
      (SettingToken.ofRun? run).map .setting

namespace PoolToken

/-- The count at the head of a pool, its width and what follows. A count is a
field, a `;` or `*`, and then something to count; without all three there is
no count, and the list starts at once. -/
def readCount (cs : List Char) : Option Nat × Nat × List Char :=
  let digits := cs.takeWhile Char.isDigit
  match Text.field? digits, cs.dropWhile Char.isDigit with
  | some count, sep :: c :: rest =>
    if (sep = ';' ∨ sep = '*') ∧ Text.isInk c then
      (some count, Text.width digits + 1, c :: rest)
    else (none, 0, cs)
  | _, _ => (none, 0, cs)

/-- The pool at the head of a text that starts at an offset, and the rest. -/
def read (start : Nat) (cs : List Char) : PoolToken × List Char :=
  let (count, skipped, list) := readCount cs
  let (idList, rest) := Text.quotedRun false list
  (⟨count, String.ofList idList, start + skipped⟩, rest)

end PoolToken

/-- The token at the head of a text that starts at an offset, and the rest. -/
def Token.read (start : Nat) (cs : List Char) : Token × List Char :=
  let run := cs.takeWhile Text.isInk
  match TokenKind.ofRun? run with
  | some kind => (⟨⟨start, Text.width run⟩, kind⟩, cs.dropWhile Text.isInk)
  | none =>
    let (pool, rest) := PoolToken.read start cs
    (⟨⟨start, pool.stop - start⟩, .pool pool⟩, rest)

/-! ## The rest is shorter -/

theorem PoolToken.length_readCount_le (cs : List Char) :
    (readCount cs).2.2.length ≤ cs.length := by
  have hdrop := Text.length_dropWhile_le Char.isDigit cs
  simp only [readCount]
  split
  · rename_i heq
    rw [heq] at hdrop
    split
    · simp only [List.length_cons] at hdrop ⊢
      omega
    · simp
  · simp

theorem PoolToken.exists_readCount (c : Char) (cs : List Char) (h : Text.isBlank c = false) :
    ∃ d ds, (readCount (c :: cs)).2.2 = d :: ds ∧ Text.isBlank d = false := by
  simp only [readCount]
  split
  · split
    · rename_i hsep
      exact ⟨_, _, rfl, by simpa [Text.isInk] using hsep.2⟩
    · exact ⟨_, _, rfl, h⟩
  · exact ⟨_, _, rfl, h⟩

/-- **Reading a token leaves a shorter text.** -/
theorem Token.length_read_lt (start : Nat) {c : Char} {cs : List Char}
    (h : Text.isBlank c = false) : (Token.read start (c :: cs)).2.length < (c :: cs).length := by
  simp only [Token.read]
  split
  · have := Text.length_dropWhile_le Text.isInk cs
    simp only [List.dropWhile_cons, Text.isInk, h, Bool.not_false, if_true, List.length_cons]
    exact Nat.lt_succ_of_le this
  · obtain ⟨d, ds, hlist, hd⟩ := PoolToken.exists_readCount c cs h
    have hle := PoolToken.length_readCount_le (c :: cs)
    have happ := congrArg List.length (Text.quotedRun_append false (d :: ds))
    simp only [PoolToken.read, hlist] at hle ⊢
    simp only [Text.quotedRun, hd, Bool.false_and, Bool.false_eq_true, if_false,
      List.length_append, List.length_cons] at happ hle ⊢
    omega

end MissionText
