import MissionText.Mission.Written
import MissionText.Proofs.Scan.Bounded
import MissionText.Proofs.Scan.Line
import MissionText.Proofs.Text.Numeral
import MissionText.Proofs.Token.Marked
/-!
# Written tokens — every token reads as what was written

`Reads text kind` says that a text is one word and what the word says. There
is a law for each way in which a token is written: a time limit in fields, a
strike limit as a field, a setting with a value or without one, and a pool as
a count and a list. Which of the four a text is read as is told by its first
field: a time has nothing but digits there, a setting begins with a letter, a
strike limit ends right after one character that is no digit, and after a count
there is a mark.
-/

namespace MissionText

open Text Token

variable {text : String} {kind : TokenKind} {run tail list ds : List Char} {c d : Char}
  {total count : Nat}

/-- **A text is one word, which says this.** -/
structure Reads (text : String) (kind : TokenKind) : Prop where
  word : IsWord text.toList
  gist : (ofPiece 0 text.toList).gist = kind

/-! ## Runs without blanks -/

/-- **A run of ink reads as what it says by itself.** -/
theorem reads_of_run (hink : ∀ c ∈ text.toList, isBlank c = false)
    (hrun : TokenKind.ofRun? text.toList = some kind) : Reads text kind := by
  have htake : text.toList.takeWhile isInk = text.toList :=
    List.takeWhile_eq_self_iff.2 fun c hc => by simp [hink c hc]
  have hdrop : text.toList.dropWhile isInk = [] :=
    List.dropWhile_eq_nil_iff.2 fun c hc => by simp [hink c hc]
  have hread : read 0 text.toList = (⟨⟨0, width text.toList⟩, kind⟩, []) := by
    rw [read_of_ofRun?_eq_some (htake.symm ▸ hrun), htake, hdrop]
  have hne : text.toList ≠ [] := by
    intro hnil
    rw [hnil] at hrun
    cases hrun
  obtain ⟨c, cs, hcs⟩ := List.exists_cons_of_ne_nil hne
  have hpiece : IsPiece text.toList :=
    ⟨⟨c, by simp [hcs], hink c (by simp [hcs])⟩, by rw [hread]⟩
  cases kind with
  | pool pool => exact absurd hrun (TokenKind.ofRun?_ne_pool pool)
  | _ => exact ⟨⟨hpiece, by rw [ofPiece, hread]; rfl⟩, by rw [ofPiece, hread]; rfl⟩

/-- A run whose first field is not all digits is no time. -/
theorem TimeToken.ofRun?_eq_none (hmem : c ∈ run.takeWhile (· ≠ ':')) (hc : c.isDigit = false) :
    ofRun? run = none := by
  -- what stands before the first colon is the first field
  have hsplit : ∃ fields, run.splitOn ':' = run.takeWhile (· ≠ ':') :: fields := by
    clear hmem
    induction run with
    | nil => exact ⟨[], rfl⟩
    | cons e run ih =>
      obtain ⟨fields, hfields⟩ := ih
      rw [List.splitOn_cons_eq_if_modifyHead, List.takeWhile_cons, hfields]
      by_cases he : e = ':' <;> simp [he]
  obtain ⟨fields, hfields⟩ := hsplit
  rw [ofRun?, hfields, List.map_cons, field?_eq_none hmem hc]

section Marks

/-! The first character that is no digit tells what a run is. -/

variable (hds : ∀ e ∈ ds, e.isDigit = true) (hc : c.isDigit = false)

include hds hc

/-- If it is no colon, the run is no time. -/
theorem timeOfRun?_mark (hcolon : c ≠ ':') : TimeToken.ofRun? (ds ++ c :: tail) = none := by
  refine TimeToken.ofRun?_eq_none (c := c) ?_ hc
  rw [List.takeWhile_append_of_pos, List.takeWhile_cons, if_pos (by simpa using hcolon)]
  · simp
  · intro e he
    have hdigit := hds e he
    simp only [ne_eq, decide_eq_true_eq]
    rintro rfl
    cases hdigit

/-- If it is not the last character, the run is no strike limit. -/
theorem strikesOfRun?_mark : strikesOfRun? (ds ++ c :: d :: tail) = none := by
  rw [strikesOfRun?, dropWhile_isDigit_mark hds hc]

end Marks

/-! ## Times -/

theorem isDigit_of_field? {n : Nat} (h : field? ds = some n) : ∀ c ∈ ds, c.isDigit = true :=
  (field?_eq_some_iff.1 h).1.2.2

/-- A field holds no colon. -/
theorem colon_notMem_of_field? {n : Nat} (h : field? ds = some n) : ':' ∉ ds := by
  intro hmem
  cases isDigit_of_field? h ':' hmem

theorem isBlank_of_field? {n : Nat} (h : field? ds = some n) (hc : c ∈ ds) : isBlank c = false :=
  isBlank_of_isDigit (isDigit_of_field? h c hc)

theorem isBlank_colon : isBlank ':' = false := by decide

section Times

variable {first second third : String} {hours minutes seconds : Nat}

theorem reads_two_fields (hfirst : field? first.toList = some minutes)
    (hsecond : field? second.toList = some seconds) :
    Reads (first ++ ":" ++ second) (.time ⟨none, minutes, seconds⟩) := by
  have htext : (first ++ ":" ++ second).toList = first.toList ++ ':' :: second.toList := by simp
  refine reads_of_run (fun c hc => ?_) ?_
  · simp only [htext, List.mem_append, List.mem_cons] at hc
    rcases hc with hc | rfl | hc
    · exact isBlank_of_field? hfirst hc
    · exact isBlank_colon
    · exact isBlank_of_field? hsecond hc
  · rw [htext, TokenKind.ofRun?, TimeToken.ofRun?,
      List.splitOn_append_cons_self_of_not_mem (colon_notMem_of_field? hfirst),
      List.splitOn_eq_singleton (colon_notMem_of_field? hsecond)]
    simp [hfirst, hsecond]

theorem reads_three_fields (hfirst : field? first.toList = some hours)
    (hsecond : field? second.toList = some minutes) (hthird : field? third.toList = some seconds) :
    Reads (first ++ ":" ++ second ++ ":" ++ third) (.time ⟨some hours, minutes, seconds⟩) := by
  have htext : (first ++ ":" ++ second ++ ":" ++ third).toList =
      first.toList ++ ':' :: (second.toList ++ ':' :: third.toList) := by simp
  refine reads_of_run (fun c hc => ?_) ?_
  · simp only [htext, List.mem_append, List.mem_cons] at hc
    rcases hc with hc | rfl | hc | rfl | hc
    · exact isBlank_of_field? hfirst hc
    · exact isBlank_colon
    · exact isBlank_of_field? hsecond hc
    · exact isBlank_colon
    · exact isBlank_of_field? hthird hc
  · rw [htext, TokenKind.ofRun?, TimeToken.ofRun?,
      List.splitOn_append_cons_self_of_not_mem (colon_notMem_of_field? hfirst),
      List.splitOn_append_cons_self_of_not_mem (colon_notMem_of_field? hsecond),
      List.splitOn_eq_singleton (colon_notMem_of_field? hthird)]
    simp [hfirst, hsecond, hthird]

end Times

namespace TimeToken

/-- A time limit in fields, as it is written. -/
def written (time : TimeToken) : String :=
  match time.hours with
  | some hours => toString hours ++ ":" ++ twoDigits time.minutes ++ ":" ++ twoDigits time.seconds
  | none => toString time.minutes ++ ":" ++ twoDigits time.seconds

/-- **A time limit in fields is read back.** -/
theorem InFields.reads {time : TimeToken} (h : time.InFields) :
    Reads time.written (.time time) := by
  obtain ⟨hhours, hminutes, hseconds⟩ := h
  obtain ⟨hours, minutes, seconds⟩ := time
  cases hours with
  | none => exact reads_two_fields (field?_toString hminutes) (field?_twoDigits hseconds)
  | some hours =>
    exact reads_three_fields (field?_toString (hhours hours rfl)) (field?_twoDigits hminutes)
      (field?_twoDigits hseconds)

/-- The fields in which a time limit is written. -/
def ofTotal (total : Nat) : TimeToken :=
  let hours := min (total / 3600) fieldMax
  let rest := total - hours * 3600
  let minutes := min (rest / 60) fieldMax
  ⟨if hours > 0 then some hours else none, minutes, rest - minutes * 60⟩

theorem written_ofTotal (total : Nat) : (ofTotal total).written = writtenTime total := by
  simp only [written, ofTotal, writtenTime]
  by_cases hhours : min (total / 3600) fieldMax > 0
  · simp only [if_pos hhours]
  · simp only [if_neg hhours]

/-- What the hours cannot hold goes to the minutes, and what those cannot hold
to the seconds. -/
theorem total_ofTotal (total : Nat) : (ofTotal total).total = total := by
  simp only [TimeToken.total, ofTotal]
  split <;> simp only [Option.getD_some, Option.getD_none] <;> omega

/-- What the hours and minutes cannot hold fits into the seconds. -/
theorem inFields_ofTotal (h : total ≤ fieldMax * 3661) : (ofTotal total).InFields := by
  refine ⟨fun hours hsome => ?_, Nat.min_le_right _ _, ?_⟩
  · obtain ⟨-, hhours⟩ := Option.ite_none_right_eq_some.1 hsome
    cases hhours
    exact Nat.min_le_right _ _
  · simp only [ofTotal, fieldMax] at *
    omega

end TimeToken

/-- **A time limit is read back** if three fields can express it. -/
theorem reads_writtenTime (h : total ≤ fieldMax * 3661) :
    ∃ time : TimeToken, time.total = total ∧ Reads (writtenTime total) (.time time) :=
  ⟨.ofTotal total, TimeToken.total_ofTotal total,
    TimeToken.written_ofTotal total ▸ (TimeToken.inFields_ofTotal h).reads⟩

/-! ## Strike limits -/

theorem reads_strikes (h : count ≤ fieldMax) : Reads (toString count ++ "X") (.strikes count) := by
  have htext : (toString count ++ "X").toList = (toString count).toList ++ ['X'] := by simp
  have hdigits : ∀ c ∈ (toString count).toList, c.isDigit = true := fun _ =>
    isDigit_of_mem_toString
  have hmark : ('X').isDigit = false := rfl
  refine reads_of_run (fun c hc => ?_) ?_
  · rw [htext, List.mem_append, List.mem_singleton] at hc
    rcases hc with hc | rfl
    · exact isBlank_of_isDigit (hdigits c hc)
    · decide
  · rw [htext, TokenKind.ofRun?, timeOfRun?_mark hdigits hmark (by decide), strikesOfRun?,
      dropWhile_isDigit_mark hdigits hmark, takeWhile_isDigit_mark hdigits hmark,
      field?_toString h]
    rfl

/-! ## Settings -/

/-- A keyword begins with two characters that are no digits. -/
theorem SettingName.keyword_cons (name : SettingName) :
    ∃ c d cs, name.keyword.toList = c :: d :: cs ∧ c.isDigit = false ∧ c ≠ ':' := by
  cases name <;> exact ⟨_, _, _, rfl, rfl, by decide⟩

theorem SettingName.keyword_plain (name : SettingName) :
    ∀ c ∈ name.keyword.toList, isBlank c = false ∧ c ≠ ':' := by
  have hall : name.keyword.toList.all (fun c => !isBlank c && c != ':') = true := by
    cases name <;> decide
  simpa using hall

/-- A keyword is a setting, at the end of the text or before a colon. -/
theorem tokenOfRun?_keyword (name : SettingName) (htail : ∀ c ∈ tail.head?, c = ':') :
    TokenKind.ofRun? (name.keyword.toList ++ tail) =
      some (.setting ⟨name, name.keyword, tail.tail?.map String.ofList⟩) := by
  obtain ⟨c, d, cs, hkeyword, hdigit, hcolon⟩ := name.keyword_cons
  -- the mark is the first letter: there are no digits before it
  have hnone : ∀ e ∈ ([] : List Char), e.isDigit = true := nofun
  have htime : TimeToken.ofRun? (name.keyword.toList ++ tail) = none := by
    rw [hkeyword]
    exact timeOfRun?_mark hnone hdigit hcolon
  have hstrikes : strikesOfRun? (name.keyword.toList ++ tail) = none := by
    rw [hkeyword]
    exact strikesOfRun?_mark hnone hdigit
  have hplain : ∀ c ∈ name.keyword.toList, decide (c ≠ ':') = true := fun c hc =>
    decide_eq_true (name.keyword_plain c hc).2
  have hhead : ∀ c ∈ tail.head?, decide (c ≠ ':') = false := fun c hc => by simp [htail c hc]
  rw [TokenKind.ofRun?, htime, hstrikes, SettingToken.ofRun?, takeWhile_append_of_head hhead,
    List.takeWhile_eq_self_iff.2 hplain, dropWhile_append_of_head hhead,
    List.dropWhile_eq_nil_iff.2 hplain, String.ofList_toList, SettingName.ofKeyword?_keyword]
  cases tail <;> rfl

/-- **A setting without a value is read back.** -/
theorem reads_keyword (name : SettingName) :
    Reads name.keyword (.setting ⟨name, name.keyword, none⟩) := by
  refine reads_of_run (fun c hc => (name.keyword_plain c hc).1) ?_
  have hkeyword : TokenKind.ofRun? (name.keyword.toList ++ []) = _ :=
    tokenOfRun?_keyword name nofun
  simpa using hkeyword

/-- **A setting with a value is read back**, if there is no blank in the
value. -/
theorem reads_setting (name : SettingName) {value : String}
    (hvalue : ∀ c ∈ value.toList, isBlank c = false) :
    Reads (name.keyword ++ ":" ++ value) (.setting ⟨name, name.keyword, some value⟩) := by
  have htext : (name.keyword ++ ":" ++ value).toList =
      name.keyword.toList ++ ':' :: value.toList := by simp
  refine reads_of_run (fun c hc => ?_) ?_
  · simp only [htext, List.mem_append, List.mem_cons] at hc
    rcases hc with hc | rfl | hc
    · exact (name.keyword_plain c hc).1
    · exact isBlank_colon
    · exact hvalue c hc
  · rw [htext, tokenOfRun?_keyword name (by simp)]
    simp

/-! ## Pools -/

/-- Digits and a star do not begin anything but a pool. -/
theorem tokenOfRun?_star (hds : ∀ e ∈ ds, e.isDigit = true) :
    TokenKind.ofRun? (ds ++ '*' :: tail) = none := by
  have hmem : '*' ∈ ds ++ ['*'] := by simp
  have hcolon : ':' ∉ ds ++ ['*'] := by
    intro hmem
    rcases List.mem_append.1 hmem with hmem | hmem
    · cases hds ':' hmem
    · cases List.mem_singleton.1 hmem
  have hrun : TokenKind.ofRun? (ds ++ ['*'] ++ tail) = none :=
    (TokenKind.ofRun?_append_eq_none_iff hmem rfl).2 fun h => absurd h hcolon
  simpa using hrun

/-- Nor does the run that begins with them. -/
theorem tokenOfRun?_takeWhile_star (hds : ∀ e ∈ ds, e.isDigit = true) :
    TokenKind.ofRun? ((ds ++ '*' :: tail).takeWhile isInk) = none := by
  have hstar : isBlank '*' = false := by decide
  have htake : (ds ++ '*' :: tail).takeWhile isInk = ds ++ '*' :: tail.takeWhile isInk := by
    rw [List.takeWhile_append_of_pos fun e he => by simp [isBlank_of_isDigit (hds e he)]]
    simp [hstar]
  rw [htake, tokenOfRun?_star hds]

/-- A count, a star and a balanced list are a piece, and are read as a pool. -/
theorem isPiece_star (hcount : field? ds = some count) (hink : isBlank c = false)
    (hbalanced : Balanced (c :: tail)) :
    IsPiece (ds ++ '*' :: c :: tail) ∧ (ofPiece 0 (ds ++ '*' :: c :: tail)).kind =
      .pool ⟨some count, String.ofList (c :: tail), 0 + (width ds + 1)⟩ := by
  have hdigits := isDigit_of_field? hcount
  have hne : ds ≠ [] := (field?_eq_some_iff.1 hcount).1.1
  have hrun : TokenKind.ofRun? ((ds ++ '*' :: c :: tail).takeWhile isInk) = none :=
    tokenOfRun?_takeWhile_star hdigits
  have hpiece : IsPiece (ds ++ '*' :: c :: tail) := by
    obtain ⟨e, es, rfl⟩ := List.exists_cons_of_ne_nil hne
    refine ⟨⟨e, rfl, isBlank_of_isDigit (hdigits e List.mem_cons_self)⟩, ?_⟩
    rw [read_of_ofRun?_eq_none hrun, PoolToken.read_eq,
      PoolToken.readCount_counted hcount (.inr rfl) hink,
      quotedRun_of_unbroken hbalanced.unbroken]
  refine ⟨hpiece, ?_⟩
  rw [hpiece.ofPiece_pool hrun, PoolToken.readCount_counted hcount (.inr rfl) hink]

/-- **A pool is read back from its count and its list**, if the list begins
with ink and is balanced. -/
theorem reads_pool (h : count ≤ fieldMax) {list : String}
    (hhead : ∃ c ∈ list.toList.head?, isBlank c = false) (hbalanced : Balanced list.toList) :
    Reads (toString count ++ "*" ++ list) (.pool ⟨some count, list, 0⟩) := by
  obtain ⟨c, hc, hink⟩ := hhead
  obtain ⟨tail, hlist⟩ := List.head?_eq_some_iff.1 hc
  have htext : (toString count ++ "*" ++ list).toList =
      (toString count).toList ++ '*' :: c :: tail := by simp [← hlist]
  obtain ⟨hpiece, hkind⟩ := isPiece_star (field?_toString h) hink (hlist ▸ hbalanced)
  rw [← hlist, String.ofList_toList, hlist] at hkind
  refine ⟨⟨htext ▸ hpiece, ?_⟩, ?_⟩
  · rw [htext, isOpen, hkind]
    exact hbalanced.closed
  · rw [htext, gist, hkind]

end MissionText
