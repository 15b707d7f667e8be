import Mathlib.Data.List.TakeWhile
import MissionText.Text.Offset
import MissionText.Text.Quote
/-!
# Boundaries

Where a token may end: at the end of the text, or before a blank. Reading
never looks past such a place, unless a quote is open there, so a run that is
read up to a boundary is read the same whatever follows. `Unbroken` names the
stretches that a quoted run takes in whole, and the two laws of `quotedRun`
say what it does with such a stretch and where it stops.
-/

namespace MissionText.Text

variable {p : Char → Bool} {cs run rest : List Char} {quoted : Bool}

/-- A stretch of blanks. -/
def Blank (cs : List Char) : Prop := ∀ c ∈ cs, isBlank c = true

/-- The text is over, or goes on with a blank. -/
def AtBoundary (cs : List Char) : Prop := ∀ c ∈ cs.head?, isBlank c = true

@[simp] theorem atBoundary_nil : AtBoundary [] := by simp [AtBoundary]

@[simp] theorem atBoundary_cons {c : Char} : AtBoundary (c :: cs) ↔ isBlank c = true := by
  simp [AtBoundary]

theorem AtBoundary.append (h : AtBoundary cs) (hne : cs ≠ []) : AtBoundary (cs ++ rest) := by
  cases cs with
  | nil => exact absurd rfl hne
  | cons c cs => simpa using h

@[simp] theorem isInk_eq_not (c : Char) : isInk c = !isBlank c := rfl

/-- The check that a given text holds no character with a property. -/
theorem not_of_all (h : cs.all (fun c => !p c) = true) : ∀ c ∈ cs, p c = false := by
  simpa using h

theorem isSeparator_iff {c : Char} : isSeparator c = true ↔ c = ',' ∨ c = '+' := by
  simp [isSeparator]

/-- A digit is no blank. -/
theorem isBlank_of_isDigit {c : Char} (h : c.isDigit = true) : isBlank c = false := by
  simp only [Char.isDigit, ge_iff_le, Bool.and_eq_true, decide_eq_true_eq] at h
  have h₁ : 48 ≤ c.toNat := h.1
  have h₂ : c.toNat ≤ 57 := h.2
  simp only [isBlank, blankRanges, List.any_cons, List.any_nil, Bool.or_eq_false_iff,
    Bool.and_eq_false_iff, decide_eq_false_iff_not, and_true]
  omega

/-! ## Runs

A run of characters with a property, before a text that does not go on with
such a character, is the run of the whole. -/

theorem takeWhile_append_of_head (h : ∀ c ∈ rest.head?, p c = false) :
    (cs ++ rest).takeWhile p = cs.takeWhile p := by
  induction cs with
  | nil =>
    cases rest with
    | nil => rfl
    | cons c rest => simp [h c rfl]
  | cons c cs ih => simp [List.takeWhile_cons, ih]

theorem dropWhile_append_of_head (h : ∀ c ∈ rest.head?, p c = false) :
    (cs ++ rest).dropWhile p = cs.dropWhile p ++ rest := by
  induction cs with
  | nil =>
    cases rest with
    | nil => rfl
    | cons c rest => simp [h c rfl]
  | cons c cs ih =>
    rw [List.cons_append, List.dropWhile_cons, List.dropWhile_cons, ih]
    split <;> rfl

section

variable {ds : List Char} {c : Char} (hds : ∀ e ∈ ds, e.isDigit = true) (hc : c.isDigit = false)

include hds hc

theorem takeWhile_isDigit_mark : (ds ++ c :: rest).takeWhile Char.isDigit = ds := by
  rw [takeWhile_append_of_head (by simpa using hc), List.takeWhile_eq_self_iff.2 hds]

theorem dropWhile_isDigit_mark : (ds ++ c :: rest).dropWhile Char.isDigit = c :: rest := by
  rw [dropWhile_append_of_head (by simpa using hc), List.dropWhile_eq_nil_iff.2 hds,
    List.nil_append]

end

theorem AtBoundary.isInk_head (h : AtBoundary rest) : ∀ c ∈ rest.head?, isInk c = false :=
  fun c hc => by simp [h c hc]

theorem AtBoundary.isDigit_head (h : AtBoundary rest) : ∀ c ∈ rest.head?, c.isDigit = false := by
  intro c hc
  rw [Bool.eq_false_iff]
  intro hdigit
  have hblank := h c hc
  rw [isBlank_of_isDigit hdigit] at hblank
  cases hblank

/-- A run of ink ends at a boundary. -/
theorem atBoundary_dropWhile (cs : List Char) : AtBoundary (cs.dropWhile isInk) := by
  intro c hc
  have := List.head?_dropWhile_not isInk cs
  rw [Option.mem_def.1 hc] at this
  simpa using this

/-! ## Quoted runs -/

@[simp] theorem quotedAfter_nil : quotedAfter quoted [] = quoted := rfl

@[simp] theorem quotedAfter_cons (c : Char) :
    quotedAfter quoted (c :: cs) = quotedAfter (quoted != isQuote c) cs := rfl

@[simp] theorem quotedAfter_append :
    quotedAfter quoted (cs ++ rest) = quotedAfter (quotedAfter quoted cs) rest :=
  List.foldl_append

/-- What a stretch does to the quotes, it does to them in either state. -/
theorem quotedAfter_eq_bne (quoted : Bool) (cs : List Char) :
    quotedAfter quoted cs = (quoted != quotedAfter false cs) := by
  induction cs generalizing quoted with
  | nil => simp
  | cons c cs ih =>
    rw [quotedAfter_cons, quotedAfter_cons, ih, ih (false != isQuote c), Bool.false_bne,
      Bool.bne_assoc]

/-- A stretch leaves a quote open if it holds an odd number of them. -/
theorem quotedAfter_eq_false_iff : quotedAfter false cs = false ↔ cs.count '"' % 2 = 0 := by
  induction cs with
  | nil => simp
  | cons c cs ih =>
    rw [quotedAfter_cons, quotedAfter_eq_bne, Bool.false_bne]
    by_cases hc : c = '"'
    · subst hc
      have hquote : isQuote '"' = true := rfl
      have hflip : (cs.count '"' + 1) % 2 = 0 ↔ ¬ cs.count '"' % 2 = 0 := by omega
      rw [hquote, List.count_cons_self, hflip, ← ih]
      simp
    · have hplain : isQuote c = false := by simpa [isQuote] using hc
      rw [hplain, List.count_cons_of_ne hc, ← ih]
      simp

/-- Outside quotes an even number of them stands before. -/
theorem decide_even_count : decide (cs.count '"' % 2 = 0) = !quotedAfter false cs := by
  rw [Bool.eq_iff_iff, Bool.not_eq_true', quotedAfter_eq_false_iff, decide_eq_true_iff]

/-- No blank of the stretch stands outside quotes. -/
def Unbroken (quoted : Bool) (cs : List Char) : Prop := (quotedRun quoted cs).2 = []

theorem unbroken_nil : Unbroken quoted [] := rfl

theorem unbroken_cons {c : Char} :
    Unbroken quoted (c :: cs) ↔
      (isBlank c = true → quoted = true) ∧ Unbroken (quoted != isQuote c) cs := by
  rw [Unbroken, quotedRun]
  split
  · rename_i h
    simp only [Bool.and_eq_true, Bool.not_eq_true'] at h
    simp [h.1, h.2]
  · rename_i h
    simp only [Bool.and_eq_true, Bool.not_eq_true', not_and, Bool.not_eq_false] at h
    exact ⟨fun hrun => ⟨h, hrun⟩, And.right⟩

/-- **A quoted run takes in an unbroken stretch whole**, and goes on in the
state of the quotes after it. -/
theorem quotedRun_append_of_unbroken (h : Unbroken quoted run) :
    quotedRun quoted (run ++ rest) =
      (run ++ (quotedRun (quotedAfter quoted run) rest).1,
        (quotedRun (quotedAfter quoted run) rest).2) := by
  induction run generalizing quoted with
  | nil => rfl
  | cons c run ih =>
    obtain ⟨hc, hrun⟩ := unbroken_cons.1 h
    rw [List.cons_append, quotedRun, if_neg (by cases quoted <;> simp_all), ih hrun]
    rfl

theorem quotedRun_of_unbroken (h : Unbroken quoted run) : quotedRun quoted run = (run, []) := by
  have happ : quotedRun quoted (run ++ []) = _ := quotedRun_append_of_unbroken h
  simpa [quotedRun] using happ

theorem unbroken_append :
    Unbroken quoted (cs ++ rest) ↔
      Unbroken quoted cs ∧ Unbroken (quotedAfter quoted cs) rest := by
  induction cs generalizing quoted with
  | nil => simp [unbroken_nil]
  | cons c cs ih => simp only [List.cons_append, unbroken_cons, ih, quotedAfter_cons, and_assoc]

/-- What a quoted run takes in is unbroken. -/
theorem unbroken_quotedRun (quoted : Bool) (cs : List Char) :
    Unbroken quoted (quotedRun quoted cs).1 := by
  induction cs generalizing quoted with
  | nil => rfl
  | cons c cs ih =>
    rw [quotedRun]
    split
    · rfl
    · rename_i h
      refine unbroken_cons.2 ⟨fun hc => ?_, ih _⟩
      simpa [hc] using h

/-- **A quoted run stops at the end or before a blank outside quotes.** -/
theorem quotedRun_stop (quoted : Bool) (cs : List Char) :
    (quotedRun quoted cs).2 = [] ∨
      AtBoundary (quotedRun quoted cs).2 ∧ quotedAfter quoted (quotedRun quoted cs).1 = false := by
  induction cs generalizing quoted with
  | nil => exact .inl rfl
  | cons c cs ih =>
    rw [quotedRun]
    split
    · rename_i h
      simp only [Bool.and_eq_true, Bool.not_eq_true'] at h
      exact .inr ⟨by simpa using h.1, h.2⟩
    · exact ih _

/-- Outside quotes nothing is taken in at a boundary. -/
theorem quotedRun_of_atBoundary (h : AtBoundary rest) : quotedRun false rest = ([], rest) := by
  cases rest with
  | nil => rfl
  | cons c rest => simp [quotedRun, atBoundary_cons.1 h]

theorem unbroken_of_ink (h : ∀ c ∈ cs, isBlank c = false) : Unbroken quoted cs := by
  induction cs generalizing quoted with
  | nil => rfl
  | cons c cs ih =>
    refine unbroken_cons.2 ⟨fun hc => ?_, ih fun d hd => h d (List.mem_cons_of_mem _ hd)⟩
    rw [h c List.mem_cons_self] at hc
    cases hc

end MissionText.Text
