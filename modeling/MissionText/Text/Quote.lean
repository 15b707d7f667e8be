import MissionText.Text.Blank

/-!
# Quotes and separators

The identifiers of a pool stand in a list with `,` or `+` between them. Double
quotes in the list only hide blanks: they may be put around any stretch of it,
are taken out before an identifier is looked up, and do not hide a separator.
A quote that is never closed runs to the end of the text.
-/

namespace MissionText.Text

/-- Whether a character stands between two identifiers. -/
def isSeparator (c : Char) : Bool := c == ',' || c == '+'

/-- Whether a character is a quote. -/
def isQuote (c : Char) : Bool := c == '"'

/-- The characters without their quotes. -/
def unquoted (cs : List Char) : List Char := cs.filter fun c => !isQuote c

/-- The state of the quotes after some characters: each quote changes it. -/
def quotedAfter (quoted : Bool) (cs : List Char) : Bool :=
  cs.foldl (fun quoted c => quoted != isQuote c) quoted

/-- The longest beginning of a text whose blanks all stand inside quotes, and
the rest. The rest is empty or begins with a blank outside quotes. -/
def quotedRun (quoted : Bool) : List Char → List Char × List Char
  | [] => ([], [])
  | c :: cs =>
    if isBlank c && !quoted then ([], c :: cs)
    else
      let (run, rest) := quotedRun (quoted != isQuote c) cs
      (c :: run, rest)

/-- The text up to the last character with a property, that one included, and
the text after it. -/
def splitAfterLast (p : Char → Bool) : List Char → List Char × List Char
  | [] => ([], [])
  | c :: cs =>
    let (before, after) := splitAfterLast p cs
    if before.isEmpty && !p c then ([], c :: after) else (c :: before, after)

/-- **A quoted run loses nothing.** -/
theorem quotedRun_append (quoted : Bool) (cs : List Char) :
    (quotedRun quoted cs).1 ++ (quotedRun quoted cs).2 = cs := by
  induction cs generalizing quoted with
  | nil => rfl
  | cons c cs ih =>
    rw [quotedRun]
    split
    · rfl
    · simp [ih]

/-- **Splitting after the last character loses nothing.** -/
theorem splitAfterLast_append (p : Char → Bool) (cs : List Char) :
    (splitAfterLast p cs).1 ++ (splitAfterLast p cs).2 = cs := by
  induction cs with
  | nil => rfl
  | cons c cs ih =>
    simp only [splitAfterLast]
    split
    · rename_i h
      simp only [Bool.and_eq_true, List.isEmpty_iff] at h
      rw [h.1] at ih
      simpa using ih
    · simp [ih]

/-- What follows the last character with a property holds none of them. -/
theorem not_of_mem_splitAfterLast (p : Char → Bool) (cs : List Char) :
    ∀ c ∈ (splitAfterLast p cs).2, p c = false := by
  induction cs with
  | nil => simp [splitAfterLast]
  | cons d cs ih =>
    simp only [splitAfterLast]
    split
    · rename_i h
      simp only [Bool.and_eq_true, Bool.not_eq_true'] at h
      intro c hc
      rcases List.mem_cons.1 hc with rfl | hc
      · exact h.2
      · exact ih c hc
    · exact ih

/-- What goes up to the last character with a property ends with one. -/
theorem getLast?_splitAfterLast (p : Char → Bool) (cs : List Char) :
    ∀ c ∈ (splitAfterLast p cs).1.getLast?, p c = true := by
  induction cs with
  | nil => nofun
  | cons d cs ih =>
    simp only [splitAfterLast]
    split
    · nofun
    · rename_i h
      intro c hc
      rw [List.getLast?_cons] at hc
      cases hlast : (splitAfterLast p cs).1.getLast? with
      | none =>
        have hnil := List.getLast?_eq_none_iff.1 hlast
        rw [hlast] at hc
        obtain rfl : d = c := by simpa using hc
        simpa [hnil] using h
      | some e =>
        rw [hlast] at hc
        obtain rfl : e = c := by simpa using hc
        exact ih e hlast

/-- Without such a character nothing goes up to one. -/
theorem splitAfterLast_of_plain {p : Char → Bool} {cs : List Char} (h : ∀ c ∈ cs, p c = false) :
    splitAfterLast p cs = ([], cs) := by
  induction cs with
  | nil => rfl
  | cons c cs ih =>
    obtain ⟨hc, hcs⟩ := List.forall_mem_cons.1 h
    simp [splitAfterLast, ih hcs, hc]

end MissionText.Text
