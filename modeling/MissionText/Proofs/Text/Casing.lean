import MissionText.Proofs.Text.Boundary
import MissionText.Text.Blank
import MissionText.Text.Lowercase
import MissionText.Text.Numeral
/-!
# Casing — texts taken character by character to others

A function on characters under which a property stays takes a text apart at the
same places as before. The one that matters most is lowercase: it leaves blanks,
digits, separators and widths alone, so numbers are read in any case.
-/

namespace MissionText.Text

variable {p : Char → Bool} {f : Char → Char} {cs ds : List Char} {c : Char} {quoted : Bool}

/-! ## Functions that keep a property -/

theorem takeWhile_map_of (hp : ∀ c, p (f c) = p c) (cs : List Char) :
    (cs.map f).takeWhile p = (cs.takeWhile p).map f := by
  rw [List.takeWhile_map, show p ∘ f = p from funext hp]

theorem dropWhile_map_of (hp : ∀ c, p (f c) = p c) (cs : List Char) :
    (cs.map f).dropWhile p = (cs.dropWhile p).map f := by
  rw [List.dropWhile_map, show p ∘ f = p from funext hp]

theorem filter_map_of (hp : ∀ c, p (f c) = p c) (cs : List Char) :
    (cs.map f).filter p = (cs.filter p).map f := by
  rw [List.filter_map, show p ∘ f = p from funext hp]

theorem all_map_of (hp : ∀ c, p (f c) = p c) (cs : List Char) : (cs.map f).all p = cs.all p := by
  rw [List.all_map, show p ∘ f = p from funext hp]

/-- What is split at characters with the property is split at the same places. -/
theorem splitOnP_map_of (hp : ∀ c, p (f c) = p c) (cs : List Char) :
    (cs.map f).splitOnP p = (cs.splitOnP p).map (List.map f) := by
  induction cs with
  | nil => rfl
  | cons c cs ih =>
    rw [List.map_cons, List.splitOnP_cons_eq_if_modifyHead, List.splitOnP_cons_eq_if_modifyHead, hp,
      ih]
    split
    · rfl
    · cases cs.splitOnP p <;> rfl

theorem trim_map_of (hf : ∀ c, isBlank (f c) = isBlank c) (cs : List Char) :
    trim (cs.map f) = (trim cs).map f := by
  rw [trim, trim, dropWhile_map_of hf, ← List.map_reverse, dropWhile_map_of hf, List.map_reverse]

theorem unquoted_map_of (hf : ∀ c, isQuote (f c) = isQuote c) (cs : List Char) :
    unquoted (cs.map f) = (unquoted cs).map f :=
  filter_map_of (fun c => by rw [hf]) cs

theorem width_map_of (hf : ∀ c, (f c).utf8Size = c.utf8Size) (cs : List Char) :
    width (cs.map f) = width cs := by
  induction cs with
  | nil => rfl
  | cons c cs ih => rw [List.map_cons, width_cons, width_cons, hf, ih]

theorem quotedAfter_map_of (hf : ∀ c, isQuote (f c) = isQuote c) (quoted : Bool)
    (cs : List Char) : quotedAfter quoted (cs.map f) = quotedAfter quoted cs := by
  induction cs generalizing quoted with
  | nil => rfl
  | cons c cs ih => rw [List.map_cons, quotedAfter_cons, quotedAfter_cons, hf, ih]

theorem unbroken_map_iff (hquote : ∀ c, isQuote (f c) = isQuote c)
    (hblank : ∀ c, isBlank (f c) = isBlank c) :
    Unbroken quoted (cs.map f) ↔ Unbroken quoted cs := by
  induction cs generalizing quoted with
  | nil => exact Iff.rfl
  | cons c cs ih => rw [List.map_cons, unbroken_cons, unbroken_cons, hquote, hblank, ih]

/-- A text of characters that the function leaves alone is left alone. -/
theorem map_eq_self (h : ∀ c ∈ cs, f c = c) : cs.map f = cs :=
  (List.map_congr_left h).trans (List.map_id cs)

/-! ## The case of letters -/

/-- An ASCII capital moves on by thirty-two, and any other character stays. -/
theorem toLower_cases (c : Char) :
    c.toLower = c ∨ 65 ≤ c.toNat ∧ c.toNat ≤ 90 ∧ c.toLower.toNat = c.toNat + 32 := by
  by_cases hcapital : c.val ≥ 'A'.val ∧ c.val ≤ 'Z'.val
  · have hge : 65 ≤ c.toNat := hcapital.1
    have hle : c.toNat ≤ 90 := hcapital.2
    have hval : c.toLower.toNat = (c.toNat + 32) % 2 ^ 32 :=
      congrArg UInt32.toNat (val_toLower hcapital)
    exact .inr ⟨hge, hle, by omega⟩
  · exact .inl (toLower_eq_self hcapital)

/-- A letter becomes a letter, so a property that no letter has does not tell cases
apart. -/
theorem apply_toLower {p : Char → Bool}
    (hp : ∀ c : Char, 65 ≤ c.toNat → c.toNat ≤ 122 → p c = false) (c : Char) :
    p c.toLower = p c := by
  rcases toLower_cases c with hsame | ⟨hge, hle, hlower⟩
  · rw [hsame]
  · rw [hp c hge (by omega), hp c.toLower (by omega) (by omega)]

theorem isBlank_toLower (c : Char) : isBlank c.toLower = isBlank c := by
  refine apply_toLower (fun c hge hle => ?_) c
  simp only [isBlank, blankRanges, List.any_cons, List.any_nil, Bool.or_eq_false_iff,
    Bool.and_eq_false_iff, decide_eq_false_iff_not, and_true]
  omega

theorem toNat_le_of_isDigit (h : c.isDigit = true) : c.toNat ≤ 57 := by
  simp only [Char.isDigit, Bool.and_eq_true, decide_eq_true_eq] at h
  exact h.2

theorem isDigit_toLower (c : Char) : c.toLower.isDigit = c.isDigit := by
  refine apply_toLower (fun c hge _ => ?_) c
  rw [Bool.eq_false_iff]
  intro hdigit
  have := toNat_le_of_isDigit hdigit
  omega

theorem isSeparator_toLower (c : Char) : isSeparator c.toLower = isSeparator c := by
  refine apply_toLower (fun c hge _ => ?_) c
  rw [Bool.eq_false_iff]
  intro hsep
  rcases isSeparator_iff.1 hsep with rfl | rfl <;> revert hge <;> decide

/-- A digit is no letter. -/
theorem toLower_of_isDigit (h : c.isDigit = true) : c.toLower = c := by
  have := toNat_le_of_isDigit h
  rcases toLower_cases c with hsame | ⟨hge, -, -⟩
  · exact hsame
  · omega

/-- A colon or a plus sign is no letter. -/
theorem beq_toLower (mark : Char) (hmark : mark.toNat < 65) (c : Char) :
    (c.toLower == mark) = (c == mark) := by
  refine apply_toLower (p := (· == mark)) (fun d hge _ => ?_) c
  rw [beq_eq_false_iff_ne]
  rintro rfl
  exact Nat.not_le.2 hmark hge

theorem utf8Size_toLower (c : Char) : c.toLower.utf8Size = c.utf8Size := by
  have hone {d : Char} (hd : d.toNat ≤ 127) : d.utf8Size = 1 := if_pos hd
  rcases toLower_cases c with hsame | ⟨-, hle, hlower⟩
  · rw [hsame]
  · rw [hone (by omega), hone (by omega)]

theorem toLower_toLower (c : Char) : c.toLower.toLower = c.toLower := by
  rcases toLower_cases c.toLower with hsame | ⟨hge, hle, -⟩
  · exact hsame
  · rcases toLower_cases c with hsame | ⟨hcapital, -, hlower⟩
    · rw [hsame, hsame]
    · omega

theorem map_toLower_map (cs : List Char) :
    (cs.map Char.toLower).map Char.toLower = cs.map Char.toLower := by
  rw [List.map_map, show Char.toLower ∘ Char.toLower = Char.toLower from funext toLower_toLower]

/-! ## Numerals in any case -/

/-- The digits of a numeral are no letters. -/
theorem digitsValue_lowercase (h : ds.all Char.isDigit = true) :
    digitsValue (ds.map Char.toLower) = digitsValue ds := by
  rw [map_eq_self fun c hc => toLower_of_isDigit (List.all_eq_true.1 h c hc)]

theorem field?_lowercase (ds : List Char) : field? (ds.map Char.toLower) = field? ds := by
  simp only [field?, ne_eq, List.map_eq_nil_iff, List.length_map, all_map_of isDigit_toLower]
  split
  · rename_i h
    rw [digitsValue_lowercase h.2.2]
  · rfl

theorem natural?_lowercase (ds : List Char) : natural? (ds.map Char.toLower) = natural? ds := by
  simp only [natural?, ne_eq, List.map_eq_nil_iff, all_map_of isDigit_toLower]
  split
  · rename_i h
    rw [digitsValue_lowercase h.2]
  · rfl

theorem unsigned?_lowercase (bound : Nat) (cs : List Char) :
    unsigned? bound (cs.map Char.toLower) = unsigned? bound cs := by
  have hunsigned {d : Char} (hd : d ≠ '+') (ds : List Char) :
      unsigned? bound (d :: ds) = (natural? (d :: ds)).filter (· < bound) := by
    rw [unsigned?]
    rintro more heq
    exact hd (List.cons.inj heq).1
  cases cs with
  | nil => rfl
  | cons c cs =>
    by_cases hsign : c = '+'
    · subst hsign
      exact congrArg (Option.filter (· < bound)) (natural?_lowercase cs)
    · have hlower : c.toLower ≠ '+' := by
        rwa [← beq_eq_false_iff_ne, beq_toLower '+' (by decide), beq_eq_false_iff_ne]
      have hnatural := natural?_lowercase (c :: cs)
      rw [List.map_cons] at hnatural ⊢
      rw [hunsigned hlower, hunsigned hsign, hnatural]

end MissionText.Text
