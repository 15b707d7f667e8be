import Mathlib.Algebra.Order.Ring.Nat
import MissionText.Mission.Draft
import MissionText.Proofs.Text.Boundary
/-!
# Numerals — numbers that are written and read back

A number is written in decimal digits and read back as itself, by a field if
it is small enough for one and by a setting if it is below the bound of the
settings. What a field is read as is never larger than a field can hold.
-/

namespace MissionText.Text

variable {n : Nat} {ds : List Char}

/-- The digits of a number, as they are written. -/
theorem toList_toString (n : Nat) : (toString n).toList = Nat.toDigits 10 n := by
  rw [Nat.toString_eq_ofList_toDigits, String.toList_ofList]

theorem isDigit_of_mem_toString {c : Char} (hc : c ∈ (toString n).toList) : c.isDigit = true := by
  rw [toList_toString] at hc
  exact Nat.isDigit_of_mem_toDigits (by decide) (by decide) hc

theorem toList_toString_ne_nil (n : Nat) : (toString n).toList ≠ [] := by
  rw [toList_toString]
  exact Nat.toDigits_ne_nil

/-- The value of some digits is below the power of ten with as many zeros. -/
theorem digitsValue_lt (hds : ∀ c ∈ ds, c.isDigit = true) : digitsValue ds < 10 ^ ds.length := by
  induction ds with
  | nil => simp [digitsValue]
  | cons c ds ih =>
    have htail : digitsValue ds < 10 ^ ds.length := ih fun d hd => hds d (List.mem_cons_of_mem _ hd)
    have hc : c.toNat - 48 ≤ 9 := by
      have hdigit := hds c List.mem_cons_self
      simp only [Char.isDigit, ge_iff_le, Bool.and_eq_true, decide_eq_true_eq] at hdigit
      have : c.toNat ≤ 57 := hdigit.2
      omega
    have hvalue : digitsValue (c :: ds) = 10 ^ ds.length * (c.toNat - 48) + digitsValue ds := by
      rw [digitsValue, Nat.ofDigitChars_cons, Nat.ofDigitChars_eq_ofDigitChars_zero, digitsValue]
      simp
    have := Nat.mul_le_mul_left (10 ^ ds.length) hc
    rw [hvalue, List.length_cons, Nat.pow_succ]
    omega

/-- **A field holds no more than nine digits can say.** -/
theorem field?_le (h : field? ds = some n) : n ≤ fieldMax := by
  obtain ⟨⟨-, hlen, hdigits⟩, rfl⟩ := field?_eq_some_iff.1 h
  have hlt := digitsValue_lt hdigits
  have hpow : 10 ^ ds.length ≤ 10 ^ 9 := Nat.pow_le_pow_right (by decide) hlen
  rw [fieldMax]
  omega

/-- No field is read from text with anything but digits in it. -/
theorem field?_eq_none {c : Char} (hmem : c ∈ ds) (hc : c.isDigit = false) : field? ds = none := by
  rw [field?, if_neg]
  rintro ⟨-, -, hall⟩
  rw [List.all_eq_true.1 hall c hmem] at hc
  cases hc

theorem field?_toString (h : n ≤ fieldMax) : field? (toString n).toList = some n := by
  rw [toList_toString, field?_toDigits h]

/-- **A field is read back from two digits or more.** -/
theorem field?_twoDigits (h : n ≤ fieldMax) : field? (twoDigits n).toList = some n := by
  rw [twoDigits]
  split
  · rename_i hten
    have hdigit : n.digitChar.isDigit = true := by
      refine isDigit_of_mem_toString (n := n) ?_
      rw [toList_toString, Nat.toDigits_of_lt_base hten]
      exact List.mem_singleton_self _
    rw [String.toList_append, toList_toString, Nat.toDigits_of_lt_base hten, field?_eq_some_iff]
    refine ⟨⟨by simp, by simp, ?_⟩, ?_⟩
    · simp [hdigit]
    · simp [digitsValue, Nat.ofDigitChars_cons, Nat.toNat_digitChar_sub_48_of_lt_ten hten]
  · exact field?_toString h

/-- **The value of a setting is read back from its digits.** -/
theorem settingNumber?_toString (h : n < settingBound) :
    Draft.settingNumber? (toString n) = some n := by
  have hplus : ∀ cs, (toString n).toList ≠ '+' :: cs := by
    intro cs hcs
    have hmem : '+' ∈ (toString n).toList := hcs ▸ List.mem_cons_self
    cases isDigit_of_mem_toString hmem
  have hnatural : natural? (toString n).toList = some n := by
    rw [natural?, if_pos ⟨toList_toString_ne_nil n,
      List.all_eq_true.2 fun c hc => isDigit_of_mem_toString hc⟩, toList_toString, digitsValue,
      Nat.ofDigitChars_ten_toDigits]
  rw [Draft.settingNumber?, unsigned?, hnatural]
  · simp [h]
  · exact hplus

end MissionText.Text
