import Mathlib.Data.List.Lex
import Mathlib.Data.String.Basic
import MissionText.Text.Utf8
/-!
# The order of bytes

Identifiers are kept and shown in the order of their UTF-8 bytes, while strings
are compared character by character. The two orders are one (`bytes_lt_iff`). A
character is written as a leading byte and its digits to the base 64: among
those of one length the digits decide (`Rising.digit`), and the leading byte of
a longer one is greater.
-/

namespace MissionText.Text

open String (utf8EncodeChar)

variable {c d : Char} {cs ds : List Char} {a b : String} {bound : Nat} {write : Nat → List UInt8}

/-- The bytes of a string are those of its characters, one after another. -/
theorem bytes_eq (s : String) : bytes s = s.toList.flatMap utf8EncodeChar := by
  rw [bytes, String.toUTF8_eq_toByteArray, ← String.utf8Encode_toList, List.utf8Encode,
    List.data_toByteArray]

/-! ## Characters -/

/-- **Greater numbers are written in greater bytes**, whatever follows them, as
long as they are below a bound. -/
def Rising (bound : Nat) (write : Nat → List UInt8) : Prop :=
  ∀ m n, m < n → n < bound → ∀ as bs, write m ++ as < write n ++ bs

/-- A byte less than another comes before it. -/
theorem ofNat_cons_lt {m n : Nat} (h : m < n) (hn : n < 256) (as bs : List UInt8) :
    UInt8.ofNat m :: as < UInt8.ofNat n :: bs :=
  List.cons_lt_cons_iff.2 (.inl ((UInt8.ofNat_lt_iff_lt (Nat.lt_trans h hn) hn).2 h))

/-- The leading byte of some digits rises with them. -/
theorem rising_lead (lead : Nat) (h : bound + lead ≤ 256) :
    Rising bound fun n => [UInt8.ofNat (n % bound + lead)] := by
  intro m n hlt hn as bs
  simp only [Nat.mod_eq_of_lt hn, Nat.mod_eq_of_lt (Nat.lt_trans hlt hn)]
  exact ofNat_cons_lt (by omega) (by omega) as bs

/-- **One more digit** to the base 64 keeps the order: it decides where the digits
before it agree. -/
theorem Rising.digit (h : Rising bound write) :
    Rising (bound * 64) fun n => write (n / 64) ++ [UInt8.ofNat (n % 64 + 128)] := by
  intro m n hlt hn as bs
  simp only [List.append_assoc, List.singleton_append]
  rcases Nat.lt_or_ge (m / 64) (n / 64) with hdiv | hdiv
  · exact h _ _ hdiv (by omega) _ _
  · have hsame : m / 64 = n / 64 := by omega
    rw [hsame]
    exact List.append_left_lt (ofNat_cons_lt (by omega) (by omega) as bs)

/-- **Characters are in the order of their bytes**, whatever follows them. -/
theorem encode_lt_encode (h : c < d) (as bs : List UInt8) :
    utf8EncodeChar c ++ as < utf8EncodeChar d ++ bs := by
  have hlt : c.val.toNat < d.val.toNat := h
  have hd : d.val.toNat < 0x110000 := by
    have := d.valid
    simp only [UInt32.isValidChar, Nat.isValidChar] at this
    omega
  have hthird (n : Nat) : n / 4096 = n / 64 / 64 := by omega
  have hfourth (n : Nat) : n / 262144 = n / 64 / 64 / 64 := by omega
  simp only [utf8EncodeChar, hthird, hfourth]
  generalize c.val.toNat = m at *
  generalize d.val.toNat = n at *
  have htwo : Rising (32 * 64) _ := (rising_lead 192 (by decide)).digit
  have hthree : Rising (16 * 64 * 64) _ := (rising_lead 224 (by decide)).digit.digit
  have hfour : Rising (8 * 64 * 64 * 64) _ := (rising_lead 240 (by decide)).digit.digit.digit
  -- the first character is no longer than the second; if it is shorter, its first byte is less
  split
  · split
    · exact ofNat_cons_lt hlt (by omega) as bs
    · split_ifs <;> exact ofNat_cons_lt (by omega) (by omega) _ _
  · split
    · split_ifs
      · omega
      · exact htwo m n hlt (by omega) as bs
      · exact ofNat_cons_lt (by omega) (by omega) _ _
      · exact ofNat_cons_lt (by omega) (by omega) _ _
    · split
      · split_ifs
        · omega
        · omega
        · exact hthree m n hlt (by omega) as bs
        · exact ofNat_cons_lt (by omega) (by omega) _ _
      · split_ifs
        · omega
        · omega
        · omega
        · exact hfour m n hlt (by omega) as bs

/-! ## Strings -/

/-- Characters in order have their bytes in order. -/
theorem flatMap_encode_lt (h : cs < ds) :
    cs.flatMap utf8EncodeChar < ds.flatMap utf8EncodeChar := by
  induction h with
  | @nil d ds =>
    obtain ⟨byte, more, hmore⟩ := List.exists_cons_of_ne_nil (String.utf8EncodeChar_ne_nil (c := d))
    rw [List.flatMap_nil, List.flatMap_cons, hmore, List.cons_append]
    exact List.nil_lt_cons byte _
  | rel hlt =>
    rw [List.flatMap_cons, List.flatMap_cons]
    exact encode_lt_encode hlt _ _
  | cons _ ih =>
    rw [List.flatMap_cons, List.flatMap_cons]
    exact List.append_left_lt ih

/-- **The order of strings is that of their bytes.** -/
theorem bytes_lt_iff : bytes a < bytes b ↔ a < b := by
  have hbytes {a b : String} (h : a < b) : bytes a < bytes b := by
    rw [bytes_eq, bytes_eq]
    exact flatMap_encode_lt (String.lt_iff_toList_lt.1 h)
  refine ⟨fun h => ?_, hbytes⟩
  rcases lt_trichotomy a b with hlt | rfl | hlt
  · exact hlt
  · exact absurd h (List.lt_irrefl _)
  · exact absurd h (List.lt_asymm (hbytes hlt))

end MissionText.Text
