import MissionText.Mission.Pool
import MissionText.Proofs.Text.Boundary
/-!
# Comma lists — pieces with commas between them

A comma list is put together from pieces without separators and taken apart
into the same pieces (`splitOnP_commaList`). Quotes around some of the pieces
change nothing once they are taken out (`unquoted_commaList`), and keep the
list in one run (`Balanced`). Where the pieces begin and end with ink, so does
the list, and trimming changes nothing (`trim_eq_self_iff`).
-/

namespace MissionText

namespace Text

variable {as bs cs : List Char} {pieces : List (List Char)} {c : Char} {quoted : Bool}

/-- Pieces with a comma between each two of them. -/
def commaList (pieces : List (List Char)) : List Char := [','].intercalate pieces

@[simp] theorem commaList_singleton : commaList [cs] = cs := List.intercalate_singleton

@[simp] theorem commaList_cons_cons :
    commaList (as :: bs :: pieces) = as ++ ',' :: commaList (bs :: pieces) := by
  simp [commaList, List.intercalate_cons_cons]

/-- A law of comma lists: what holds of the pieces, and of two parts with a comma
between them if it holds of the parts, holds of the list. -/
theorem commaList_induction {P : List Char → Prop} (hne : pieces ≠ [])
    (hpieces : ∀ piece ∈ pieces, P piece) (hcomma : ∀ as bs, P as → P bs → P (as ++ ',' :: bs)) :
    P (commaList pieces) := by
  induction pieces with
  | nil => exact absurd rfl hne
  | cons piece pieces ih =>
    cases pieces with
    | nil => simpa using hpieces piece List.mem_cons_self
    | cons next pieces =>
      rw [commaList_cons_cons]
      refine hcomma _ _ (hpieces piece List.mem_cons_self) (ih (by simp) fun other hother => ?_)
      exact hpieces other (List.mem_cons_of_mem _ hother)

/-- **A comma list is taken apart into its pieces.** -/
theorem splitOnP_commaList (hne : pieces ≠ [])
    (h : ∀ piece ∈ pieces, ∀ c ∈ piece, isSeparator c = false) :
    (commaList pieces).splitOnP isSeparator = pieces := by
  induction pieces with
  | nil => exact absurd rfl hne
  | cons piece pieces ih =>
    have hpiece := h piece List.mem_cons_self
    cases pieces with
    | nil => rw [commaList_singleton, List.splitOnP_eq_singleton hpiece]
    | cons next pieces =>
      rw [commaList_cons_cons, List.splitOnP_append_cons_of_forall_mem hpiece _ rfl,
        ih (by simp) fun other hother => h other (List.mem_cons_of_mem _ hother)]

theorem unquoted_append : unquoted (as ++ bs) = unquoted as ++ unquoted bs :=
  List.filter_append ..

/-- **Quotes are taken out of a comma list piece by piece.** -/
theorem unquoted_commaList (pieces : List (List Char)) :
    unquoted (commaList pieces) = commaList (pieces.map unquoted) := by
  induction pieces with
  | nil => rfl
  | cons piece pieces ih =>
    cases pieces with
    | nil => simp
    | cons next pieces =>
      rw [commaList_cons_cons, unquoted_append]
      simp only [List.map_cons, commaList_cons_cons] at ih ⊢
      rw [← ih]
      rfl

theorem unquoted_of_plain (h : ∀ c ∈ cs, isQuote c = false) : unquoted cs = cs :=
  List.filter_eq_self.2 fun c hc => by simp [h c hc]

/-! ## Trimmed text -/

/-- **Neither end of the text is blank.** -/
structure Trimmed (cs : List Char) : Prop where
  head : ∀ c ∈ cs.head?, isBlank c = false
  last : ∀ c ∈ cs.getLast?, isBlank c = false

theorem dropWhile_isBlank_eq_self_iff :
    cs.dropWhile isBlank = cs ↔ ∀ c ∈ cs.head?, isBlank c = false := by
  constructor
  · intro h c hc
    have hhead := List.head?_dropWhile_not isBlank cs
    rw [h, Option.mem_def.1 hc] at hhead
    exact hhead
  · intro h
    cases cs with
    | nil => rfl
    | cons c cs => rw [List.dropWhile_cons, if_neg (by simp [h c rfl])]

/-- **Trimming changes nothing exactly if neither end is blank.** -/
theorem trim_eq_self_iff : trim cs = cs ↔ Trimmed cs := by
  constructor
  · intro h
    have hlen := congrArg List.length h
    simp only [trim, List.length_reverse] at hlen
    have hle := length_dropWhile_le isBlank (cs.dropWhile isBlank).reverse
    rw [List.length_reverse] at hle
    have hhead : cs.dropWhile isBlank = cs := by
      have hsuffix := List.dropWhile_suffix isBlank (l := cs)
      exact hsuffix.eq_of_length_le (by omega)
    have hlast : cs.reverse.dropWhile isBlank = cs.reverse := by
      rw [trim, hhead] at h
      rw [← List.reverse_reverse (cs.reverse.dropWhile isBlank), h]
    rw [dropWhile_isBlank_eq_self_iff] at hhead hlast
    exact ⟨hhead, by simpa using hlast⟩
  · rintro ⟨hhead, hlast⟩
    rw [trim, dropWhile_isBlank_eq_self_iff.2 hhead, dropWhile_isBlank_eq_self_iff.2 (by simpa),
      List.reverse_reverse]

/-- Two parts with ends of ink have ends of ink together. -/
theorem Trimmed.append_comma (has : Trimmed as) (hbs : Trimmed bs) :
    Trimmed (as ++ ',' :: bs) := by
  have hcomma : isBlank ',' = false := by decide
  constructor
  · cases as with
    | nil => simpa using hcomma
    | cons a as => simpa using has.head a rfl
  · rw [List.getLast?_append]
    rcases List.eq_nil_or_concat bs with rfl | ⟨bs, b, rfl⟩
    · simpa using hcomma
    · simpa [List.getLast?_cons] using hbs.last b (by simp)

/-! ## Balanced text -/

/-- **No blank stands outside quotes, and no quote is left open.** -/
structure Balanced (cs : List Char) : Prop where
  unbroken : Unbroken false cs
  closed : quotedAfter false cs = false

theorem Balanced.append (has : Balanced as) (hbs : Balanced bs) : Balanced (as ++ bs) := by
  refine ⟨unbroken_append.2 ⟨has.unbroken, ?_⟩, ?_⟩
  · rw [has.closed]
    exact hbs.unbroken
  · rw [quotedAfter_append, has.closed, hbs.closed]

theorem quotedAfter_of_plain (h : ∀ c ∈ cs, isQuote c = false) :
    quotedAfter quoted cs = quoted := by
  induction cs generalizing quoted with
  | nil => rfl
  | cons c cs ih =>
    rw [quotedAfter_cons, h c List.mem_cons_self, ih fun d hd => h d (List.mem_cons_of_mem _ hd)]
    simp

/-- Between quotes everything but a quote is taken in. -/
theorem unbroken_of_plain (h : ∀ c ∈ cs, isQuote c = false) : Unbroken true cs := by
  induction cs with
  | nil => rfl
  | cons c cs ih =>
    refine unbroken_cons.2 ⟨fun _ => rfl, ?_⟩
    rw [h c List.mem_cons_self]
    exact ih fun d hd => h d (List.mem_cons_of_mem _ hd)

theorem balanced_of_ink (hink : ∀ c ∈ cs, isBlank c = false)
    (hplain : ∀ c ∈ cs, isQuote c = false) : Balanced cs :=
  ⟨unbroken_of_ink hink, quotedAfter_of_plain hplain⟩

/-- **Quotes around a text balance it.** -/
theorem balanced_quote (h : ∀ c ∈ cs, isQuote c = false) : Balanced ('"' :: (cs ++ ['"'])) := by
  have hquote : isQuote '"' = true := rfl
  have hblank : isBlank '"' = false := by decide
  constructor
  · refine unbroken_cons.2 ⟨by simp [hblank], ?_⟩
    rw [hquote]
    refine unbroken_append.2 ⟨unbroken_of_plain h, unbroken_of_ink ?_⟩
    simpa using hblank
  · rw [quotedAfter_cons, hquote, quotedAfter_append, quotedAfter_of_plain h]
    rfl

theorem balanced_comma (has : Balanced as) (hbs : Balanced bs) : Balanced (as ++ ',' :: bs) := by
  have hcomma : Balanced [','] :=
    balanced_of_ink (List.forall_mem_singleton.2 (by decide))
      (List.forall_mem_singleton.2 (by decide))
  exact has.append (hcomma.append hbs)

end Text

end MissionText
