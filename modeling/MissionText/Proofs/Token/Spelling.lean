import MissionText.Proofs.Pool.Identifiers
import MissionText.Proofs.Text.Casing
import MissionText.Proofs.Token.Grammar
/-!
# Spellings — characters that are not told apart

In a time, a strike limit or a setting the case of a letter means nothing, in a
list one separator is as good as the other, and so is one sign after a count.
Each of these is a function on characters under which reading changes nothing but
the spelling: a token is read from the lowercase form of its text as from the
text itself (`TokenKind.ofRun?_lowercase`), and the count and the list of a pool
are read from its text with one kind of mark throughout as from the text itself
(`PoolToken.readCount_spelled`). So two texts with the same form are read alike.
-/

namespace MissionText

open Text

/-! ## Tokens in any case -/

theorem TimeToken.ofRun?_lowercase (run : List Char) :
    ofRun? (run.map Char.toLower) = ofRun? run := by
  have hcolon : (run.map Char.toLower).splitOnP (· == ':') = _ :=
    splitOnP_map_of (beq_toLower ':' (by decide)) run
  rw [ofRun?, ofRun?, List.splitOn, List.splitOn, hcolon, List.map_map,
    show field? ∘ List.map Char.toLower = field? from funext field?_lowercase]

theorem strikesOfRun?_lowercase (run : List Char) :
    strikesOfRun? (run.map Char.toLower) = strikesOfRun? run := by
  have hmark (c : Char) : (c.toLower = 'x' ∨ c.toLower = 'X') ↔ (c = 'x' ∨ c = 'X') := by
    have hsmall : 'x'.toNat = 120 := rfl
    have hcapital : 'X'.toNat = 88 := rfl
    simp only [← Char.toNat_inj, hsmall, hcapital]
    rcases toLower_cases c with hsame | ⟨hge, hle, hlower⟩
    · rw [hsame]
    · omega
  rw [strikesOfRun?, strikesOfRun?, dropWhile_map_of isDigit_toLower,
    takeWhile_map_of isDigit_toLower]
  rcases run.dropWhile Char.isDigit with - | ⟨mark, - | ⟨c, cs⟩⟩
  · rfl
  · simp only [List.map_cons, List.map_nil, hmark, field?_lowercase]
  · rfl

theorem SettingName.ofKeyword?_lowercase (raw : List Char) :
    ofKeyword? (String.ofList (raw.map Char.toLower)) = ofKeyword? (String.ofList raw) := by
  simp only [ofKeyword?, sameKeyword, String.toList_ofList, map_toLower_map]

/-- A setting as it would be in lowercase. -/
def SettingToken.lowercase (setting : SettingToken) : SettingToken where
  name := setting.name
  rawName := String.ofList (setting.rawName.toList.map Char.toLower)
  rawValue := setting.rawValue.map fun value => String.ofList (value.toList.map Char.toLower)

/-- What a token says, as it would be in lowercase. Only settings show how they
were spelled. -/
def TokenKind.lowercase : TokenKind → TokenKind
  | .setting named => .setting named.lowercase
  | kind => kind

theorem SettingToken.ofRun?_lowercase (run : List Char) :
    ofRun? (run.map Char.toLower) = (ofRun? run).map SettingToken.lowercase := by
  have hcolon (c : Char) : decide (c.toLower ≠ ':') = decide (c ≠ ':') := by
    simpa only [beq_eq_decide, decide_not] using congrArg not (beq_toLower ':' (by decide) c)
  rw [ofRun?, ofRun?, takeWhile_map_of hcolon, dropWhile_map_of hcolon,
    SettingName.ofKeyword?_lowercase, Option.map_map]
  congr 1
  funext name
  cases run.dropWhile (· ≠ ':') <;> simp [lowercase]

/-- **The lowercase form of a run is read as the run is**, in lowercase. -/
theorem TokenKind.ofRun?_lowercase (run : List Char) :
    ofRun? (run.map Char.toLower) = (ofRun? run).map TokenKind.lowercase := by
  rw [ofRun?, ofRun?, TimeToken.ofRun?_lowercase, strikesOfRun?_lowercase,
    SettingToken.ofRun?_lowercase]
  cases TimeToken.ofRun? run with
  | some time => simp [lowercase]
  | none =>
    cases strikesOfRun? run with
    | some count => simp [lowercase]
    | none => cases SettingToken.ofRun? run <;> simp [lowercase]

/-! ## One kind of mark -/

namespace Text

variable {c : Char}

/-- The comma for either separator, and any other character for itself. -/
def comma (c : Char) : Char := if c = '+' then ',' else c

/-- The comma for either separator, the semicolon for either sign after a count, and
any other character for itself. -/
def spelled (c : Char) : Char := if c = '*' then ';' else comma c

/-- What does not tell the separators apart. -/
theorem apply_comma {α : Type} {p : Char → α} (hsep : p ',' = p '+') (c : Char) :
    p (comma c) = p c := by
  rw [comma]
  split
  · rename_i hc
    rw [hsep, hc]
  · rfl

/-- What tells neither the separators nor the signs after a count apart. -/
theorem apply_spelled {α : Type} {p : Char → α} (hsep : p ',' = p '+') (hsign : p ';' = p '*')
    (c : Char) : p (spelled c) = p c := by
  rw [spelled]
  split
  · rename_i hc
    rw [hsign, hc]
  · exact apply_comma hsep c

theorem isSeparator_comma (c : Char) : isSeparator (comma c) = isSeparator c :=
  apply_comma rfl c

theorem isQuote_comma (c : Char) : isQuote (comma c) = isQuote c := apply_comma rfl c

theorem isBlank_comma (c : Char) : isBlank (comma c) = isBlank c := apply_comma (by decide) c

theorem comma_of_not_isSeparator (h : isSeparator c = false) : comma c = c := by
  refine if_neg ?_
  rintro rfl
  cases h

theorem comma_of_isSeparator (h : isSeparator c = true) : comma c = ',' := by
  rcases isSeparator_iff.1 h with rfl | rfl <;> rfl

theorem spelled_of_isSeparator (h : isSeparator c = true) : spelled c = ',' := by
  rcases isSeparator_iff.1 h with rfl | rfl <;> rfl

theorem spelled_of_sign (h : c = ';' ∨ c = '*') : spelled c = ';' := by
  rcases h with rfl | rfl <;> rfl

theorem isQuote_spelled (c : Char) : isQuote (spelled c) = isQuote c := apply_spelled rfl rfl c

theorem isBlank_spelled (c : Char) : isBlank (spelled c) = isBlank c :=
  apply_spelled (by decide) (by decide) c

theorem isInk_spelled (c : Char) : isInk (spelled c) = isInk c :=
  apply_spelled (by decide) (by decide) c

theorem isDigit_spelled (c : Char) : (spelled c).isDigit = c.isDigit := apply_spelled rfl rfl c

theorem utf8Size_spelled (c : Char) : (spelled c).utf8Size = c.utf8Size := apply_spelled rfl rfl c

theorem isMark_spelled (c : Char) : isMark (spelled c) = isMark c := apply_spelled rfl rfl c

theorem spelled_of_not_isMark (h : isMark c = false) : spelled c = c := by
  have hsign : c ≠ '*' := by
    rintro rfl
    cases h
  have hsep : c ≠ '+' := by
    rintro rfl
    cases h
  rw [spelled, if_neg hsign, comma, if_neg hsep]

end Text

section Spelled

variable {cs run : List Char}

theorem SettingName.ofKeyword?_spelled_eq_none_iff (raw : List Char) :
    ofKeyword? (String.ofList (raw.map spelled)) = none ↔
      ofKeyword? (String.ofList raw) = none := by
  by_cases hmark : ∃ c ∈ raw, isMark c = true
  · obtain ⟨c, hc, hmark⟩ := hmark
    have hspelled : isMark (spelled c) = true := by rw [isMark_spelled, hmark]
    exact iff_of_true (ofKeyword?_of_isMark (List.mem_map_of_mem hc) hspelled)
      (ofKeyword?_of_isMark hc hmark)
  · rw [map_eq_self fun c hc => spelled_of_not_isMark (by simpa using fun h => hmark ⟨c, hc, h⟩)]

/-- **Whether a run is a pool** does not hang on its marks. -/
theorem TokenKind.ofRun?_spelled_eq_none_iff (run : List Char) :
    ofRun? (run.map spelled) = none ↔ ofRun? run = none := by
  by_cases hmark : ∃ c ∈ run, isMark c = true
  · obtain ⟨c, hc, hmark⟩ := hmark
    have hspelled : isMark (spelled c) = true := by rw [isMark_spelled, hmark]
    have hcolon (d : Char) : decide (spelled d ≠ ':') = decide (d ≠ ':') :=
      apply_spelled (p := fun d => decide (d ≠ ':')) rfl rfl d
    have hmem : ':' ∈ run.map spelled ↔ ':' ∈ run := by
      have hsame (d : Char) : spelled d = ':' ↔ d = ':' := by simpa using hcolon d
      simp [hsame]
    rw [ofRun?_eq_none_iff_of_isMark (List.mem_map_of_mem hc) hspelled,
      ofRun?_eq_none_iff_of_isMark hc hmark, hmem, takeWhile_map_of hcolon,
      SettingName.ofKeyword?_spelled_eq_none_iff]
  · rw [map_eq_self fun c hc => spelled_of_not_isMark (by simpa using fun h => hmark ⟨c, hc, h⟩)]

/-- **The count and the list are read as before**, the list in its other
spelling. -/
theorem PoolToken.readCount_spelled (cs : List Char) :
    readCount (cs.map spelled) =
      ((readCount cs).1, (readCount cs).2.1, (readCount cs).2.2.map spelled) := by
  have hsign (c : Char) : (spelled c = ';' ∨ spelled c = '*') ↔ (c = ';' ∨ c = '*') :=
    iff_of_eq (apply_spelled (p := fun c => c = ';' ∨ c = '*') (by decide) (by decide) c)
  have hdigits : (cs.takeWhile Char.isDigit).map spelled = cs.takeWhile Char.isDigit := by
    refine map_eq_self fun c hc => spelled_of_not_isMark ?_
    rw [Bool.eq_false_iff]
    intro hmark
    have hdigit := List.mem_takeWhile_imp hc
    rw [isDigit_of_isMark hmark] at hdigit
    cases hdigit
  rw [readCount, readCount, takeWhile_map_of isDigit_spelled, dropWhile_map_of isDigit_spelled,
    hdigits]
  cases field? (cs.takeWhile Char.isDigit) with
  | none => rfl
  | some count =>
    rcases cs.dropWhile Char.isDigit with - | ⟨sep, - | ⟨c, tail⟩⟩
    · rfl
    · rfl
    · simp only [List.map_cons, hsign, isInk_spelled]
      split <;> rfl

end Spelled

/-! ## Pieces in two spellings -/

namespace Token

variable {piece other : List Char} {kind : TokenKind}

/-- **A piece that is no pool is one in any case**, and says the same but for the
case of a setting. -/
theorem IsPiece.of_lowercase (h : IsPiece piece)
    (hrun : TokenKind.ofRun? (piece.takeWhile isInk) = some kind)
    (hsame : piece.map Char.toLower = other.map Char.toLower) :
    IsPiece other ∧ ∃ said, TokenKind.ofRun? (other.takeWhile isInk) = some said ∧
      said.lowercase = kind.lowercase := by
  have hink (c : Char) : isInk c.toLower = isInk c := by rw [isInk, isInk, isBlank_toLower]
  have hall : other.all isInk = true := by
    rw [← all_map_of hink, ← hsame, all_map_of hink, List.all_eq_true]
    simpa using h.dropWhile_isInk hrun
  have hne : other ≠ [] := by
    rintro rfl
    exact h.ne_nil (by simpa using hsame)
  refine ⟨isPiece_of_ink hne (by simpa using hall), ?_⟩
  have hread : (TokenKind.ofRun? (other.takeWhile isInk)).map TokenKind.lowercase =
      some kind.lowercase := by
    rw [← TokenKind.ofRun?_lowercase, ← takeWhile_map_of hink, ← hsame, takeWhile_map_of hink,
      TokenKind.ofRun?_lowercase, hrun]
    rfl
  simpa using hread

/-- **A piece that is a pool is one with other marks.** -/
theorem IsPiece.of_spelled (h : IsPiece piece)
    (hrun : TokenKind.ofRun? (piece.takeWhile isInk) = none)
    (hsame : piece.map spelled = other.map spelled) :
    IsPiece other ∧ TokenKind.ofRun? (other.takeWhile isInk) = none := by
  have hother : TokenKind.ofRun? (other.takeWhile isInk) = none := by
    rwa [← TokenKind.ofRun?_spelled_eq_none_iff, ← takeWhile_map_of isInk_spelled, ← hsame,
      takeWhile_map_of isInk_spelled, TokenKind.ofRun?_spelled_eq_none_iff]
  obtain ⟨⟨c, hc, hink⟩, hunbroken⟩ := (isPiece_iff_of_pool hrun).1 h
  refine ⟨(isPiece_iff_of_pool hother).2 ⟨?_, ?_⟩, hother⟩
  · have hhead := congrArg List.head? hsame
    rw [List.head?_map, List.head?_map, Option.mem_def.1 hc] at hhead
    obtain ⟨d, hd, hspelled⟩ := Option.map_eq_some_iff.1 hhead.symm
    exact ⟨d, hd, by rw [← isBlank_spelled, hspelled, isBlank_spelled, hink]⟩
  · rwa [← unbroken_map_iff isQuote_spelled isBlank_spelled, ← hsame,
      unbroken_map_iff isQuote_spelled isBlank_spelled]

end Token

end MissionText
