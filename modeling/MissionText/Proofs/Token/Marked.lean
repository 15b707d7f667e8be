import MissionText.Proofs.Token.Piece
import MissionText.Proofs.Text.CommaList
/-!
# Marked texts — what the beginning of a pool settles

A separator, a quote or the sign after a count stands in no time, no strike
limit and no keyword. So once there is one in the text of a token, only a
keyword and a colon before it can still make the token anything but a pool,
and what is typed after it does not change that (`ofRun?_eq_none_of_append`).
Nor does what is typed after a separator change the count
(`exists_readCount_separator`).
-/

namespace MissionText

open Text

variable {cs as bs head run : List Char} {c sep : Char}

/-- Whether a character stands in pools, and in the values of settings, but in
no time, no strike limit and no keyword. -/
def isMark (c : Char) : Bool := isSeparator c || isQuote c || c == ';' || c == '*'

theorem isMark_iff : isMark c = true ↔ c = ',' ∨ c = '+' ∨ c = '"' ∨ c = ';' ∨ c = '*' := by
  simp [isMark, isSeparator, isQuote, or_assoc]

theorem isMark_of_isSeparator (h : isSeparator c = true) : isMark c = true := by
  simp [isMark, h]

theorem isDigit_of_isMark (h : isMark c = true) : c.isDigit = false := by
  rcases isMark_iff.1 h with rfl | rfl | rfl | rfl | rfl <;> rfl

theorem isBlank_of_isMark (h : isMark c = true) : isBlank c = false := by
  rcases isMark_iff.1 h with rfl | rfl | rfl | rfl | rfl <;> decide

theorem ne_colon_of_isMark (h : isMark c = true) : c ≠ ':' := by
  rcases isMark_iff.1 h with rfl | rfl | rfl | rfl | rfl <;> decide

/-! ## What holds no mark -/

/-- What stands in a text stands in one of its parts, or separates them. -/
theorem exists_mem_splitOn (hmem : c ∈ cs) (hne : c ≠ sep) :
    ∃ piece ∈ cs.splitOn sep, c ∈ piece := by
  have hjoin : [sep].intercalate (cs.splitOn sep) = cs := List.intercalate_splitOn sep
  rw [← hjoin] at hmem
  clear hjoin
  generalize cs.splitOn sep = pieces at *
  induction pieces with
  | nil => simp at hmem
  | cons piece pieces ih =>
    cases pieces with
    | nil => exact ⟨piece, by simp, by simpa using hmem⟩
    | cons next pieces =>
      rw [List.intercalate_cons_cons] at hmem
      simp only [List.mem_append, List.mem_singleton] at hmem
      rcases hmem with (hmem | hmem) | hmem
      · exact ⟨piece, by simp, hmem⟩
      · exact absurd hmem hne
      · obtain ⟨found, hfound, hc⟩ := ih hmem
        exact ⟨found, List.mem_cons_of_mem _ hfound, hc⟩

/-- No time holds a mark. -/
theorem TimeToken.ofRun?_of_isMark (hmem : c ∈ run) (hmark : isMark c = true) :
    ofRun? run = none := by
  obtain ⟨piece, hpiece, hc⟩ := exists_mem_splitOn hmem (ne_colon_of_isMark hmark)
  have hfield : field? piece = none := by
    rw [Option.eq_none_iff_forall_ne_some]
    intro n hn
    have hdigit := (field?_eq_some_iff.1 hn).1.2.2 c hc
    rw [isDigit_of_isMark hmark] at hdigit
    cases hdigit
  have hnone : none ∈ (run.splitOn ':').map field? := List.mem_map.2 ⟨piece, hpiece, hfield⟩
  rw [ofRun?]
  split <;> simp_all

/-- No strike limit holds a mark. -/
theorem strikesOfRun?_of_isMark (hmem : c ∈ run) (hmark : isMark c = true) :
    strikesOfRun? run = none := by
  have hdrop : c ∈ run.dropWhile Char.isDigit := by
    rw [← List.takeWhile_append_dropWhile (p := Char.isDigit) (l := run), List.mem_append] at hmem
    refine hmem.resolve_left fun htake => ?_
    have hdigit := List.mem_takeWhile_imp htake
    rw [isDigit_of_isMark hmark] at hdigit
    cases hdigit
  rw [strikesOfRun?]
  split
  · rename_i mark heq
    rw [heq, List.mem_singleton] at hdrop
    subst hdrop
    rw [if_neg]
    rcases isMark_iff.1 hmark with rfl | rfl | rfl | rfl | rfl <;> decide
  · rfl

/-- A text is no keyword if it holds a character that none of them does. -/
theorem SettingName.ofKeyword?_of_mem {p : Char → Bool} (hmem : c ∈ cs) (hc : p c = true)
    (hlower : c.toLower = c)
    (hplain : ∀ name : SettingName, ∀ d ∈ name.keyword.toList.map Char.toLower, p d = false) :
    ofKeyword? (String.ofList cs) = none := by
  rw [ofKeyword?, List.find?_eq_none]
  intro name _ hsame
  rw [String.toList_ofList, sameKeyword, beq_iff_eq] at hsame
  have hkeyword : c ∈ name.keyword.toList.map Char.toLower := by
    rw [hsame]
    exact List.mem_map.2 ⟨c, hmem, hlower⟩
  rw [hplain name c hkeyword] at hc
  cases hc

/-- No keyword holds a mark. -/
theorem SettingName.ofKeyword?_of_isMark (hmem : c ∈ cs) (hmark : isMark c = true) :
    ofKeyword? (String.ofList cs) = none := by
  have hlower : c.toLower = c := by
    rcases isMark_iff.1 hmark with rfl | rfl | rfl | rfl | rfl <;> rfl
  refine ofKeyword?_of_mem hmem hmark hlower fun name => ?_
  cases name <;> exact not_of_all (by decide)

/-! ## What a mark settles -/

/-- **A run with a mark is a setting or a pool**, and the text up to the mark
tells which. -/
theorem TokenKind.ofRun?_append_eq_none_iff (hmem : c ∈ head) (hmark : isMark c = true) :
    ofRun? (head ++ cs) = none ↔
      (':' ∈ head → SettingName.ofKeyword? (String.ofList (head.takeWhile (· ≠ ':'))) = none) := by
  have hmem' : c ∈ head ++ cs := List.mem_append_left _ hmem
  rw [ofRun?, TimeToken.ofRun?_of_isMark hmem' hmark, strikesOfRun?_of_isMark hmem' hmark]
  simp only [Option.map_none, Option.none_or, Option.map_eq_none_iff, SettingToken.ofRun?]
  by_cases hcolon : ':' ∈ head
  · have htake : (head ++ cs).takeWhile (· ≠ ':') = head.takeWhile (· ≠ ':') := by
      rw [List.takeWhile_append, if_neg]
      intro hlen
      have heq := (List.takeWhile_prefix (p := (· ≠ ':')) (l := head)).eq_of_length hlen
      have hall := List.takeWhile_eq_self_iff.1 heq ':' hcolon
      simp at hall
    rw [htake]
    exact ⟨fun h _ => h, fun h => h hcolon⟩
  · have hall : ∀ d ∈ head, decide (d ≠ ':') = true := by
      intro d hd
      simp only [ne_eq, decide_eq_true_eq]
      rintro rfl
      exact hcolon hd
    rw [List.takeWhile_append_of_pos hall, SettingName.ofKeyword?_of_isMark
      (List.mem_append_left _ hmem) hmark]
    exact ⟨fun _ h => absurd h hcolon, fun _ => rfl⟩

theorem TokenKind.ofRun?_eq_none_iff_of_isMark (hmem : c ∈ run) (hmark : isMark c = true) :
    ofRun? run = none ↔
      (':' ∈ run → SettingName.ofKeyword? (String.ofList (run.takeWhile (· ≠ ':'))) = none) := by
  have hrun : ofRun? (run ++ []) = none ↔ _ := ofRun?_append_eq_none_iff hmem hmark
  rwa [List.append_nil] at hrun

/-- **A mark settles that a token is a pool**, whatever follows. -/
theorem TokenKind.ofRun?_eq_none_of_append (hmem : c ∈ head) (hmark : isMark c = true)
    (h : ofRun? ((head ++ as).takeWhile isInk) = none) :
    ofRun? ((head ++ bs).takeWhile isInk) = none := by
  by_cases hink : ∀ d ∈ head, isInk d = true
  · rw [List.takeWhile_append_of_pos hink] at h ⊢
    rw [ofRun?_append_eq_none_iff hmem hmark] at h ⊢
    exact h
  · -- the run ends before the mark, or at least within the head
    have htake (tail : List Char) : (head ++ tail).takeWhile isInk = head.takeWhile isInk := by
      rw [List.takeWhile_append, if_neg]
      intro hlen
      have heq := (List.takeWhile_prefix (p := isInk) (l := head)).eq_of_length hlen
      exact hink (List.takeWhile_eq_self_iff.1 heq)
    rw [htake] at h ⊢
    exact h

/-- A text that begins with a quote is a pool. -/
theorem TokenKind.ofRun?_quote : ofRun? (('"' :: cs).takeWhile isInk) = none := by
  have hquote : ofRun? ((['"'] ++ []).takeWhile isInk) = none := by decide
  have hrun : ofRun? ((['"'] ++ cs).takeWhile isInk) = none :=
    ofRun?_eq_none_of_append List.mem_cons_self (by decide) hquote
  exact hrun

/-! ## Counts -/

namespace PoolToken

/-- **A separator settles the count**, whatever follows. -/
theorem exists_readCount_separator (hsep : isSeparator c = true) (as : List Char) :
    ∃ count skipped list, ∀ cs,
      readCount (as ++ c :: cs) = (count, skipped, list ++ c :: cs) := by
  have hmark := isMark_of_isSeparator hsep
  by_cases hcounted : ∃ ds sign more count, as = ds ++ sign :: more ∧ field? ds = some count ∧
      (sign = ';' ∨ sign = '*') ∧ ∀ d ∈ (more ++ [c]).head?, isBlank d = false
  · obtain ⟨ds, sign, more, count, rfl, hfield, hsign, hink⟩ := hcounted
    refine ⟨some count, width ds + 1, more, fun cs => ?_⟩
    have hcounted (d : Char) (rest : List Char) (hd : isBlank d = false) :
        readCount (ds ++ sign :: d :: rest) = (some count, width ds + 1, d :: rest) :=
      readCount_counted hfield hsign hd
    cases more with
    | nil => simpa using hcounted c cs (isBlank_of_isMark hmark)
    | cons d more => simpa using hcounted d (more ++ c :: cs) (hink d rfl)
  · refine ⟨none, 0, as, fun cs => ?_⟩
    refine (readCount_eq_none_or (as ++ c :: cs)).resolve_right fun hcount => ?_
    obtain ⟨ds, sign, d, tail, count, hsplit, hfield, hsign, hink⟩ := hcount
    have hne : c ≠ sign := by
      rintro rfl
      rcases hsign with rfl | rfl <;> cases hsep
    have hdigit : c ∉ ds := by
      intro hmem
      have := (field?_eq_some_iff.1 hfield).1.2.2 c hmem
      rw [isDigit_of_isMark hmark] at this
      cases this
    -- the sign stands before the separator, and so does what is counted
    rcases List.append_eq_append_iff.1 hsplit with ⟨more, rfl, hmore⟩ | ⟨more, rfl, hmore⟩
    · cases more with
      | nil => exact hne (List.cons.inj hmore).1
      | cons e more =>
        obtain ⟨rfl, -⟩ := List.cons.inj hmore
        simp at hdigit
    · cases more with
      | nil => exact hne (List.cons.inj hmore).1.symm
      | cons e more =>
        obtain ⟨rfl, hrest⟩ := List.cons.inj hmore
        refine hcounted ⟨ds, sign, more, count, rfl, hfield, hsign, ?_⟩
        cases more with
        | nil =>
          obtain ⟨rfl, -⟩ := List.cons.inj hrest
          simpa using hink
        | cons f more =>
          obtain ⟨rfl, -⟩ := List.cons.inj hrest
          simpa using hink

/-- **The count is balanced text** with a mark in it, if there is one. -/
theorem exists_balanced_count (cs : List Char) :
    ∃ head, Balanced head ∧ cs = head ++ (readCount cs).2.2 ∧ width head = (readCount cs).2.1 ∧
      (head = [] ∨ ∃ c ∈ head, isMark c = true) := by
  rcases readCount_eq_none_or cs with hnone | ⟨ds, sep, c, tail, count, rfl, hfield, hsep, hink⟩
  · exact ⟨[], ⟨rfl, rfl⟩, by rw [hnone]; rfl, by rw [hnone]; rfl, .inl rfl⟩
  · have hdigits := (field?_eq_some_iff.1 hfield).1.2.2
    have hmark : isMark sep = true := by
      rcases hsep with rfl | rfl <;> rfl
    have hone : sep.utf8Size = 1 := by
      rcases hsep with rfl | rfl <;> rfl
    have hquote : isQuote sep = false := by
      rcases hsep with rfl | rfl <;> rfl
    have hinks : ∀ d ∈ ds ++ [sep], isBlank d = false :=
      List.forall_mem_append.2 ⟨fun d hd => isBlank_of_isDigit (hdigits d hd),
        List.forall_mem_singleton.2 (isBlank_of_isMark hmark)⟩
    have hplain : ∀ d ∈ ds ++ [sep], isQuote d = false := by
      refine List.forall_mem_append.2 ⟨fun d hd => ?_, List.forall_mem_singleton.2 hquote⟩
      have hdigit := hdigits d hd
      rw [isQuote, beq_eq_false_iff_ne]
      rintro rfl
      cases hdigit
    rw [readCount_counted hfield hsep hink]
    exact ⟨ds ++ [sep], balanced_of_ink hinks hplain, by simp, by simp [hone],
      .inr ⟨sep, by simp, hmark⟩⟩

/-- A pool takes in the quoted run of its text, the count included. -/
theorem read_snd (start : Nat) (cs : List Char) : (read start cs).2 = (quotedRun false cs).2 := by
  obtain ⟨head, hhead, hcs, -, -⟩ := exists_balanced_count cs
  have hrun : quotedRun false (head ++ (readCount cs).2.2) = _ :=
    quotedRun_append_of_unbroken hhead.unbroken
  rw [← hcs, hhead.closed] at hrun
  rw [read_eq, hrun]

end PoolToken

namespace Token

variable {piece : List Char}

/-- **A pool is a piece if it begins with ink and none of its blanks stands
outside quotes.** -/
theorem isPiece_iff_of_pool (hrun : TokenKind.ofRun? (piece.takeWhile isInk) = none) :
    IsPiece piece ↔ (∃ c ∈ piece.head?, isBlank c = false) ∧ Unbroken false piece := by
  have hread : (read 0 piece).2 = (quotedRun false piece).2 := by
    rw [read_of_ofRun?_eq_none hrun, PoolToken.read_snd]
  exact ⟨fun h => ⟨h.head, hread.symm.trans h.whole⟩, fun h => ⟨h.1, hread.trans h.2⟩⟩

/-- **Characters without blanks are one piece.** -/
theorem isPiece_of_ink (hne : piece ≠ []) (hink : ∀ c ∈ piece, isBlank c = false) :
    IsPiece piece := by
  obtain ⟨c, tail, rfl⟩ := List.exists_cons_of_ne_nil hne
  have hhead : ∃ d ∈ (c :: tail).head?, isBlank d = false := ⟨c, rfl, hink c List.mem_cons_self⟩
  have hrest : (c :: tail).dropWhile isInk = [] :=
    List.dropWhile_eq_nil_iff.2 fun d hd => by simp [hink d hd]
  cases hrun : TokenKind.ofRun? ((c :: tail).takeWhile isInk) with
  | none => exact (isPiece_iff_of_pool hrun).2 ⟨hhead, unbroken_of_ink hink⟩
  | some kind => exact ⟨hhead, by rw [read_of_ofRun?_eq_some hrun, hrest]⟩

/-- **A pool is open if its text is**, the count included. -/
theorem IsPiece.isOpen_ofPiece_pool (h : IsPiece piece)
    (hrun : TokenKind.ofRun? (piece.takeWhile isInk) = none) (start : Nat) :
    (ofPiece start piece).isOpen = quotedAfter false piece := by
  obtain ⟨head, hhead, hpiece, -, -⟩ := PoolToken.exists_balanced_count piece
  have hquoted := congrArg (quotedAfter false) hpiece
  rw [quotedAfter_append, hhead.closed] at hquoted
  rw [isOpen, h.ofPiece_pool hrun, hquoted]
  simp

end Token

end MissionText
