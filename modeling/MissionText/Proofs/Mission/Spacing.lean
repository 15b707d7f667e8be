import MissionText.Proofs.Completion.Rest
import MissionText.Proofs.Mission.Parsing
import MissionText.Proofs.Scan.Line
/-!
# Spacing — blanks do nothing but separate tokens

A text that leaves no quote open is read the same way whatever follows the next
blank, and what follows is read as it is by itself (`tokens_append_gap`): the
scan takes a text that was put together at a blank to the tokens of the two
parts, one after the other. So a run of blanks between two tokens may be
replaced by any other, and nothing of the tokens changes but their places
(`tokens_respaced`). A line is parsed by what its tokens say
(`Mission.parse_eq_of_gists`), so the mission stays the same, or what is wrong
with it.
-/

namespace MissionText

open Text Token Scan

variable {cs front gap gap' rest : List Char} {token last : Token} {pool : PoolToken}
  {old new : Nat} {context : Context}

/-! ## Open quotes -/

/-- A token leaves no quote open exactly if it is no pool, or the quotes in its
list come in pairs. -/
theorem Token.isOpen_eq_false_iff :
    token.isOpen = false ↔
      ∀ pool, token.kind = .pool pool → pool.idList.toList.count '"' % 2 = 0 := by
  rw [isOpen]
  cases token.kind with
  | pool pool => simp [quotedAfter_eq_false_iff]
  | _ => simp

namespace Scan

/-- A token that leaves a quote open reaches to the end of its text. -/
theorem inProgress?_of_isOpen (hlast : last ∈ (ofChars front).tokens.getLast?)
    (hopen : last.isOpen = true) : inProgress? front = some last := by
  refine inProgress?_eq_some_iff.2 ⟨hlast, ?_⟩
  obtain ⟨before, piece, after, prior, later, haround⟩ :=
    (laid_ofChars front).exists_around (List.mem_of_mem_getLast? hlast)
  rw [haround.read, haround.isPiece.isOpen_ofPiece] at hopen
  obtain rfl : after = [] := haround.closed.resolve_right (by simp [hopen])
  rw [haround.span_stop, haround.text]
  simp

/-- No token of a text stands in the stretch between two offsets. -/
def FreeBetween (cs : List Char) (start stop : Nat) : Prop :=
  ∀ token ∈ (ofChars cs).tokens, token.span.stop ≤ start ∨ stop ≤ token.span.start

instance (cs : List Char) (start stop : Nat) : Decidable (FreeBetween cs start stop) :=
  inferInstanceAs (Decidable (∀ token ∈ _, _))

/-- **Before a stretch without tokens no quote is open**, since an open quote
would have taken in the stretch. -/
theorem FreeBetween.closed
    (h : FreeBetween (front ++ (gap ++ rest)) (width front) (width (front ++ gap)))
    (hgap : gap ≠ []) : ∀ last ∈ (ofChars front).tokens.getLast?, last.isOpen = false := by
  intro last hlast
  by_contra hopen
  rw [Bool.not_eq_false] at hopen
  have htyped := inProgress?_of_isOpen hlast hopen
  obtain ⟨lead, piece, prior, haround⟩ := exists_around_inProgress htyped
  obtain ⟨whole, hwhole, hstart, -⟩ :=
    (continued_ofChars front (gap ++ rest)).typed last hlast (inProgress?_eq_some_iff.1 htyped).2
  obtain ⟨extra, after, settled, later, hsplit, hgrown⟩ :=
    exists_grown_around haround hwhole hstart
  -- the token of the whole text stops before the stretch, so it has not grown
  have hbefore := (laid_ofChars front).start_lt_stop last (List.mem_of_mem_getLast? hlast)
  have hstop := stop_of_grown haround hgrown
  have hextra : extra = [] := by
    have hlength := length_le_width extra
    have hfree := h whole hwhole
    rw [hstop, hstart] at hfree
    simp only [width_append] at hfree
    exact List.eq_nil_of_length_eq_zero (by omega)
  subst hextra
  rw [List.nil_append] at hsplit
  -- so it ends at the stretch, which is not the end of the text
  have hclosed : (ofPiece 0 (piece ++ [])).isOpen = false :=
    hgrown.closed.resolve_left (by simp [← hsplit, hgap])
  rw [haround.read, haround.isPiece.isOpen_ofPiece] at hopen
  rw [List.append_nil, hopen] at hclosed
  cases hclosed

/-! ## Texts put together at a blank -/

theorem tokens_ofChars_nil : (ofChars []).tokens = [] :=
  tokens_ofChars_eq_nil_iff.2 (List.forall_mem_nil _)

/-- **A text that was put together at a blank** has the tokens of its parts, of
which those of the second have moved. -/
theorem tokens_append_gap (rest : List Char)
    (hclosed : ∀ last ∈ (ofChars front).tokens.getLast?, last.isOpen = false) (hgap : Blank gap)
    (hne : front = [] ∨ gap ≠ []) :
    (ofChars (front ++ (gap ++ rest))).tokens =
      (ofChars front).tokens ++
        (ofChars rest).tokens.map (Token.moved 0 (width front + width gap)) := by
  have hmoved : Laid (0 + (width front + width gap) - 0) rest
      ((ofChars rest).tokens.map (Token.moved 0 (width front + width gap))) :=
    (laid_ofChars rest).moved (Nat.zero_le 0)
  have hrest : Laid (width front + width gap) rest
      ((ofChars rest).tokens.map (Token.moved 0 (width front + width gap))) := by
    simpa using hmoved
  have hlater := hrest.blank_append hgap
  have hlaid : Laid 0 (front ++ (gap ++ rest)) ((ofChars front).tokens ++
      (ofChars rest).tokens.map (Token.moved 0 (width front + width gap))) := by
    rcases hne with rfl | hne
    · rw [tokens_ofChars_nil]
      exact hlater
    · obtain ⟨c, gap, rfl⟩ := List.exists_cons_of_ne_nil hne
      refine (laid_ofChars front).append hclosed ?_ (by simpa using hlater)
      simpa using hgap c List.mem_cons_self
  rw [ofChars_eq_of_laid hlaid]

end Scan

/-- Moving twice is moving once. -/
theorem Token.moved_moved (token : Token) (n : Nat) :
    (token.moved 0 (n + old)).moved old new = token.moved 0 (n + new) := by
  have hoffset (m : Nat) : m + (n + old) - 0 + new - old = m + (n + new) - 0 := by omega
  obtain ⟨⟨start, length⟩, kind⟩ := token
  cases kind <;> simp only [moved, hoffset]

/-- What a token says does not move. -/
theorem Token.gist_moved (token : Token) : (token.moved old new).gist = token.gist := by
  obtain ⟨span, kind⟩ := token
  cases kind <;> rfl

namespace Scan

/-- **Another run of blanks moves the tokens after it**, and changes nothing
else. -/
theorem tokens_respaced (rest : List Char)
    (hclosed : ∀ last ∈ (ofChars front).tokens.getLast?, last.isOpen = false) (hgap : Blank gap)
    (hgap' : Blank gap') (hne : front = [] ∨ gap ≠ [] ∧ gap' ≠ []) :
    (ofChars (front ++ (gap' ++ rest))).tokens =
      (ofChars (front ++ (gap ++ rest))).tokens.map fun token =>
        if token.span.start < width front then token
        else token.moved (width gap) (width gap') := by
  rw [tokens_append_gap rest hclosed hgap (hne.imp_right And.left),
    tokens_append_gap rest hclosed hgap' (hne.imp_right And.right), List.map_append, List.map_map]
  congr 1
  · symm
    refine (List.map_congr_left fun token htoken => ?_).trans (List.map_id _)
    rw [if_pos (by simpa using (laid_ofChars front).start_lt_stop token htoken)]
    rfl
  · refine List.map_congr_left fun token _ => ?_
    have hstart : ¬ (token.moved 0 (width front + width gap)).span.start < width front := by
      simp only [moved]
      omega
    rw [Function.comp_apply, if_neg hstart, moved_moved]

end Scan

/-! ## Parsing -/

namespace Mission

/-- **A line is parsed by what its tokens say**, not by where they stand. -/
theorem parse_eq_of_gists {text text' : String}
    (h : (ofText text).tokens.map Token.gist = (ofText text').tokens.map Token.gist) :
    parse context text = parse context text' := by
  have hblank : Blank text.toList ↔ Blank text'.toList := by
    rw [← tokens_ofChars_eq_nil_iff, ← tokens_ofChars_eq_nil_iff, ← List.map_eq_nil_iff,
      ← ofText, h, List.map_eq_nil_iff, ofText]
  by_cases htext : Blank text.toList
  · rw [parse_of_blank htext, parse_of_blank (hblank.1 htext)]
  · have hdraft := congrArg (List.map TokenKind.atStart) h
    rw [List.map_map, List.map_map] at hdraft
    rw [parse_eq_finish htext, parse_eq_finish (hblank.not.1 htext), ← Draft.ofTokens_gist,
      ← Draft.ofTokens_gist _ (ofText text').tokens]
    exact congrArg (Draft.finish · context) (congrArg (Draft.ofTokens context) hdraft)

/-- **Blanks do nothing but separate tokens.** Two texts with a blank between
them are read one after the other, unless the first leaves a quote open; and
where no token stands in a run of blanks, or at the beginning of a line, any
other run of blanks will do as well. -/
theorem blanks_only_separate (context : Context) :
    (∀ (a b : String) (w : Char), isBlank w = true →
      (∀ last ∈ (ofText a).tokens.getLast?, ∀ pool, last.kind = .pool pool →
        pool.idList.toList.count '"' % 2 = 0) →
      (ofText (a ++ String.singleton w ++ b)).tokens =
        (ofText a).tokens ++
          (ofText b).tokens.map (Token.moved 0 (a.utf8ByteSize + w.utf8Size))) ∧
    ∀ front gap gap' rest : String, Blank gap.toList → Blank gap'.toList →
      (front = "" ∨ gap ≠ "" ∧ gap' ≠ "") →
      FreeBetween (front ++ gap ++ rest).toList front.utf8ByteSize (front ++ gap).utf8ByteSize →
      (ofText (front ++ gap' ++ rest)).tokens =
          ((ofText (front ++ gap ++ rest)).tokens.map fun token =>
            if token.span.start < front.utf8ByteSize then token
            else token.moved gap.utf8ByteSize gap'.utf8ByteSize) ∧
        parse context (front ++ gap' ++ rest) = parse context (front ++ gap ++ rest) := by
  constructor
  · intro a b w hw heven
    have hclosed : ∀ last ∈ (ofChars a.toList).tokens.getLast?, last.isOpen = false :=
      fun last hlast => isOpen_eq_false_iff.2 (heven last hlast)
    have hgap : Blank [w] := by simpa [Blank] using hw
    have htokens := tokens_append_gap b.toList hclosed hgap (.inr (by simp))
    simpa [ofText, width_toList] using htokens
  · intro front gap gap' rest hgap hgap' hne hfree
    have hclosed : ∀ last ∈ (ofChars front.toList).tokens.getLast?, last.isOpen = false := by
      rcases hne with rfl | ⟨hgap, -⟩
      · simp [tokens_ofChars_nil]
      · have hfree' : FreeBetween (front.toList ++ (gap.toList ++ rest.toList))
            (width front.toList) (width (front.toList ++ gap.toList)) := by
          simpa [FreeBetween, width_toList] using hfree
        exact hfree'.closed (by simpa using hgap)
    have htokens := tokens_respaced rest.toList hclosed hgap hgap' (by simpa using hne)
    have hlines : (ofText (front ++ gap' ++ rest)).tokens =
        (ofText (front ++ gap ++ rest)).tokens.map fun token =>
          if token.span.start < front.utf8ByteSize then token
          else token.moved gap.utf8ByteSize gap'.utf8ByteSize := by
      simpa [ofText, width_toList] using htokens
    refine ⟨hlines, parse_eq_of_gists ?_⟩
    rw [hlines, List.map_map]
    refine List.map_congr_left fun token _ => ?_
    rw [Function.comp_apply]
    split
    · rfl
    · exact token.gist_moved

/-- A setting whose value is a quote and a list in quotes, before a wide blank;
and one blank after a list in quotes that is replaced by two. -/
theorem blanks_only_separate_wide :
    (ofText ("strikes:\" \"My Mod\"" ++ String.singleton '\u3000' ++ "3*Wires")).tokens =
        (ofText "strikes:\" \"My Mod\"").tokens ++
          [⟨⟨21, 7⟩, .pool ⟨some 3, "Wires", 23⟩⟩] ∧
      (ofText ("\"Big Button\"" ++ "\t " ++ "Wires")).tokens =
        [⟨⟨0, 12⟩, .pool ⟨none, "\"Big Button\"", 0⟩⟩, ⟨⟨14, 5⟩, .pool ⟨none, "Wires", 14⟩⟩] ∧
      parse {} ("\"Big Button\"" ++ "\t " ++ "Wires") =
        parse {} ("\"Big Button\"" ++ " " ++ "Wires") := by
  have heven : ∀ last ∈ (ofText "strikes:\" \"My Mod\"").tokens.getLast?, ∀ pool,
      last.kind = .pool pool → pool.idList.toList.count '"' % 2 = 0 := by
    have hlast : (ofText "strikes:\" \"My Mod\"").tokens.getLast? =
        some ⟨⟨10, 8⟩, .pool ⟨none, "\"My Mod\"", 10⟩⟩ := by decide +kernel
    rw [hlast]
    rintro last ⟨⟩ pool ⟨⟩
    decide
  have hfree : FreeBetween ("\"Big Button\"" ++ " " ++ "Wires").toList
      "\"Big Button\"".utf8ByteSize ("\"Big Button\"" ++ " ").utf8ByteSize := by decide +kernel
  have hspace : isBlank ' ' = true := by decide
  have htab : isBlank '\t' = true := by decide
  have hgap : Blank " ".toList := by simp [Blank, hspace]
  have hgap' : Blank "\t ".toList := by simp [Blank, hspace, htab]
  obtain ⟨hjoined, hrespaced⟩ := blanks_only_separate {}
  obtain ⟨htokens, hparse⟩ := hrespaced _ _ _ _ hgap hgap' (.inr (by decide)) hfree
  refine ⟨(hjoined _ _ _ (by decide) heven).trans ?_, htokens.trans ?_, hparse⟩
  · decide +kernel
  · decide +kernel

end Mission

end MissionText
