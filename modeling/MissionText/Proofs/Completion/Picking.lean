import MissionText.Proofs.Completion.Offered
import MissionText.Proofs.Completion.Typed
import MissionText.Proofs.Pool.Identifiers
/-!
# Picking — what is picked is what is read

A candidate takes the place of the last identifier of the pool in progress. If
its identifier can be written in a pool at all (`Pickable`), the text up to the
new cursor ends with the same pool, but for its last identifier, which is now
the one that was picked. Where other identifiers or a count stand before it,
they settle that the token is a pool and what its count is; where it stands
alone, it has to be a pool by itself or in its quotes (`reads_alone`).
-/

namespace MissionText

open Text Token Scan

variable {before lead head kept typed : List Char} {prior : List Token} {token : Token}
  {pool : PoolToken} {id : String} {context : Context} {candidate : Candidate}

/-- A text that does not begin with a digit has no count. -/
theorem PoolToken.readCount_of_head {c : Char} {tail : List Char} (hc : c.isDigit = false) :
    readCount (c :: tail) = (none, 0, c :: tail) := by
  have htake : (c :: tail).takeWhile Char.isDigit = [] := by simp [hc]
  rw [readCount, htake]
  rfl

/-! ## Pickable identifiers -/

/-- **An identifier that can be written in a pool**, in quotes if it holds a
blank. -/
structure Pickable (id : String) : Prop where
  ne_empty : id ≠ ""
  trimmed : trim id.toList = id.toList
  unquoted : ∀ c ∈ id.toList, isQuote c = false
  unseparated : ∀ c ∈ id.toList, isSeparator c = false
  /-- Without a blank it is a pool by itself, and not a time or a setting, nor a
  count and a list. -/
  alone : hasBlank id = false → ∃ word pool, (ofText id).tokens = [word] ∧
    word.kind = .pool pool ∧ pool.count = none

/-- A word that is the one token of its text is a piece. -/
theorem isPiece_of_tokens_eq (hblank : hasBlank id = false)
    (h : (ofText id).tokens = [token]) : IsPiece id.toList ∧ token = ofPiece 0 id.toList := by
  have hink : ∀ c ∈ id.toList, isBlank c = false := by simpa [hasBlank] using hblank
  have hlaid : Laid 0 id.toList [token] := h ▸ laid_ofChars id.toList
  generalize id.toList = cs at *
  cases hlaid with
  | @token _ gap piece rest tokens hgap hpiece hrest hopen hlaid =>
    obtain rfl : gap = [] := by
      refine List.eq_nil_iff_forall_not_mem.2 fun c hc => ?_
      have := hink c (by simp [hc])
      rw [hgap c hc] at this
      cases this
    obtain rfl : rest = [] := by
      cases rest with
      | nil => rfl
      | cons c rest =>
        have := hink c (by simp)
        rw [atBoundary_cons.1 hrest] at this
        cases this
    simp only [List.nil_append, List.append_nil]
    exact ⟨hpiece, rfl⟩

/-- **A pickable identifier that stands alone is a pool**, in its quotes or
without them. -/
theorem Pickable.reads_alone (h : Pickable id) :
    TokenKind.ofRun? ((Edit.inserted true id false).takeWhile isInk) = none ∧
      PoolToken.readCount (Edit.inserted true id false) =
        (none, 0, Edit.inserted true id false) := by
  rw [Edit.inserted_unspaced, Bool.true_and]
  split
  · exact ⟨TokenKind.ofRun?_quote, PoolToken.readCount_of_head rfl⟩
  · rename_i hblank
    rw [Bool.not_eq_true] at hblank
    obtain ⟨word, pool, htokens, hkind, hcount⟩ := h.alone hblank
    obtain ⟨hpiece, rfl⟩ := isPiece_of_tokens_eq hblank htokens
    have hrun := ofRun?_eq_none_of_kind hkind
    refine ⟨hrun, (PoolToken.readCount_eq_none_or _).resolve_right fun hcounted => ?_⟩
    obtain ⟨ds, sep, c, tail, count, hsplit, hfield, hsep, hink⟩ := hcounted
    rw [hpiece.ofPiece_pool hrun, hsplit, PoolToken.readCount_counted hfield hsep hink] at hkind
    cases hkind
    cases hcount

/-- What is inserted for a pickable identifier begins with ink. -/
theorem Pickable.head_inserted (h : Pickable id) (quotable : Bool) :
    ∃ c ∈ (Edit.inserted quotable id false).head?, isBlank c = false := by
  rw [Edit.inserted_unspaced]
  split
  · exact ⟨'"', rfl, by decide⟩
  · have hne : id.toList ≠ [] := by
      simpa using h.ne_empty
    obtain ⟨c, cs, hcs⟩ := List.exists_cons_of_ne_nil hne
    refine ⟨c, by rw [hcs]; rfl, ?_⟩
    exact (trim_eq_self_iff.1 h.trimmed).head c (by simp [hcs])

/-! ## The pool after picking -/

namespace TypedPool

variable (h : TypedPool before lead head kept typed prior token pool)

include h

/-- **The identifier takes its place in the same pool.** -/
theorem isPiece_inserted (hid : Pickable id) :
    IsPiece (head ++ (kept ++ Edit.inserted (!quotedAfter false kept) id false)) ∧
      ∀ start, (ofPiece start
        (head ++ (kept ++ Edit.inserted (!quotedAfter false kept) id false))).kind =
          .pool ⟨pool.count,
            String.ofList (kept ++ Edit.inserted (!quotedAfter false kept) id false),
            start + width head⟩ := by
  refine h.isPiece_replaced (Edit.unbroken_inserted hid.unquoted).1 (hid.head_inserted _)
    fun hnil => ?_
  obtain ⟨-, rfl⟩ := List.append_eq_nil_iff.1 hnil
  exact hid.reads_alone

/-- **The last identifier is the one that was picked**, and the others stay. -/
theorem identifiersOf_inserted (hid : Pickable id) (start : Nat) :
    identifiersOf (PoolToken.list ⟨pool.count,
        String.ofList (kept ++ Edit.inserted (!quotedAfter false kept) id false), start⟩) =
      (identifiersOf pool.list).dropLast ++ [id] := by
  have hpicked : identifiersOf id.toList = [id] := by
    rw [identifiersOf_of_plain hid.unseparated, hid.trimmed, String.ofList_toList]
  have htyped : ∀ c ∈ unquoted typed, isSeparator c = false := fun c hc =>
    h.plain c (List.mem_filter.1 hc).1
  simp only [PoolToken.list, String.toList_ofList, h.list, identifiersOf_trim, unquoted_append,
    Edit.unquoted_inserted hid.unquoted]
  rcases List.eq_nil_or_concat kept with rfl | ⟨more, sep, rfl⟩
  · have hnil : unquoted ([] : List Char) = [] := rfl
    rw [hnil, List.nil_append, List.nil_append, hpicked, identifiersOf_of_plain htyped]
    rfl
  · have hsep : isSeparator sep = true := h.separated sep (by simp)
    have hquote : isQuote sep = false := by
      rw [isQuote, beq_eq_false_iff_ne]
      rintro rfl
      cases hsep
    have hkept (tail : List Char) :
        unquoted (more.concat sep) ++ tail = unquoted more ++ sep :: tail := by
      simp [unquoted, hquote]
    rw [hkept, hkept, identifiersOf_append hsep, identifiersOf_append hsep, hpicked,
      identifiersOf_of_plain htyped, List.dropLast_concat]

end TypedPool

/-- What is offered for a pool can be picked. -/
theorem selectable_of_inProgress {text : String} {cursor : Nat} {after : List Char}
    (hcut : cut text.toList cursor = (before, after)) (htoken : inProgress? before = some token)
    (hpool : token.kind = .pool pool) (hcandidate : candidate ∈ context.suggest text cursor) :
    candidate.selectable = true := by
  have hmem : candidate ∈ context.suggestPool pool := by
    rw [Context.suggest, hcut, Context.suggestAfter, htoken] at hcandidate
    simpa only [hpool] using hcandidate
  exact Context.selectable_of_mem_suggestPool hmem

/-- **What is picked is what is read.** The text up to the new cursor, without
the space that may have been added, ends with a pool that starts where the pool
in progress did and has its count; and its identifiers are those of the pool in
progress, with the one that was picked in the place of the last. -/
theorem picked_is_read {text : String} {cursor : Nat} {after : List Char}
    (hcut : cut text.toList cursor = (before, after)) (htoken : inProgress? before = some token)
    (hpool : token.kind = .pool pool) (hcandidate : candidate ∈ context.suggest text cursor)
    (hid : Pickable candidate.id) :
    ∃ q picked list,
      (cut (Edit.pick text cursor candidate).text.toList
          (Edit.pick text cursor candidate).cursor).1 =
        q ++ (if candidate.expectsMore then [] else [' ']) ∧
      inProgress? q = some picked ∧ picked.kind = .pool list ∧
      picked.span.start = token.span.start ∧ list.count = pool.count ∧
      identifiersOf list.list = (identifiersOf pool.list).dropLast ++ [candidate.id] := by
  obtain ⟨lead, head, kept, typed, prior, htyped⟩ := exists_typedPool htoken hpool
  have hpick := selectable_of_inProgress hcut htoken hpool hcandidate
  obtain ⟨hpiece, hkind⟩ := htyped.isPiece_inserted hid
  have hids := htyped.identifiersOf_inserted hid
  have hedit := Edit.pick_eq hcut hpick
  rw [htyped.stub] at hedit
  simp only at hedit
  rw [Edit.inserted_append_space] at hedit
  generalize Edit.inserted (!quotedAfter false kept) candidate.id false = shown at *
  obtain ⟨hprogress, hstart⟩ := htyped.around.inProgress?_replace hpiece
  refine ⟨lead ++ (head ++ (kept ++ shown)), ofPiece (width lead) (head ++ (kept ++ shown)), _,
    ?_, hprogress, hkind _, hstart, rfl, hids _⟩
  have hspace : (if (!candidate.expectsMore) = true then [' '] else []) =
      if candidate.expectsMore = true then [] else [' '] := by
    cases candidate.expectsMore <;> rfl
  rw [hedit, Edit.ofParts, String.toList_ofList, cut_width_append, hspace]
  simp only [List.append_assoc]

/-- A candidate for the second identifier of a list in quotes. -/
theorem picked_is_read_keypad :
    ∃ q picked list,
      (cut (Edit.pick "3*\"Wires,Ke\" 1:00" 11 (.byId "Keypad" "Keypad" 2)).text.toList
          (Edit.pick "3*\"Wires,Ke\" 1:00" 11 (.byId "Keypad" "Keypad" 2)).cursor).1 =
        q ++ [' '] ∧
      inProgress? q = some picked ∧ picked.kind = .pool list ∧ picked.span.start = 0 ∧
      list.count = some 3 ∧ identifiersOf list.list = ["Wires", "Keypad"] := by
  have hcut : cut "3*\"Wires,Ke\" 1:00".toList 11 =
      ("3*\"Wires,Ke".toList, "\" 1:00".toList) := by decide
  have htoken : inProgress? "3*\"Wires,Ke".toList =
      some ⟨⟨0, 11⟩, .pool ⟨some 3, "\"Wires,Ke", 2⟩⟩ := by decide +kernel
  have hcandidate : Candidate.byId "Keypad" "Keypad" 2 ∈
      ({} : Context).suggest "3*\"Wires,Ke\" 1:00" 11 := by decide +kernel
  have hid : Pickable (Candidate.byId "Keypad" "Keypad" 2).id := by
    refine ⟨by decide, by decide, not_of_all (by decide), not_of_all (by decide), fun _ => ?_⟩
    exact ⟨⟨⟨0, 6⟩, .pool ⟨none, "Keypad", 0⟩⟩, ⟨none, "Keypad", 0⟩, by decide +kernel, rfl, rfl⟩
  obtain ⟨q, picked, list, happ, hpicked, hkind, hstart, hcount, hids⟩ :=
    picked_is_read hcut htoken rfl hcandidate hid
  have hwires : identifiersOf (PoolToken.list ⟨some 3, "\"Wires,Ke", 2⟩) = ["Wires", "Ke"] := by
    decide +kernel
  rw [hwires] at hids
  exact ⟨q, picked, list, happ, hpicked, hkind, hstart, hcount, hids⟩

end MissionText
