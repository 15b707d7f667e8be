import MissionText.Checked.Completion
import MissionText.Proofs.Checked.Scan
import MissionText.Proofs.Completion.Rest
/-!
# Checked completion succeeds

A cursor is moved to the boundary at which the text is cut anyway
(`clamp_eq`), and the token that is found before it ends there. What is being
typed starts at a boundary as well: at the start of the token, or after the last
separator in its list, which takes one byte (`width_kept`). Every slice is then
between two of these places.
-/

namespace MissionText.Checked

open Text Token Scan

variable {matcher : Matcher} {cs before after : List Char} {text : String} {token : Token}
  {pool : PoolToken} {cursor n : Nat}

/-! ## Cursors -/

/-- Past the end a text is cut at the end. -/
theorem cut_of_width_le (h : width cs ≤ n) : Text.cut cs n = (cs, []) := by
  induction cs generalizing n with
  | nil => rfl
  | cons c cs ih =>
    rw [width_cons] at h
    rw [Text.cut, if_pos (by omega), ih (by omega)]

/-- Inside a character a text is cut where it is cut one byte before. -/
theorem cut_succ (h : isBoundary cs (n + 1) = false) : Text.cut cs (n + 1) = Text.cut cs n := by
  induction cs generalizing n with
  | nil => rfl
  | cons c cs ih =>
    have hpos := c.utf8Size_pos
    rw [Text.cut, Text.cut]
    by_cases hle : c.utf8Size ≤ n + 1
    · have hrest : isBoundary cs (n + 1 - c.utf8Size) = false := by
        rw [isBoundary, cut?, if_pos hle, Option.isSome_map] at h
        exact h
      rcases Nat.lt_or_ge n c.utf8Size with hlt | hge
      · -- the character would end at the offset
        have hzero : n + 1 - c.utf8Size = 0 := by omega
        rw [hzero, isBoundary] at hrest
        cases cs <;> cases hrest
      · have hsucc : n + 1 - c.utf8Size = n - c.utf8Size + 1 := by omega
        rw [hsucc] at hrest
        rw [if_pos hle, if_pos hge, hsucc, ih hrest]
    · rw [if_neg hle, if_neg (by omega)]

theorem floor_eq (cs : List Char) (n : Nat) : floor cs n = .ok (width (Text.cut cs n).1) := by
  have hboundary {n : Nat} (h : isBoundary cs n = true) : width (Text.cut cs n).1 = n := by
    obtain ⟨before, after, rfl, rfl⟩ := exists_of_isBoundary h
    rw [cut_width_append]
  induction n with
  | zero =>
    have hzero : isBoundary cs 0 = true := by cases cs <;> rfl
    rw [floor, if_pos hzero, hboundary hzero]
    rfl
  | succ n ih =>
    rw [floor]
    split
    · rename_i h
      rw [hboundary h]
      rfl
    · rename_i h
      rw [ih, cut_succ (Bool.eq_false_iff.2 h)]

/-- **A cursor is moved to where the text is cut.** -/
theorem clamp_eq (hcut : Text.cut cs cursor = (before, after)) :
    clamp cs cursor = .ok (width before) := by
  rw [clamp, floor_eq]
  rcases Nat.le_total cursor (width cs) with hle | hge
  · rw [Nat.min_eq_left hle, hcut]
  · rw [cut_of_width_le hge] at hcut
    rw [Nat.min_eq_right hge, cut_of_width_le (Nat.le_refl _), hcut]

/-- The token before a cursor is the one in progress. -/
theorem inProgress_eq (matcher : Matcher) (before after : List Char) :
    inProgress matcher (before ++ after) (width before) = .ok (inProgress? before) := by
  simp only [inProgress, before_append, ok_bind, scan_eq, pure_eq_ok, inProgress?]

/-! ## What is being typed -/

/-- The offset of the last identifier stands after the last separator. -/
theorem lastIdOffset_eq (pool : PoolToken) : lastIdOffset pool = pool.lastIdOffset :=
  (width_splitAfterLast fun _ => utf8Size_of_isSeparator).symm

/-- A list is cut at its last identifier. -/
theorem cut_lastIdOffset (pool : PoolToken) :
    pool.lastId.1 ++ pool.lastId.2 = pool.idList.toList ∧
      width pool.lastId.1 = lastIdOffset pool :=
  ⟨splitAfterLast_append _ _, (lastIdOffset_eq pool).symm⟩

/-- **What is being typed starts at a boundary**: the text before it is as wide
as its offset says. -/
theorem width_kept (htoken : inProgress? before = some token) :
    width (Stub.ofChars before).kept = (Stub.startOf token).1 := by
  -- it is enough to find a part of the text that is as wide
  have hpart (lead typed : List Char) (hbefore : before = lead ++ typed)
      (hstart : (Stub.startOf token).1 = width lead) :
      width (Stub.ofChars before).kept = (Stub.startOf token).1 := by
    rw [Stub.ofChars, htoken]
    simp only [hstart]
    rw [hbefore, cut_width_append]
  by_cases hpool : ∃ pool, token.kind = .pool pool
  · obtain ⟨pool, hpool⟩ := hpool
    obtain ⟨lead, head, ids, typed, prior, h⟩ := exists_typedPool htoken hpool
    obtain ⟨hlist, -⟩ := cut_lastIdOffset pool
    have hkind := h.around.isPiece.ofPiece_pool h.isPool (0 + width lead)
    rw [← h.around.read, hpool, h.counted] at hkind
    have hstart : pool.idListStart = width lead + width head := by
      have := congrArg PoolToken.idListStart (TokenKind.pool.inj hkind)
      simpa using this
    rw [h.list, String.toList_ofList] at hlist
    refine hpart (lead ++ (head ++ pool.lastId.1)) pool.lastId.2 ?_ ?_
    · rw [h.around.text, ← hlist]
      simp
    · simp [Stub.startOf, hpool, hstart, PoolToken.lastIdOffset, Nat.add_assoc]
  · have hkind : ∀ pool, token.kind ≠ .pool pool := fun pool hkind => hpool ⟨pool, hkind⟩
    obtain ⟨lead, piece, prior, haround⟩ := exists_around_inProgress htoken
    refine hpart lead piece (by simpa using haround.text) ?_
    rw [← Nat.zero_add (width lead), ← haround.span_start, Stub.startOf]
    split
    · rename_i pool hpool
      exact absurd hpool (hkind pool)
    · rfl

theorem width_stub (before : List Char) :
    width before = width (Stub.ofChars before).kept + width (Stub.ofChars before).typed := by
  rw [← width_append, Stub.kept_append_typed]

/-- **The stub is a slice of the text**, and so is what stands before it. -/
theorem slices_stub (before after : List Char) :
    Checked.before (before ++ after) (width (Stub.ofChars before).kept) =
        .ok (Stub.ofChars before).kept ∧
      between (before ++ after) (width (Stub.ofChars before).kept) (width before) =
        .ok (Stub.ofChars before).typed := by
  have htext : before ++ after =
      (Stub.ofChars before).kept ++ ((Stub.ofChars before).typed ++ after) := by
    rw [← List.append_assoc, Stub.kept_append_typed]
  rw [htext, width_stub before]
  exact ⟨before_append, between_append⟩

/-- The quotes before the last identifier are counted in a slice of the list. -/
theorem before_lastIdOffset (pool : PoolToken) :
    Checked.before pool.idList.toList pool.lastIdOffset = .ok pool.lastId.1 := by
  obtain ⟨hlist, hwidth⟩ := cut_lastIdOffset pool
  rw [← hlist, ← lastIdOffset_eq, ← hwidth, before_append]

/-- **An identifier is put where the stub starts.** -/
theorem spliceStart_eq (matcher : Matcher) (before after : List Char) :
    spliceStart matcher (before ++ after) (width before) =
      .ok (width (Stub.ofChars before).kept, (Stub.ofChars before).quotable) := by
  rw [spliceStart, inProgress_eq, ok_bind]
  cases htoken : inProgress? before with
  | none =>
    rw [Stub.ofChars, htoken]
    rfl
  | some token =>
    have hquotable : (Stub.ofChars before).quotable = (Stub.startOf token).2 := by
      rw [Stub.ofChars, htoken]
    rw [width_kept htoken, hquotable]
    obtain ⟨span, kind⟩ := token
    cases kind with
    | pool pool =>
      simp only [lastIdOffset_eq, before_lastIdOffset, ok_bind, pure_eq_ok, decide_even_count]
      rfl
    | _ => rfl

/-- **What is replaced is the stub.** -/
theorem replaced_eq (matcher : Matcher) (hcut : Text.cut cs cursor = (before, after)) :
    replaced matcher cs cursor = .ok (Stub.ofChars before).typed := by
  obtain rfl := append_of_cut_eq hcut
  obtain ⟨-, hbetween⟩ := slices_stub before after
  rw [replaced, clamp_eq hcut, ok_bind, inProgress_eq, ok_bind]
  cases htoken : inProgress? before with
  | none =>
    have hkept : (Stub.ofChars before).kept = before := by rw [Stub.ofChars, htoken]
    rwa [hkept] at hbetween
  | some token =>
    rw [width_kept htoken] at hbetween
    obtain ⟨span, kind⟩ := token
    cases kind with
    | pool pool =>
      simp only [lastIdOffset_eq]
      exact hbetween
    | _ => exact hbetween

/-! ## Edits -/

/-- **A checked splice is the splice.** -/
theorem splice_eq (matcher : Matcher) (text : String) (cursor : Nat) (id : String)
    (spaced : Bool) :
    splice matcher text cursor id spaced = .ok (Edit.splice text cursor id spaced) := by
  rcases hcut : Text.cut text.toList cursor with ⟨before, after⟩
  obtain ⟨hhead, -⟩ := slices_stub before after
  rw [Edit.splice_eq hcut, splice, clamp_eq hcut, ok_bind, ← append_of_cut_eq hcut,
    spliceStart_eq, ok_bind]
  simp only [hhead, after_append, ok_bind, pure_eq_ok, Edit.ofParts, width_append]

/-- **A checked pick is the pick.** -/
theorem pick_eq (matcher : Matcher) (text : String) (cursor : Nat) (candidate : Candidate) :
    pick matcher text cursor candidate = .ok (Edit.pick text cursor candidate) := by
  rw [pick, Edit.pick]
  split
  · exact splice_eq ..
  · rfl

/-- A comma after a space is closed up. -/
theorem closeUp?_append {rest : List Char}
    (hcut : Text.cut text.toList cursor = (rest ++ [' ', ','], after)) :
    Edit.closeUp? text cursor = some (Edit.ofParts (rest ++ [',']) after) := by
  simp [Edit.closeUp?, hcut]

theorem closeUp?_eq_none (hcut : Text.cut text.toList cursor = (before, after))
    (h : ¬[' ', ','] <:+ before) : Edit.closeUp? text cursor = none := by
  simp only [Edit.closeUp?, hcut]
  split
  · rename_i rest hrev
    refine absurd ⟨rest.reverse, ?_⟩ h
    rw [← List.reverse_reverse before, hrev]
    simp
  · rfl

/-- **A comma is closed up** between boundaries: it and the space before it take
one byte each. -/
theorem closeUp_eq (text : String) (cursor : Nat) :
    closeUp text cursor = .ok (Edit.closeUp? text cursor) := by
  rcases hcut : Text.cut text.toList cursor with ⟨before, after⟩
  rw [closeUp, clamp_eq hcut, ok_bind, ← append_of_cut_eq hcut, before_append, ok_bind]
  by_cases hsuffix : [' ', ','] <:+ before
  · obtain ⟨rest, rfl⟩ := hsuffix
    have hhead : Checked.before (rest ++ [' ', ','] ++ after) (width rest) = .ok rest := by
      rw [List.append_assoc, before_append]
    have htail : Checked.after (rest ++ [' ', ','] ++ after) (width rest + 1) =
        .ok (',' :: after) := by
      have hsplit : rest ++ [' ', ','] ++ after = (rest ++ [' ']) ++ ',' :: after := by simp
      have hcomma : width rest + 1 = width (rest ++ [' ']) := by rw [width_append]; rfl
      rw [hsplit, hcomma, after_append]
    have hwidth : width (rest ++ [' ', ',']) = width rest + 2 := by rw [width_append]; rfl
    have hroom : 1 ≤ width (rest ++ [' ', ','] ++ after) := by
      rw [width_append, hwidth]
      omega
    rw [if_pos (by simp), difference_of_le hroom, ok_bind, hwidth, difference_add_right, ok_bind,
      difference_of_le (by omega), ok_bind, hhead, ok_bind,
      show width rest + 2 - 1 = width rest + 1 from rfl, htail, ok_bind, closeUp?_append hcut]
    simp [Edit.ofParts]
    rfl
  · rw [if_neg (by simpa using hsuffix), closeUp?_eq_none hcut hsuffix]
    rfl

/-! ## Suggestions -/

theorem stub_eq (pool : PoolToken) : stub pool = .ok pool.stub := by
  obtain ⟨hlist, hwidth⟩ := cut_lastIdOffset pool
  rw [stub, ← hlist, ← hwidth, after_append]
  rfl

/-- **Checked suggestions are the suggestions.** -/
theorem suggest_eq (matcher : Matcher) (context : Context) (text : String) (cursor : Nat) :
    suggest matcher context text cursor = .ok (context.suggest text cursor) := by
  rcases hcut : Text.cut text.toList cursor with ⟨before, after⟩
  rw [Context.suggest, hcut, Context.suggestAfter, suggest, clamp_eq hcut, ok_bind,
    ← append_of_cut_eq hcut, inProgress_eq, ok_bind]
  cases htoken : inProgress? before with
  | none => rfl
  | some token =>
    obtain ⟨lead, piece, prior, haround⟩ := exists_around_inProgress htoken
    have hbefore : before = lead ++ piece := by simpa using haround.text
    have hbetween : between (before ++ after) token.span.start token.span.stop = .ok piece := by
      rw [haround.span_start, haround.span_stop, hbefore, List.append_assoc, Nat.zero_add,
        between_append]
    have htyped : (Text.cut before token.span.start).2 = piece := by
      rw [haround.span_start, hbefore, Nat.zero_add, cut_width_append]
    obtain ⟨span, kind⟩ := token
    cases kind with
    | strikes count =>
      simp only [hbetween, htyped, ok_bind, pure_eq_ok]
    | pool pool => simp only [suggestPool, stub_eq, ok_bind, pure_eq_ok, Context.suggestPool]
    | _ => rfl

end MissionText.Checked
