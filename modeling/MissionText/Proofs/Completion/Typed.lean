import MissionText.Completion.Edit
import MissionText.Completion.Suggestion
import MissionText.Proofs.Scan.Junction
import MissionText.Proofs.Scan.Prefix
import MissionText.Proofs.Token.Marked
/-!
# The pool in progress

The text before a cursor in a pool falls into four parts: what comes before the
pool, its count, the identifiers that are finished, and the one being typed
(`TypedPool`). Only the last is replaced when a candidate is picked. Whatever
takes its place, the rest is read as before: the token is a pool with the same
count if anything stands before the identifier being typed, since that part
ends with a mark.
-/

namespace MissionText

open Text Token Scan

variable {before lead head kept typed other : List Char} {prior : List Token} {token : Token}
  {pool : PoolToken}

/-! ## What is inserted -/

namespace Edit

variable {id : String} {quoted : Bool}

theorem inserted_unspaced (quotable : Bool) (id : String) :
    inserted quotable id false =
      if quotable && hasBlank id then '"' :: (id.toList ++ ['"']) else id.toList :=
  List.append_nil _

/-- The space is inserted after the identifier. -/
theorem inserted_append_space (quotable : Bool) (id : String) (spaced : Bool) :
    inserted quotable id spaced =
      inserted quotable id false ++ (if spaced then [' '] else []) := by
  rw [inserted, inserted]
  simp

variable (hplain : ∀ c ∈ id.toList, isQuote c = false)

include hplain

/-- Quotes are only put around an identifier. -/
theorem unquoted_inserted (quotable : Bool) :
    unquoted (inserted quotable id false) = id.toList := by
  have hid := unquoted_of_plain hplain
  rw [inserted_unspaced]
  split
  · have hquote : unquoted ('"' :: (id.toList ++ ['"'])) = unquoted id.toList := by
      simp [unquoted, isQuote]
    rw [hquote, hid]
  · exact hid

/-- **An identifier is inserted in one run**, and the quotes are as they were
before it: inside quotes it may hold blanks, and outside it is put in quotes if
it does. -/
theorem unbroken_inserted : Unbroken quoted (inserted (!quoted) id false) ∧
    quotedAfter quoted (inserted (!quoted) id false) = quoted := by
  rw [inserted_unspaced]
  cases quoted with
  | true => exact ⟨unbroken_of_plain hplain, quotedAfter_of_plain hplain⟩
  | false =>
    rw [Bool.not_false, Bool.true_and]
    split
    · have hbalanced := balanced_quote hplain
      exact ⟨hbalanced.unbroken, hbalanced.closed⟩
    · rename_i hblank
      have hink : ∀ c ∈ id.toList, isBlank c = false := by
        simpa [hasBlank] using hblank
      have hbalanced := balanced_of_ink hink hplain
      exact ⟨hbalanced.unbroken, hbalanced.closed⟩

end Edit

/-! ## The token in progress -/

/-- The token in progress stands at the end of the text. -/
theorem exists_around_inProgress (h : inProgress? before = some token) :
    ∃ lead piece prior,
      Around 0 before (ofChars before).tokens token lead piece [] prior [] := by
  obtain ⟨hlast, hstop⟩ := inProgress?_eq_some_iff.1 h
  obtain ⟨lead, piece, after, prior, later, haround⟩ :=
    (laid_ofChars before).exists_around (List.mem_of_mem_getLast? hlast)
  have hwidth := congrArg width haround.text
  rw [haround.span_stop, hwidth] at hstop
  simp only [width_append, Nat.zero_add] at hstop
  obtain rfl : after = [] := by
    have := length_le_width after
    exact List.eq_nil_of_length_eq_zero (by omega)
  obtain rfl := haround.follows.eq_nil_iff.2 nofun
  exact ⟨lead, piece, prior, haround⟩

/-- **Another piece in the place of the token in progress** is in progress in its
turn, and starts where the token did. -/
theorem Scan.Around.inProgress?_replace {piece : List Char} {tokens : List Token}
    (h : Around 0 before tokens token lead piece [] prior []) (hother : IsPiece other) :
    inProgress? (lead ++ other) = some (ofPiece (width lead) other) ∧
      (ofPiece (width lead) other).span.start = token.span.start := by
  have hlaid := h.replace (laid_piece hother _)
  rw [Nat.zero_add] at hlaid
  refine ⟨?_, ?_⟩
  · rw [inProgress?_eq_some_iff, ofChars_eq_of_laid hlaid]
    refine ⟨by simp, ?_⟩
    rw [hother.stop_ofPiece, width_append]
  · rw [h.span_start, hother.span_ofPiece, Nat.zero_add]

/-! ## The parts of a pool -/

/-- **A pool in progress**, in its four parts: the text before it, its count,
the part of its list that is finished, and the identifier being typed. -/
structure TypedPool (before lead head kept typed : List Char) (prior : List Token)
    (token : Token) (pool : PoolToken) : Prop where
  around : Around 0 before (ofChars before).tokens token lead (head ++ (kept ++ typed)) [] prior []
  /-- It is no time, no strike limit and no setting. -/
  isPool : TokenKind.ofRun? ((head ++ (kept ++ typed)).takeWhile isInk) = none
  counted : PoolToken.readCount (head ++ (kept ++ typed)) =
    (pool.count, width head, kept ++ typed)
  list : pool.idList = String.ofList (kept ++ typed)
  balanced : Balanced head
  marked : head = [] ∨ ∃ c ∈ head, isMark c = true
  /-- The finished part ends with a separator. -/
  separated : ∀ c ∈ kept.getLast?, isSeparator c = true
  /-- The identifier being typed holds none. -/
  plain : ∀ c ∈ typed, isSeparator c = false
  stub : Stub.ofChars before = ⟨lead ++ (head ++ kept), typed, !quotedAfter false kept⟩

/-- A pool in progress has its four parts. -/
theorem exists_typedPool (h : inProgress? before = some token) (hpool : token.kind = .pool pool) :
    ∃ lead head kept typed prior, TypedPool before lead head kept typed prior token pool := by
  obtain ⟨lead, piece, prior, haround⟩ := exists_around_inProgress h
  have hread := haround.read
  rw [Nat.zero_add] at hread
  rw [hread] at hpool
  have hrun := ofRun?_eq_none_of_kind hpool
  rw [haround.isPiece.ofPiece_pool hrun] at hpool
  obtain ⟨head, hbalanced, hpiece, hhead, hmarked⟩ := PoolToken.exists_balanced_count piece
  have hids := splitAfterLast_append isSeparator (PoolToken.readCount piece).2.2
  have hplain := not_of_mem_splitAfterLast isSeparator (PoolToken.readCount piece).2.2
  have hseparated := getLast?_splitAfterLast isSeparator (PoolToken.readCount piece).2.2
  have hlast : pool.lastId = splitAfterLast isSeparator (PoolToken.readCount piece).2.2 := by
    cases hpool
    rw [PoolToken.lastId, String.toList_ofList]
  generalize splitAfterLast isSeparator (PoolToken.readCount piece).2.2 = parts at *
  obtain ⟨kept, typed⟩ := parts
  simp only at hids hplain hseparated
  rw [← hids] at hpiece
  have hcounted : PoolToken.readCount (head ++ (kept ++ typed)) =
      (pool.count, width head, kept ++ typed) := by
    rw [← hpiece, hhead, hids]
    cases hpool
    rfl
  have hlist : pool.idList = String.ofList (kept ++ typed) := by
    rw [hids]
    cases hpool
    rfl
  have hstart : pool.idListStart = width lead + width head := by
    rw [hhead]
    cases hpool
    rfl
  refine ⟨lead, head, kept, typed, prior, hpiece ▸ haround, hpiece ▸ hrun, hcounted, hlist,
    hbalanced, hmarked, hseparated, hplain, ?_⟩
  -- the stub starts where the list does, and as much later as the finished part is wide
  have hbefore : before = (lead ++ (head ++ kept)) ++ typed := by
    rw [haround.text, hpiece]
    simp
  have hstubStart : Stub.startOf token =
      (width (lead ++ (head ++ kept)), !quotedAfter false kept) := by
    have hkind : token.kind = .pool pool := by
      rw [hread, haround.isPiece.ofPiece_pool hrun, hpool]
    simp only [Stub.startOf, hkind, PoolToken.lastIdOffset, hlast, hstart, width_append,
      Nat.add_assoc]
  rw [Stub.ofChars, h]
  simp only [hstubStart]
  rw [hbefore, cut_width_append]

namespace TypedPool

variable (h : TypedPool before lead head kept typed prior token pool)

include h

/-- The list of a pool is not empty. -/
theorem list_ne_nil : kept ++ typed ≠ [] := by
  obtain ⟨c, tail, hpiece, hink⟩ := h.around.isPiece.exists_cons
  obtain ⟨d, more, hlist, -⟩ := PoolToken.exists_readCount c tail hink
  have hcounted := h.counted
  rw [hpiece] at hcounted
  rw [hcounted] at hlist
  simp only at hlist
  rw [hlist]
  exact List.cons_ne_nil d more

/-- The part before the identifier being typed holds a mark, if there is
any. -/
theorem exists_isMark : head ++ kept = [] ∨ ∃ c ∈ head ++ kept, isMark c = true := by
  rcases h.marked with rfl | ⟨c, hc, hmark⟩
  · rcases List.eq_nil_or_concat kept with rfl | ⟨more, c, rfl⟩
    · exact .inl rfl
    · exact .inr ⟨c, by simp, isMark_of_isSeparator (h.separated c (by simp))⟩
  · exact .inr ⟨c, List.mem_append_left _ hc, hmark⟩

/-- **The token stays a pool** if anything stands before what is typed. -/
theorem isPool_of_ne_nil (hne : head ++ kept ≠ []) (other : List Char) :
    TokenKind.ofRun? ((head ++ (kept ++ other)).takeWhile isInk) = none := by
  obtain ⟨c, hc, hmark⟩ := h.exists_isMark.resolve_left hne
  have hpool := h.isPool
  rw [← List.append_assoc] at hpool ⊢
  exact TokenKind.ofRun?_eq_none_of_append hc hmark hpool

/-- The token begins with ink if anything stands before what is typed. -/
theorem head_of_ne_nil (hne : head ++ kept ≠ []) (other : List Char) :
    ∃ c ∈ (head ++ (kept ++ other)).head?, isBlank c = false := by
  obtain ⟨c, hc, hink⟩ := h.around.isPiece.head
  rw [← List.append_assoc] at hc ⊢
  obtain ⟨d, more, hmore⟩ := List.exists_cons_of_ne_nil hne
  rw [hmore] at hc ⊢
  exact ⟨c, hc, hink⟩

/-- The finished part of the list has no blank outside its quotes. -/
theorem unbroken_kept : Unbroken false kept := by
  have hlist := h.around.isPiece.unbroken h.isPool
  rw [h.counted] at hlist
  exact (unbroken_append.1 hlist).1

/-- Without a count there is nothing before the list. -/
theorem count_eq_none (hnil : head = []) : pool.count = none := by
  have hcounted := h.counted
  rcases PoolToken.readCount_eq_none_or (head ++ (kept ++ typed)) with hnone |
    ⟨ds, sign, c, tail, count, hsplit, hfield, hsign, hc⟩
  · rw [hnone] at hcounted
    exact (Prod.mk.inj hcounted).1.symm
  · rw [hsplit, PoolToken.readCount_counted hfield hsign hc, hnil] at hcounted
    simp at hcounted

/-- **The count stays**, whatever takes the place of the identifier being typed,
as long as it can be counted. -/
theorem readCount_append (hink : ∃ c ∈ other.head?, isBlank c = false)
    (halone : head ++ kept = [] → PoolToken.readCount other = (none, 0, other)) :
    PoolToken.readCount (head ++ (kept ++ other)) = (pool.count, width head, kept ++ other) := by
  have hcounted := h.counted
  rcases List.eq_nil_or_concat kept with rfl | ⟨more, sep, rfl⟩
  · simp only [List.nil_append, List.append_nil] at halone hcounted ⊢
    rcases PoolToken.readCount_eq_none_or (head ++ typed) with hnone |
      ⟨ds, sign, c, tail, count, hsplit, hfield, hsign, hc⟩
    · -- without a count there is nothing before the list
      rw [hnone, Prod.mk.injEq, Prod.mk.injEq] at hcounted
      obtain rfl : head = [] := by simpa using hcounted.2.2
      rw [List.nil_append, halone rfl, ← hcounted.1]
      rfl
    · obtain ⟨d, hd, hink⟩ := hink
      obtain ⟨tail', rfl⟩ := List.head?_eq_some_iff.1 hd
      rw [hsplit, PoolToken.readCount_counted hfield hsign hc, Prod.mk.injEq,
        Prod.mk.injEq] at hcounted
      obtain ⟨hcount, hwidth, rfl⟩ := hcounted
      obtain rfl : head = ds ++ [sign] := by
        have happ : head ++ (c :: tail) = ds ++ [sign] ++ (c :: tail) := by
          rw [hsplit]
          simp
        exact List.append_cancel_right happ
      rw [List.append_assoc, List.singleton_append,
        PoolToken.readCount_counted hfield hsign hink, hcount, hwidth]
  · -- the finished part settles the count by its separator
    have hsep : isSeparator sep = true := h.separated sep (by simp)
    obtain ⟨count, skipped, list, hread⟩ :=
      PoolToken.exists_readCount_separator hsep (head ++ more)
    have hother := hread other
    have htyped := hread typed
    have hassoc (cs : List Char) :
        head ++ (more.concat sep ++ cs) = head ++ more ++ sep :: cs := by
      simp
    rw [hassoc, htyped, Prod.mk.injEq, Prod.mk.injEq] at hcounted
    obtain ⟨hcount, hskipped, hlist⟩ := hcounted
    have hmore : list = more := by
      have happ : list ++ sep :: typed = more ++ sep :: typed := by
        rw [hlist]
        simp
      exact List.append_cancel_right happ
    rw [hassoc, hother, hcount, hskipped, hmore]
    simp

/-- **Anything in one run may take the place of the identifier being typed**: the
token is a pool with the same count. Where nothing stands before it, it has to
be a pool without a count by itself. -/
theorem isPiece_replaced (hunbroken : Unbroken (quotedAfter false kept) other)
    (hink : ∃ c ∈ other.head?, isBlank c = false)
    (halone : head ++ kept = [] → TokenKind.ofRun? (other.takeWhile isInk) = none ∧
      PoolToken.readCount other = (none, 0, other)) :
    IsPiece (head ++ (kept ++ other)) ∧ ∀ start, (ofPiece start (head ++ (kept ++ other))).kind =
      .pool ⟨pool.count, String.ofList (kept ++ other), start + width head⟩ := by
  have hcount := h.readCount_append hink fun hnil => (halone hnil).2
  have hrun : TokenKind.ofRun? ((head ++ (kept ++ other)).takeWhile isInk) = none := by
    by_cases hne : head ++ kept = []
    · obtain ⟨rfl, rfl⟩ := List.append_eq_nil_iff.1 hne
      exact (halone hne).1
    · exact h.isPool_of_ne_nil hne _
  have hhead : ∃ c ∈ (head ++ (kept ++ other)).head?, isBlank c = false := by
    by_cases hne : head ++ kept = []
    · obtain ⟨rfl, rfl⟩ := List.append_eq_nil_iff.1 hne
      exact hink
    · exact h.head_of_ne_nil hne _
  have hpiece : IsPiece (head ++ (kept ++ other)) := by
    refine ⟨hhead, ?_⟩
    rw [read_of_ofRun?_eq_none hrun, PoolToken.read_eq, hcount]
    exact unbroken_append.2 ⟨h.unbroken_kept, hunbroken⟩
  refine ⟨hpiece, fun start => ?_⟩
  rw [hpiece.ofPiece_pool hrun, hcount]

end TypedPool

/-- **A pool in progress is a number** if it has no count and all of its list is
digits, since a list is not empty. -/
theorem isNumber_eq (h : inProgress? before = some token) (hpool : token.kind = .pool pool) :
    pool.isNumber = (pool.count.isNone && pool.idList.toList.all Char.isDigit) := by
  obtain ⟨lead, head, kept, typed, prior, htyped⟩ := exists_typedPool h hpool
  have hlist : pool.idList.toList = kept ++ typed := by rw [htyped.list, String.toList_ofList]
  have hne : pool.idList.isEmpty = false := by
    rw [Bool.eq_false_iff, Ne, String.isEmpty_iff]
    exact fun hempty => htyped.list_ne_nil (by simp [← hlist, hempty])
  rw [PoolToken.isNumber, hne, Bool.not_false, Bool.and_true]

end MissionText
