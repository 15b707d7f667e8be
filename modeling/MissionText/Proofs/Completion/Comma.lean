import MissionText.Editor
import MissionText.Proofs.Completion.Typed
import MissionText.Proofs.Pool.Segments
import MissionText.Proofs.Token.Grammar
/-!
# A comma after a picked candidate

A candidate is followed by a space when it is picked. If a comma is typed next,
it takes the place of that space, so what comes out is the candidate with a
comma right after it, as if the space had never been there. In a pool the list
then goes on: with its comma the identifier is a finished part of the list, and
another one may be typed. Only where nothing stands before it could the
identifier and the comma be anything else, namely the value of a setting.
-/

namespace MissionText

open Text Token Scan

variable {before lead head kept typed front after raw rest : List Char} {prior : List Token}
  {token : Token} {pool : PoolToken} {candidate : Candidate} {name : SettingName} {id : String}

/-! ## The space is taken back -/

namespace Edit

/-- **A comma takes the place of the space before it.** -/
theorem typeChar_comma (front after : List Char) :
    (ofParts (front ++ [' ']) after).typeChar ',' = (ofParts (front ++ [',']) after, true) := by
  have hclose : closeUp? (ofParts (front ++ [' '] ++ [',']) after).text
      (ofParts (front ++ [' '] ++ [',']) after).cursor = some (ofParts (front ++ [',']) after) := by
    rw [closeUp?, ofParts, String.toList_ofList, cut_width_append]
    simp
  rw [typeChar, ofParts, String.toList_ofList, cut_width_append]
  simp only [hclose]

end Edit

/-- A candidate that does not end like one after which more is typed is followed
by a space. -/
theorem Candidate.expectsMore_eq_false
    (h : ∀ c ∈ candidate.id.toList.getLast?, c ≠ '*' ∧ c ≠ ':') :
    candidate.expectsMore = false := by
  rw [expectsMore]
  split
  · rename_i c hc
    simpa using h c hc
  · rfl

/-! ## The list goes on -/

/-- A keyword and a colon are found where they stand. -/
theorem IsKeyword.afterKeyword? (h : IsKeyword name raw) (rest : List Char) :
    afterKeyword? (name.keyword ++ ":") (raw ++ ':' :: rest) = some rest := by
  have hlength : raw.length = name.keyword.toList.length := by
    rw [← h, List.length_map]
  have htake : (raw ++ ':' :: rest).take (name.keyword.toList ++ [':']).length = raw ++ [':'] := by
    rw [List.length_append, ← hlength, List.take_length_add_append]
    rfl
  have hdrop : (raw ++ ':' :: rest).drop (name.keyword.toList ++ [':']).length = rest := by
    rw [List.length_append, ← hlength, List.drop_length_add_append]
    rfl
  have hsame : sameKeyword (name.keyword.toList ++ [':']) (raw ++ [':']) = true := by
    rw [sameKeyword, beq_iff_eq, List.map_append, List.map_append, h,
      SettingName.map_toLower_keyword]
  have hcolon : (name.keyword ++ ":").toList = name.keyword.toList ++ [':'] := by
    rw [String.toList_append]
    rfl
  simp only [MissionText.afterKeyword?, hcolon, htake, hdrop, hsame, if_true]

/-- **A run that ends with a comma is a pool**, unless it begins with the keyword
of a setting and a colon. -/
theorem TokenKind.ofRun?_comma
    (hname : ∀ name : SettingName, afterKeyword? (name.keyword ++ ":") raw = none) :
    ofRun? (raw ++ [',']) = none := by
  have hmem : ',' ∈ raw ++ [','] := by simp
  rw [ofRun?_eq_none_iff_of_isMark hmem (by decide)]
  intro hcolon
  rw [Option.eq_none_iff_forall_ne_some]
  intro name hkeyword
  have hsplit := List.takeWhile_append_dropWhile (p := (· ≠ ':')) (l := raw)
  have hhead := List.head?_dropWhile_not (· ≠ ':') raw
  cases hdrop : raw.dropWhile (· ≠ ':') with
  | nil =>
    have hplain := List.dropWhile_eq_nil_iff.1 hdrop ':' (by simpa using hcolon)
    simp at hplain
  | cons c rest =>
    rw [hdrop] at hsplit hhead
    obtain rfl : c = ':' := by simpa using hhead
    -- the keyword ends at the first colon, which stands before the comma
    have htake : (raw ++ [',']).takeWhile (· ≠ ':') = raw.takeWhile (· ≠ ':') := by
      have hplain : ∀ d ∈ raw.takeWhile (· ≠ ':'), decide (d ≠ ':') = true := by
        intro d hd
        simpa using List.mem_takeWhile_imp hd
      generalize raw.takeWhile (· ≠ ':') = first at *
      rw [← hsplit, List.append_assoc, List.takeWhile_append_of_pos hplain]
      simp
    rw [htake] at hkeyword
    have hafter := (SettingName.ofKeyword?_eq_some_iff.1 hkeyword).afterKeyword? rest
    rw [hsplit, hname name] at hafter
    cases hafter

/-- **An identifier with a comma after it is a pool**, in its quotes or without
them, unless it is a setting with a value. -/
theorem reads_alone_comma
    (hname : ∀ name : SettingName, afterKeyword? (name.keyword ++ ":") id.toList = none) :
    TokenKind.ofRun? ((Edit.inserted true id false ++ [',']).takeWhile isInk) = none ∧
      ∃ c ∈ (Edit.inserted true id false ++ [',']).head?, isBlank c = false := by
  rw [Edit.inserted_unspaced, Bool.true_and]
  split
  · exact ⟨TokenKind.ofRun?_quote, '"', rfl, by decide⟩
  · rename_i hblank
    have hink : ∀ c ∈ id.toList ++ [','], isBlank c = false := by
      refine List.forall_mem_append.2 ⟨?_, List.forall_mem_singleton.2 (by decide)⟩
      simpa [hasBlank] using hblank
    refine ⟨?_, ?_⟩
    · rw [List.takeWhile_eq_self_iff.2 fun c hc => by simp [hink c hc]]
      exact TokenKind.ofRun?_comma hname
    · cases hcs : id.toList with
      | nil => exact ⟨',', rfl, by decide⟩
      | cons c cs => exact ⟨c, rfl, hink c (by simp [hcs])⟩

/-- **The pool goes on after a comma.** -/
theorem TypedPool.isPiece_comma (h : TypedPool before lead head kept typed prior token pool)
    (hid : ∀ c ∈ id.toList, isQuote c = false)
    (hname : head ++ kept = [] →
      ∀ name : SettingName, afterKeyword? (name.keyword ++ ":") id.toList = none) :
    TokenKind.ofRun? ((head ++
        (kept ++ (Edit.inserted (!quotedAfter false kept) id false ++ [',']))).takeWhile isInk) =
      none ∧
    IsPiece (head ++ (kept ++ (Edit.inserted (!quotedAfter false kept) id false ++ [',']))) := by
  have hunbroken : Unbroken false
      (head ++ (kept ++ (Edit.inserted (!quotedAfter false kept) id false ++ [',']))) := by
    have hcomma : ∀ c ∈ [','], isBlank c = false := List.forall_mem_singleton.2 (by decide)
    refine unbroken_append.2 ⟨h.balanced.unbroken, ?_⟩
    rw [h.balanced.closed]
    exact unbroken_append.2 ⟨h.unbroken_kept,
      unbroken_append.2 ⟨(Edit.unbroken_inserted hid).1, unbroken_of_ink hcomma⟩⟩
  by_cases hne : head ++ kept = []
  · obtain ⟨rfl, rfl⟩ := List.append_eq_nil_iff.1 hne
    obtain ⟨hrun, hink⟩ := reads_alone_comma (hname hne)
    exact ⟨hrun, (isPiece_iff_of_pool hrun).2 ⟨hink, hunbroken⟩⟩
  · have hrun := h.isPool_of_ne_nil hne (Edit.inserted (!quotedAfter false kept) id false ++ [','])
    exact ⟨hrun, (isPiece_iff_of_pool hrun).2 ⟨h.head_of_ne_nil hne _, hunbroken⟩⟩

/-- After a comma an identifier begins, and nothing of it is typed yet. -/
theorem stub_of_comma {piece : List Char} (hpiece : IsPiece (piece ++ [',']))
    (hpool : pool.idList = String.ofList (PoolToken.readCount (piece ++ [','])).2.2) :
    pool.stub = "" := by
  obtain ⟨c, tail, hcons, hink⟩ := hpiece.exists_cons
  obtain ⟨d, more, hlist, -⟩ := PoolToken.exists_readCount c tail hink
  obtain ⟨head, hsplit, -⟩ := PoolToken.exists_readCount_append (piece ++ [','])
  rw [← hcons] at hlist
  -- the list is not empty, so it ends like the piece
  have hlast : ∀ e ∈ (d :: more).getLast?, isSeparator e = true := by
    intro e he
    have hend := congrArg List.getLast? hsplit
    rw [List.getLast?_concat, hlist, List.getLast?_append, Option.mem_def.1 he] at hend
    obtain rfl : ',' = e := by simpa using hend
    rfl
  have hnone : splitAfterLast isSeparator (d :: more ++ []) = _ := splitAfterLast_eq hlast nofun
  rw [List.append_nil] at hnone
  rw [PoolToken.stub, PoolToken.lastId, hpool, String.toList_ofList, hlist, hnone]
  rfl

/-- **A comma after a picked candidate takes the space back.** The text is what it
would be if the candidate had been put in without a space and the comma right
after it; the cursor stands behind the comma, and before the text that stood
behind it at first. If a pool was being typed, and the identifier holds no quote
and does not make a setting of it, the pool is still being typed there, and its
next identifier is empty so far. -/
theorem comma_takes_space_back {text : String} {cursor : Nat}
    (hcut : cut text.toList cursor = (before, after)) (hpick : candidate.selectable = true)
    (hends : ∀ c ∈ candidate.id.toList.getLast?, c ≠ '*' ∧ c ≠ ':') :
    ∃ shown, Edit.splice text cursor candidate.id false = Edit.ofParts shown after ∧
      (Edit.pick text cursor candidate).typeChar ',' =
        (Edit.ofParts (shown ++ [',']) after, true) ∧
      cut (Edit.ofParts (shown ++ [',']) after).text.toList
        (Edit.ofParts (shown ++ [',']) after).cursor = (shown ++ [','], after) ∧
      ∀ token pool, inProgress? before = some token → token.kind = .pool pool →
        (∀ c ∈ candidate.id.toList, isQuote c = false) →
        (pool.count = none → (∀ c ∈ pool.idList.toList, isSeparator c = false) →
          ∀ name : SettingName,
            afterKeyword? (name.keyword ++ ":") candidate.id.toList = none) →
        ∃ next list, inProgress? (shown ++ [',']) = some next ∧ next.kind = .pool list ∧
          next.span.start = token.span.start ∧ list.stub = "" := by
  have hsplice := Edit.splice_eq hcut candidate.id false
  have hedit := Edit.pick_eq hcut hpick
  rw [Candidate.expectsMore_eq_false hends, Edit.inserted_append_space, ← List.append_assoc]
    at hedit
  refine ⟨_, hsplice, ?_, ?_, fun token pool htoken hpool hid hname => ?_⟩
  · rw [hedit]
    exact Edit.typeChar_comma _ _
  · rw [Edit.ofParts, String.toList_ofList, cut_width_append]
  · obtain ⟨lead, head, kept, typed, prior, htyped⟩ := exists_typedPool htoken hpool
    rw [htyped.stub]
    have halone (hnil : head ++ kept = []) (name : SettingName) :
        afterKeyword? (name.keyword ++ ":") candidate.id.toList = none := by
      obtain ⟨rfl, rfl⟩ := List.append_eq_nil_iff.1 hnil
      exact hname (htyped.count_eq_none rfl) (by simpa [htyped.list] using htyped.plain) name
    obtain ⟨hrun, hpiece⟩ := htyped.isPiece_comma hid halone
    obtain ⟨hprogress, hstart⟩ := htyped.around.inProgress?_replace hpiece
    have hkind := hpiece.ofPiece_pool hrun (width lead)
    simp only [← List.append_assoc] at hpiece hprogress hstart hkind ⊢
    exact ⟨_, _, hprogress, hkind, hstart, stub_of_comma hpiece rfl⟩

/-- A comma after the first identifier of a counted list, before a time. -/
theorem comma_takes_space_back_wires :
    (Edit.pick "3*Wi 2:00" 4 (.byId "Wires" "Wires" 2)).typeChar ',' =
        (⟨"3*Wires, 2:00", 8⟩, true) ∧
      ∃ shown, Edit.splice "3*Wi 2:00" 4 "Wires" false = Edit.ofParts shown " 2:00".toList ∧
        (Edit.pick "3*Wi 2:00" 4 (.byId "Wires" "Wires" 2)).typeChar ',' =
          (Edit.ofParts (shown ++ [',']) " 2:00".toList, true) ∧
        ∃ next list, inProgress? (shown ++ [',']) = some next ∧ next.kind = .pool list ∧
          next.span.start = 0 ∧ list.stub = "" := by
  have hcut : cut "3*Wi 2:00".toList 4 = ("3*Wi".toList, " 2:00".toList) := by decide
  have htoken : inProgress? "3*Wi".toList = some ⟨⟨0, 4⟩, .pool ⟨some 3, "Wi", 2⟩⟩ := by
    decide +kernel
  have hends : ∀ c ∈ (Candidate.byId "Wires" "Wires" 2).id.toList.getLast?, c ≠ '*' ∧ c ≠ ':' := by
    rintro c ⟨⟩
    decide
  obtain ⟨shown, hsplice, htyped, -, hgoes⟩ := comma_takes_space_back hcut rfl hends
  exact ⟨by decide +kernel, shown, hsplice, htyped,
    hgoes _ _ htoken rfl (not_of_all (by decide)) (fun hcount => by cases hcount)⟩

end MissionText
