import MissionText.Completion.Cycle
import MissionText.Completion.Suggestion
import MissionText.Proofs.Completion.Rest
import MissionText.Proofs.Mission.Spacing
/-!
# Completion is local

Nothing after the cursor has a say in what is offered or in what is picked, and
picking touches nothing after it. What a candidate replaces is told by the token
in progress alone (`Typing`): the last identifier of a pool with its quotes,
another token as a whole, or nothing. A cursor that stands past the end or
inside a character counts as the nearest boundary before it (`StandsAfter`).
-/

namespace MissionText

open Text

variable {before after kept typed : List Char} {quotable : Bool} {cursor : Nat} {text : String}
  {token : Token}

/-! ## The cursor -/

/-- **A cursor stands after a beginning of a text**: at its end, or inside the
character that follows, or past the end if none does. -/
def StandsAfter (before after : List Char) (cursor : Nat) : Prop :=
  width before ≤ cursor ∧ ∀ c ∈ after.head?, cursor < width before + c.utf8Size

/-- A cursor stands after the text that is cut off at it. -/
theorem cut_of_standsAfter (h : StandsAfter before after cursor) :
    cut (before ++ after) cursor = (before, after) := by
  induction before generalizing cursor with
  | nil =>
    cases after with
    | nil => rfl
    | cons c after =>
      have hc := h.2 c rfl
      rw [width_nil, Nat.zero_add] at hc
      rw [List.nil_append, cut, if_neg (by omega)]
  | cons c before ih =>
    obtain ⟨hle, hlt⟩ := h
    rw [width_cons] at hle hlt
    have hrest : StandsAfter before after (cursor - c.utf8Size) :=
      ⟨by omega, fun d hd => by have := hlt d hd; omega⟩
    rw [List.cons_append, cut, if_pos (by omega), ih hrest]

/-! ## What is being typed -/

/-- **What is being typed at the end of a text**: the text falls into what is
kept and what a candidate replaces. An identifier with a blank may need quotes
there or not. -/
inductive Typing : (before kept typed : List Char) → (quotable : Bool) → Prop
  /-- Nothing is. -/
  | nothing {before : List Char} (hnone : inProgress? before = none) : Typing before before [] true
  /-- The last identifier of a pool is, with its quotes. It needs quotes of its
  own unless a quote is open before it. -/
  | identifier {before kept ids typed : List Char} {token : Token} {pool : PoolToken}
      (htoken : inProgress? before = some token) (hpool : token.kind = .pool pool)
      (hlist : pool.idList.toList = ids ++ typed)
      (hids : ∀ c ∈ ids.getLast?, isSeparator c = true)
      (htyped : ∀ c ∈ typed, isSeparator c = false) (hbefore : before = kept ++ typed) :
      Typing before kept typed (ids.count '"' % 2 = 0)
  /-- Any other token is, as a whole. It needs no quotes. -/
  | token {before kept typed : List Char} {token : Token}
      (htoken : inProgress? before = some token) (hkind : ∀ pool, token.kind ≠ .pool pool)
      (hstart : width kept = token.span.start) (hbefore : before = kept ++ typed) :
      Typing before kept typed false

/-- **A stub is what is being typed.** -/
theorem typing_stub (before : List Char) :
    Typing before (Stub.ofChars before).kept (Stub.ofChars before).typed
      (Stub.ofChars before).quotable := by
  cases htoken : inProgress? before with
  | none =>
    rw [Stub.ofChars, htoken]
    exact .nothing htoken
  | some token =>
    by_cases hpool : ∃ pool, token.kind = .pool pool
    · obtain ⟨pool, hpool⟩ := hpool
      obtain ⟨lead, head, ids, typed, prior, h⟩ := exists_typedPool htoken hpool
      have hbefore : before = lead ++ (head ++ ids) ++ typed := by
        rw [h.around.text]
        simp
      rw [h.stub, ← decide_even_count]
      exact .identifier htoken hpool (by rw [h.list, String.toList_ofList]) h.separated h.plain
        hbefore
    · have hkind : ∀ pool, token.kind ≠ .pool pool := fun pool hkind => hpool ⟨pool, hkind⟩
      obtain ⟨lead, piece, prior, haround⟩ := exists_around_inProgress htoken
      rw [stub_of_not_pool haround htoken hkind]
      refine .token htoken hkind ?_ (by simpa using haround.text)
      rw [haround.span_start, Nat.zero_add]

/-- An identifier as it is put into a line. It is put in quotes if it has to be,
and a space follows it unless it ends with `*` or `:`. -/
def shownId (quotable : Bool) (id : String) : List Char :=
  (if quotable && id.toList.any isBlank then '"' :: (id.toList ++ ['"']) else id.toList) ++
  if id.toList.getLast? = some '*' ∨ id.toList.getLast? = some ':' then [] else [' ']

/-- What is inserted for a candidate. -/
theorem inserted_eq_shownId (quotable : Bool) (candidate : Candidate) :
    Edit.inserted quotable candidate.id (!candidate.expectsMore) =
      shownId quotable candidate.id := by
  have hspace : (if (!candidate.expectsMore) = true then [' '] else []) =
      if candidate.id.toList.getLast? = some '*' ∨ candidate.id.toList.getLast? = some ':' then []
      else [' '] := by
    rw [Candidate.expectsMore]
    cases candidate.id.toList.getLast? with
    | none => rfl
    | some c => by_cases hstar : c = '*' <;> by_cases hcolon : c = ':' <;> simp [hstar, hcolon]
  rw [Edit.inserted_append_space, Edit.inserted_unspaced, shownId, hspace]
  simp [hasBlank]

/-! ## Locality -/

/-- **Completion is local to the cursor.** What is offered hangs on the text
before the cursor alone, and so does what a picked candidate replaces and what
it puts there: of the line before the cursor everything is kept but what is
being typed, and of the line after it everything. A cycle that is started at
the cursor goes back to the same text being typed. -/
theorem completion_is_local (context : Context) (before : List Char) :
    (∃ offered, ∀ text cursor after, text.toList = before ++ after →
      StandsAfter before after cursor → context.suggest text cursor = offered) ∧
    ∃ kept typed quotable, Typing before kept typed quotable ∧
      ∀ text cursor after, text.toList = before ++ after → StandsAfter before after cursor →
        (∀ candidate : Candidate, candidate.selectable = true →
          Edit.pick text cursor candidate =
            ⟨String.ofList (kept ++ shownId quotable candidate.id ++ after),
              width (kept ++ shownId quotable candidate.id)⟩) ∧
        ∀ candidates, (Cycle.ofText text cursor candidates).stub = String.ofList typed := by
  have hcut {text : String} {cursor : Nat} {after : List Char}
      (htext : text.toList = before ++ after) (hcursor : StandsAfter before after cursor) :
      cut text.toList cursor = (before, after) := by
    rw [htext, cut_of_standsAfter hcursor]
  refine ⟨⟨context.suggestAfter before, fun text cursor after htext hcursor => ?_⟩,
    _, _, _, typing_stub before, fun text cursor after htext hcursor => ⟨?_, ?_⟩⟩
  · rw [Context.suggest, hcut htext hcursor]
  · intro candidate hpick
    rw [Edit.pick_eq (hcut htext hcursor) hpick, inserted_eq_shownId]
    rfl
  · intro candidates
    rw [Cycle.ofText, hcut htext hcursor]

/-- A cursor inside a character, and one at the end of the same word before other
tokens. -/
theorem completion_is_local_inside :
    StandsAfter "2*Wires+K".toList "é 1:30".toList 10 ∧
      ({} : Context).suggest "2*Wires+Ké 1:30" 10 = ({} : Context).suggest "2*Wires+K 5X" 9 := by
  have hinside : StandsAfter "2*Wires+K".toList "é 1:30".toList 10 :=
    ⟨by decide, fun c hc => by cases hc; decide⟩
  have hbefore : StandsAfter "2*Wires+K".toList " 5X".toList 9 :=
    ⟨by decide, fun c hc => by cases hc; decide⟩
  obtain ⟨offered, hoffered⟩ := (completion_is_local {} "2*Wires+K".toList).1
  refine ⟨hinside, ?_⟩
  rw [hoffered _ _ _ (by decide) hinside, hoffered _ _ _ (by decide) hbefore]

end MissionText
