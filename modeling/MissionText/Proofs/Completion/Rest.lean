import MissionText.Proofs.Completion.Offered
import MissionText.Proofs.Completion.Typed
/-!
# The rest of the line

What picking a candidate does to the tokens after the one in progress. They are
read as before and only move, **exactly if** no quote is left open where they
begin, or nothing but blanks is left of the line (`keepsRest_iff`). What is
typed is replaced with its quotes, while only the quotes before it decide
whether the identifier gets quotes of its own. So inside quotes one can be left
open if those that are replaced are not in pairs, and outside quotes if one
follows the cursor, and not otherwise (`blank_or_closed_of_paired`).
-/

namespace MissionText

open Text Token Scan

variable {start cursor : Nat} {text : String} {id : String}
  {cs front tail before after lead piece head kept typed extra rest : List Char}
  {tokens prior settled later more : List Token} {token whole : Token} {pool : PoolToken}
  {context : Context} {candidate : Candidate}

/-! ## Layouts without an open quote -/

namespace Scan

/-- Without quotes none is left open. -/
theorem Laid.closed_of_plain (h : Laid start cs tokens) (hplain : ∀ c ∈ cs, isQuote c = false) :
    ∀ token ∈ tokens, token.isOpen = false := by
  induction h with
  | blank => simp
  | @token start gap piece rest tokens hgap hpiece hrest hopen hlaid ih =>
    intro token htoken
    rcases List.mem_cons.1 htoken with rfl | htoken
    · cases hrun : TokenKind.ofRun? (piece.takeWhile isInk) with
      | none =>
        rw [hpiece.isOpen_ofPiece_pool hrun]
        exact quotedAfter_of_plain fun c hc => hplain c (by simp [hc])
      | some kind => exact isOpen_ofPiece_of_run hrun _
    · exact ih (fun c hc => hplain c (by simp [hc])) token htoken

/-- **A pool that begins balanced leaves no quote open** if no quotes follow. -/
theorem exists_laid_closed (hhead : ∃ c ∈ (front ++ tail).head?, isBlank c = false)
    (hrun : TokenKind.ofRun? ((front ++ tail).takeWhile isInk) = none) (hfront : Balanced front)
    (htail : ∀ c ∈ tail, isQuote c = false) (start : Nat) :
    ∃ tokens, Laid start (front ++ tail) tokens ∧ ∀ token ∈ tokens, token.isOpen = false := by
  obtain ⟨c, hc, hink⟩ := hhead
  obtain ⟨more, hmore⟩ := List.head?_eq_some_iff.1 hc
  -- the piece is the balanced part and what a quoted run takes in after it
  have htailSplit := quotedRun_append false tail
  have hstop := quotedRun_stop false tail
  have hunbroken := unbroken_quotedRun false tail
  generalize (quotedRun false tail).1 = run at *
  generalize (quotedRun false tail).2 = rest at *
  subst htailSplit
  have hrest : AtBoundary rest := by
    rcases hstop with rfl | hstop
    · exact atBoundary_nil
    · exact hstop.1
  rw [← List.append_assoc] at hmore hrun ⊢
  have hne : front ++ run ≠ [] := by
    intro hnil
    rw [hnil, List.nil_append] at hmore
    rw [hmore, atBoundary_cons, hink] at hrest
    cases hrest
  have hpool : TokenKind.ofRun? ((front ++ run).takeWhile isInk) = none := by
    rwa [takeWhile_append_of_head hrest.isInk_head] at hrun
  have hpiece : IsPiece (front ++ run) := by
    refine (isPiece_iff_of_pool hpool).2 ⟨head_of_append hink hmore.symm hne, ?_⟩
    rw [unbroken_append, hfront.closed]
    exact ⟨hfront.unbroken, hunbroken⟩
  have hclosed (s : Nat) : (ofPiece s (front ++ run)).isOpen = false := by
    rw [hpiece.isOpen_ofPiece_pool hpool, quotedAfter_append, hfront.closed]
    exact quotedAfter_of_plain fun c hc => htail c (List.mem_append_left _ hc)
  obtain ⟨tokens, hlaid⟩ := exists_laid (start + width (front ++ run)) rest
  refine ⟨_, .of_piece hpiece hrest (.inr (hclosed 0)) hlaid, fun token htoken => ?_⟩
  rcases List.mem_cons.1 htoken with rfl | htoken
  · exact hclosed start
  · exact hlaid.closed_of_plain (fun c hc => htail c (List.mem_append_right _ hc)) token htoken

end Scan

/-! ## The token of the line -/

/-- The piece in progress grows into that of the token of the line. -/
theorem exists_grown_around
    (h : Around 0 before (ofChars before).tokens token lead piece [] prior [])
    (hwhole : whole ∈ (ofChars (before ++ after)).tokens)
    (hstart : whole.span.start = token.span.start) :
    ∃ extra rest prior later, after = extra ++ rest ∧
      Around 0 (before ++ after) (ofChars (before ++ after)).tokens whole lead (piece ++ extra) rest
        prior later := by
  obtain ⟨lead', longer, rest, prior', later, haround⟩ :=
    (laid_ofChars (before ++ after)).exists_around hwhole
  have hbefore : before = lead ++ piece := by simpa using h.text
  -- both begin at the same offset of the same text
  have hwidth : width lead' = width lead := by
    rw [haround.span_start, h.span_start] at hstart
    simpa using hstart
  have htext : lead ++ (piece ++ after) = lead' ++ (longer ++ rest) := by
    rw [← haround.text, hbefore, List.append_assoc]
  have hcut := congrArg (cut · (width lead)) htext
  simp only [cut_width_append] at hcut
  rw [← hwidth, cut_width_append, Prod.mk.injEq] at hcut
  obtain ⟨rfl, hpieces⟩ := hcut
  -- reading stops at one place, and not before the end of the piece in progress
  obtain ⟨longer', rest', hsplit, hlonger', hrest', hopen', hle⟩ := h.isPiece.exists_longer after
  have hread := haround.isPiece.read_append haround.boundary haround.closed 0
  rw [← hpieces, hsplit, hlonger'.read_append hrest' hopen'] at hread
  obtain rfl : rest' = rest := congrArg Prod.snd hread
  obtain rfl : longer' = longer := by
    have happ : longer' ++ rest' = longer ++ rest' := by rw [← hsplit, hpieces]
    exact List.append_cancel_right happ
  obtain ⟨extra, rfl⟩ : ∃ extra, longer' = piece ++ extra := by
    rcases List.append_eq_append_iff.1 hpieces with ⟨extra, hextra, -⟩ | ⟨extra, hextra, -⟩
    · exact ⟨extra, hextra⟩
    · have := congrArg width hextra
      have hlength := length_le_width extra
      rw [width_append] at this
      obtain rfl : extra = [] := List.eq_nil_of_length_eq_zero (by omega)
      exact ⟨[], by simpa using hextra.symm⟩
  refine ⟨extra, rest', prior', later, ?_, haround⟩
  rw [List.append_assoc] at hpieces
  exact List.append_cancel_left hpieces

/-! ## What picking keeps -/

/-- **The rest of a line is read as before an edit**: the tokens from some
offset of the line on are the same, and move along with the cursor. -/
def Edit.KeepsRest (edit : Edit) (text : String) (cursor stop : Nat) : Prop :=
  (ofText edit.text).tokens.filter (edit.cursor + (stop - cursor) ≤ ·.span.start) =
    ((ofText text).tokens.filter (stop ≤ ·.span.start)).map (Token.moved cursor edit.cursor)

instance (edit : Edit) (text : String) (cursor stop : Nat) :
    Decidable (edit.KeepsRest text cursor stop) :=
  inferInstanceAs (Decidable (_ = _))

section

variable {shown : List Char}
  (h : Around 0 before (ofChars before).tokens token lead piece [] prior [])
  (hgrown : Around 0 cs tokens whole lead (piece ++ extra) rest settled later)

include h hgrown

/-- The token of the line ends where the rest begins. -/
theorem stop_of_grown : whole.span.stop = width (before ++ extra) := by
  have hbefore : before = lead ++ piece := by simpa using h.text
  rw [hgrown.span_stop, hbefore]
  simp only [width_append, Nat.zero_add, Nat.add_assoc]

theorem cut_rest : (cut (before ++ (extra ++ rest)) whole.span.stop).2 = rest := by
  rw [stop_of_grown h hgrown, ← List.append_assoc, cut_width_append]

/-- What follows the cursor in the token of the line. -/
theorem follows_grown : (cut (extra ++ rest) (whole.span.stop - width before)).1 = extra := by
  rw [stop_of_grown h hgrown, width_append, Nat.add_sub_cancel_left, cut_width_append]

/-- The text of an edit up to where the rest begins. -/
theorem cut_edit : (cut (shown ++ (extra ++ rest))
    (width shown + (whole.span.stop - width before))).1 = shown ++ extra := by
  rw [stop_of_grown h hgrown, width_append before, Nat.add_sub_cancel_left, ← width_append,
    ← List.append_assoc, cut_width_append]

end

/-- **Picking keeps the rest of the line** exactly if the rest is blank or no
quote is left open before it. -/
theorem keepsRest_iff
    (hcut : cut text.toList cursor = (before, after)) (htoken : inProgress? before = some token)
    (hwhole : whole ∈ (ofText text).tokens) (hstart : whole.span.start = token.span.start)
    (hpick : candidate.selectable = true) :
    (Edit.pick text cursor candidate).KeepsRest text (width before) whole.span.stop ↔
      Blank (cut text.toList whole.span.stop).2 ∨
      ∀ last ∈ (ofChars (cut (Edit.pick text cursor candidate).text.toList
          ((Edit.pick text cursor candidate).cursor +
            (whole.span.stop - width before))).1).tokens.getLast?,
        last.isOpen = false := by
  have htext := append_of_cut_eq hcut
  obtain ⟨lead, piece, prior, haround⟩ := exists_around_inProgress htoken
  rw [ofText, ← htext] at hwhole
  obtain ⟨extra, rest, settled, later, rfl, hgrown⟩ := exists_grown_around haround hwhole hstart
  have hstop := stop_of_grown haround hgrown
  have hlater : Laid whole.span.stop rest later := by
    rw [hgrown.span_stop]
    exact hgrown.follows
  have hedit := Edit.pick_eq hcut hpick
  generalize (Stub.ofChars before).kept ++ Edit.inserted (Stub.ofChars before).quotable
    candidate.id (!candidate.expectsMore) = shown at hedit
  have hextra : whole.span.stop - width before = width extra := by
    rw [hstop, width_append, Nat.add_sub_cancel_left]
  have hmoved : Token.moved (width before) (width shown) =
      Token.moved whole.span.stop (width (shown ++ extra)) := by
    rw [hstop, width_append, width_append, moved_add]
  have hassoc : shown ++ (extra ++ rest) = shown ++ extra ++ rest :=
    (List.append_assoc ..).symm
  rw [Edit.KeepsRest, hedit]
  simp only [Edit.ofParts, ofText, String.toList_ofList, ← htext, hgrown.filter_follows, hmoved,
    cut_edit haround hgrown, cut_rest haround hgrown]
  simp only [hextra, ← width_append, hassoc]
  exact tokens_after_iff hlater hgrown.boundary

/-! ## When no quote is left open -/

/-- A token in progress that is no pool is replaced whole, and nothing is put
in quotes in its place. -/
theorem stub_of_not_pool
    (h : Around 0 before (ofChars before).tokens token lead piece [] prior [])
    (htoken : inProgress? before = some token) (hkind : ∀ pool, token.kind ≠ .pool pool) :
    Stub.ofChars before = ⟨lead, piece, false⟩ := by
  have hbefore : before = lead ++ piece := by simpa using h.text
  have hstart : Stub.startOf token = (width lead, false) := by
    have hspan : token.span.start = width lead := by
      rw [h.span_start, Nat.zero_add]
    rw [Stub.startOf]
    split
    · rename_i pool hpool
      exact absurd hpool (hkind pool)
    · rw [hspan]
  rw [Stub.ofChars, htoken]
  simp only [hstart]
  rw [hbefore, cut_width_append]

/-- The quotes of the token before the identifier being typed are those of the
finished part of its list. -/
theorem TypedPool.quotedAfter_kept
    (h : TypedPool before lead head kept typed prior token pool) :
    quotedAfter false (cut (Stub.ofChars before).kept token.span.start).2 =
      quotedAfter false kept := by
  rw [h.stub, h.around.span_start, Nat.zero_add, cut_width_append, quotedAfter_append,
    h.balanced.closed]

/-- What takes the place of an identifier in a pool leaves no quote open. -/
theorem TypedPool.exists_laid_closed
    (h : TypedPool before lead head kept typed prior token pool)
    (hkept : quotedAfter false kept = false) (hid : ∀ c ∈ id.toList, isQuote c = false)
    (htail : ∀ c ∈ tail, isQuote c = false) (start : Nat) :
    ∃ tokens, Laid start (head ++ (kept ++ (Edit.inserted true id false ++ tail))) tokens ∧
      ∀ token ∈ tokens, token.isOpen = false := by
  have hshown : Balanced (Edit.inserted true id false) :=
    ⟨(Edit.unbroken_inserted hid).1, (Edit.unbroken_inserted hid).2⟩
  have hbalanced : Balanced (head ++ (kept ++ Edit.inserted true id false)) :=
    h.balanced.append (.append ⟨h.unbroken_kept, hkept⟩ hshown)
  by_cases hne : head ++ kept = []
  · obtain ⟨rfl, rfl⟩ := List.append_eq_nil_iff.1 hne
    rw [List.nil_append, List.nil_append]
    by_cases hblank : hasBlank id = true
    · -- the identifier is put in quotes, and begins with one
      have hshown : Edit.inserted true id false = '"' :: (id.toList ++ ['"']) := by
        rw [Edit.inserted_unspaced, hblank]
        rfl
      rw [hshown] at hbalanced ⊢
      exact Scan.exists_laid_closed ⟨'"', rfl, by decide⟩ TokenKind.ofRun?_quote hbalanced htail
        start
    · have hshown : Edit.inserted true id false = id.toList := by
        rw [Edit.inserted_unspaced, if_neg (by simpa using hblank)]
      have hplain : ∀ c ∈ id.toList ++ tail, isQuote c = false :=
        List.forall_mem_append.2 ⟨hid, htail⟩
      obtain ⟨tokens, hlaid⟩ := exists_laid start (id.toList ++ tail)
      rw [hshown]
      exact ⟨tokens, hlaid, hlaid.closed_of_plain hplain⟩
  · have hassoc : head ++ (kept ++ (Edit.inserted true id false ++ tail)) =
        head ++ (kept ++ Edit.inserted true id false) ++ tail := by
      simp
    have hhead := h.head_of_ne_nil hne (Edit.inserted true id false ++ tail)
    have hrun := h.isPool_of_ne_nil hne (Edit.inserted true id false ++ tail)
    rw [hassoc] at hhead hrun ⊢
    exact Scan.exists_laid_closed hhead hrun hbalanced htail start

/-- Nothing is left open if nothing is in what takes the place of a piece. -/
theorem Scan.Around.closed_of_replace
    (h : Around 0 cs tokens token lead piece after prior later)
    (hmore : Laid (0 + width lead) front more) (hclosed : ∀ token ∈ more, token.isOpen = false) :
    ∀ last ∈ (ofChars (lead ++ front)).tokens.getLast?, last.isOpen = false := by
  intro last hlast
  rw [ofChars_eq_of_laid (h.replace hmore)] at hlast
  rcases List.mem_append.1 (List.mem_of_mem_getLast? hlast) with hprior | hmore
  · exact h.settled last hprior
  · exact hclosed last hmore

/-- **The quotes stay in pairs** when a stub of the token at an offset is
replaced and some text follows it in the token. Inside quotes those that are
replaced are in pairs, and outside quotes none follow. -/
structure Stub.Paired (stub : Stub) (start : Nat) (follows : List Char) : Prop where
  inside : quotedAfter false (cut stub.kept start).2 = true →
    quotedAfter false stub.typed = false
  outside : quotedAfter false (cut stub.kept start).2 = false →
    ∀ c ∈ follows, isQuote c = false

theorem Edit.plain_space (spaced : Bool) :
    ∀ c ∈ if spaced then [' '] else [], isQuote c = false := by
  cases spaced with
  | false => nofun
  | true => exact List.forall_mem_singleton.2 rfl

section

variable {spaced : Bool} (hid : ∀ c ∈ id.toList, isQuote c = false)

include hid

/-- Inside quotes, and in the place of a whole token, no quotes are inserted. -/
theorem Edit.plain_inserted : ∀ c ∈ inserted false id spaced, isQuote c = false := by
  rw [inserted_append_space, inserted_unspaced, Bool.false_and, if_neg Bool.false_ne_true]
  exact List.forall_mem_append.2 ⟨hid, plain_space spaced⟩

/-- In the place of a token that is no pool no quote is left open, if none
follows. -/
theorem closed_of_not_pool
    (h : Around 0 before (ofChars before).tokens token lead piece [] prior [])
    (htoken : inProgress? before = some token) (hkind : ∀ pool, token.kind ≠ .pool pool)
    (hextra : ∀ c ∈ extra, isQuote c = false) :
    ∀ last ∈ (ofChars ((Stub.ofChars before).kept ++
        Edit.inserted (Stub.ofChars before).quotable id spaced ++ extra)).tokens.getLast?,
      last.isOpen = false := by
  rw [stub_of_not_pool h htoken hkind]
  have hshown : ∀ c ∈ Edit.inserted false id spaced ++ extra, isQuote c = false :=
    List.forall_mem_append.2 ⟨Edit.plain_inserted hid, hextra⟩
  obtain ⟨more, hmore⟩ := exists_laid (0 + width lead) (Edit.inserted false id spaced ++ extra)
  have hclosed := h.closed_of_replace hmore (hmore.closed_of_plain hshown)
  simpa using hclosed

namespace TypedPool

variable (h : TypedPool before lead head kept typed prior token pool)

include h

/-- In the place of an identifier outside quotes no quote is left open, if none
follows. -/
theorem closed_outside (houtside : quotedAfter false kept = false)
    (hextra : ∀ c ∈ extra, isQuote c = false) :
    ∀ last ∈ (ofChars ((Stub.ofChars before).kept ++
        Edit.inserted (Stub.ofChars before).quotable id spaced ++ extra)).tokens.getLast?,
      last.isOpen = false := by
  rw [h.stub]
  have htail : ∀ c ∈ (if spaced then [' '] else []) ++ extra, isQuote c = false :=
    List.forall_mem_append.2 ⟨Edit.plain_space spaced, hextra⟩
  obtain ⟨more, hmore, hopen⟩ := h.exists_laid_closed houtside hid htail (0 + width lead)
  have hall := h.around.closed_of_replace hmore hopen
  rw [houtside, Edit.inserted_append_space]
  simpa using hall

/-- **In the place of an identifier inside quotes** what follows is read in the
same token as before, if the quotes that are replaced are in pairs. -/
theorem closed_inside
    (hgrown : Around 0 cs tokens whole lead (head ++ (kept ++ typed) ++ extra) rest settled later)
    (hrest : rest ≠ []) (hinside : quotedAfter false kept = true)
    (htyped : quotedAfter false typed = false) :
    ∀ last ∈ (ofChars ((Stub.ofChars before).kept ++
        Edit.inserted (Stub.ofChars before).quotable id spaced ++ extra)).tokens.getLast?,
      last.isOpen = false := by
  have hne : head ++ kept ≠ [] := by
    intro hnil
    rw [(List.append_eq_nil_iff.1 hnil).2] at hinside
    cases hinside
  -- the rest of the token is read inside quotes, as before, and closes them
  have hassoc : head ++ (kept ++ typed) ++ extra = head ++ (kept ++ (typed ++ extra)) := by
    simp
  have hpiece := hgrown.isPiece
  have hclosed := hgrown.closed.resolve_left hrest
  have hpool := h.isPool_of_ne_nil hne (typed ++ extra)
  rw [hassoc] at hpiece hclosed
  have hquotes : quotedAfter true typed = true := by
    rw [quotedAfter_eq_bne, htyped]
    rfl
  rw [hpiece.isOpen_ofPiece_pool hpool, quotedAfter_append, h.balanced.closed, quotedAfter_append,
    hinside, quotedAfter_append, hquotes] at hclosed
  have hunbroken := ((isPiece_iff_of_pool hpool).1 hpiece).2
  rw [unbroken_append, h.balanced.closed, unbroken_append, hinside, unbroken_append,
    hquotes] at hunbroken
  obtain ⟨hhead, hkept, -, hextra⟩ := hunbroken
  -- so the identifier and the space after it only make the token longer
  have hplain : ∀ c ∈ Edit.inserted false id spaced, isQuote c = false := Edit.plain_inserted hid
  have hshown : quotedAfter true (Edit.inserted false id spaced) = true :=
    quotedAfter_of_plain hplain
  have hpool' := h.isPool_of_ne_nil hne (Edit.inserted false id spaced ++ extra)
  have hpiece' : IsPiece (head ++ (kept ++ (Edit.inserted false id spaced ++ extra))) := by
    refine (isPiece_iff_of_pool hpool').2 ⟨h.head_of_ne_nil hne _, ?_⟩
    rw [unbroken_append, h.balanced.closed, unbroken_append, hinside, unbroken_append, hshown]
    exact ⟨hhead, hkept, unbroken_of_plain hplain, hextra⟩
  have hall := h.around.closed_of_replace (laid_piece hpiece' _) fun token htoken => by
    obtain rfl := List.mem_singleton.1 htoken
    rw [hpiece'.isOpen_ofPiece_pool hpool', quotedAfter_append, h.balanced.closed,
      quotedAfter_append, hinside, quotedAfter_append, hshown]
    exact hclosed
  rw [h.stub, hinside]
  simpa using hall

end TypedPool

end

/-- **No quote is left open if they stay in pairs**, or else nothing is left to
be read. -/
theorem blank_or_closed_of_paired (hid : ∀ c ∈ candidate.id.toList, isQuote c = false)
    (hcut : cut text.toList cursor = (before, after)) (htoken : inProgress? before = some token)
    (hwhole : whole ∈ (ofText text).tokens) (hstart : whole.span.start = token.span.start)
    (hpick : candidate.selectable = true)
    (hpaired : (Stub.ofChars before).Paired token.span.start
      (cut after (whole.span.stop - width before)).1) :
    Blank (cut text.toList whole.span.stop).2 ∨
      ∀ last ∈ (ofChars (cut (Edit.pick text cursor candidate).text.toList
          ((Edit.pick text cursor candidate).cursor +
            (whole.span.stop - width before))).1).tokens.getLast?,
        last.isOpen = false := by
  have htext := append_of_cut_eq hcut
  rw [ofText, ← htext] at hwhole
  rw [Edit.pick_eq hcut hpick, or_iff_not_imp_left]
  simp only [Edit.ofParts, String.toList_ofList]
  by_cases hpool : ∃ pool, token.kind = .pool pool
  · obtain ⟨pool, hpool⟩ := hpool
    obtain ⟨lead, head, kept, typed, prior, htyped⟩ := exists_typedPool htoken hpool
    obtain ⟨extra, rest, settled, later, rfl, hgrown⟩ :=
      exists_grown_around htyped.around hwhole hstart
    have hquoted := htyped.quotedAfter_kept
    rw [← htext, cut_rest htyped.around hgrown, cut_edit htyped.around hgrown]
    intro hblank
    cases hkept : quotedAfter false kept with
    | false =>
      have hextra := hpaired.outside (hquoted.trans hkept)
      rw [follows_grown htyped.around hgrown] at hextra
      exact htyped.closed_outside hid hkept hextra
    | true =>
      have htypedPaired := hpaired.inside (hquoted.trans hkept)
      rw [htyped.stub] at htypedPaired
      refine htyped.closed_inside hid hgrown ?_ hkept htypedPaired
      rintro rfl
      exact hblank nofun
  · obtain ⟨lead, piece, prior, haround⟩ := exists_around_inProgress htoken
    obtain ⟨extra, rest, settled, later, rfl, hgrown⟩ :=
      exists_grown_around haround hwhole hstart
    have hkind : ∀ pool, token.kind ≠ .pool pool := fun pool hkind => hpool ⟨pool, hkind⟩
    have hstub := stub_of_not_pool haround htoken hkind
    -- the whole token is replaced, so no quote stands before what is
    have hcutLead := cut_width_append lead []
    rw [List.append_nil] at hcutLead
    have hempty :
        quotedAfter false (cut (Stub.ofChars before).kept token.span.start).2 = false := by
      rw [hstub, haround.span_start, Nat.zero_add, hcutLead]
      rfl
    have hextra := hpaired.outside hempty
    rw [follows_grown haround hgrown] at hextra
    rw [← htext, cut_rest haround hgrown, cut_edit haround hgrown]
    intro _
    exact closed_of_not_pool hid haround htoken hkind hextra

/-! ## Picking and the rest of the line -/

/-- **What picking does to the rest of a line.** The tokens after the one in
progress stay as they are, but for their places, exactly if they are none or no
quote is left open before them; and none is left open if the quotes of the token
stay in pairs. -/
theorem picking_keeps_rest
    (hcut : cut text.toList cursor = (before, after)) (htoken : inProgress? before = some token)
    (hcandidate : candidate ∈ context.suggest text cursor) (hpick : candidate.selectable = true) :
    (∃ whole ∈ (ofText text).tokens, whole.span.start = token.span.start) ∧
    ∀ whole ∈ (ofText text).tokens, whole.span.start = token.span.start →
      ((Edit.pick text cursor candidate).KeepsRest text (width before) whole.span.stop ↔
        Blank (cut text.toList whole.span.stop).2 ∨
        ∀ last ∈ (ofChars (cut (Edit.pick text cursor candidate).text.toList
            ((Edit.pick text cursor candidate).cursor +
              (whole.span.stop - width before))).1).tokens.getLast?,
          last.isOpen = false) ∧
      (context.Unquoted →
        (Stub.ofChars before).Paired token.span.start
          (cut after (whole.span.stop - width before)).1 →
        (Edit.pick text cursor candidate).KeepsRest text (width before) whole.span.stop) := by
  constructor
  · have hcontinued := continued_ofChars before after
    rw [append_of_cut_eq hcut] at hcontinued
    obtain ⟨hlast, hstop⟩ := inProgress?_eq_some_iff.1 htoken
    obtain ⟨whole, hwhole, hstart, -⟩ := hcontinued.typed token hlast hstop
    exact ⟨whole, hwhole, hstart⟩
  · intro whole hwhole hstart
    have hiff := keepsRest_iff hcut htoken hwhole hstart hpick
    refine ⟨hiff, fun hunquoted hpaired => hiff.2 ?_⟩
    rw [Context.suggest, hcut] at hcandidate
    exact blank_or_closed_of_paired (hunquoted.suggestAfter hcandidate hpick) hcut htoken hwhole
      hstart hpick hpaired

/-- A candidate for the second identifier of a list in quotes, picked before
the last of them. -/
theorem picking_keeps_rest_keypad :
    (Edit.pick "\"Wires,Ke\" 1:30" 9 (.byId "Keypad" "Keypad" 2)).KeepsRest
      "\"Wires,Ke\" 1:30" 9 10 := by
  have hcut : cut "\"Wires,Ke\" 1:30".toList 9 = ("\"Wires,Ke".toList, "\" 1:30".toList) := by
    decide
  have htoken : inProgress? "\"Wires,Ke".toList =
      some ⟨⟨0, 9⟩, .pool ⟨none, "\"Wires,Ke", 0⟩⟩ := by decide +kernel
  have hcandidate : Candidate.byId "Keypad" "Keypad" 2 ∈
      ({} : Context).suggest "\"Wires,Ke\" 1:30" 9 := by decide +kernel
  have hwhole : (⟨⟨0, 10⟩, .pool ⟨none, "\"Wires,Ke\"", 0⟩⟩ : Token) ∈
      (ofText "\"Wires,Ke\" 1:30").tokens := by decide +kernel
  have hinside : quotedAfter false (cut (Stub.ofChars "\"Wires,Ke".toList).kept 0).2 = true := by
    decide +kernel
  have hpaired : (Stub.ofChars "\"Wires,Ke".toList).Paired 0
      (cut "\" 1:30".toList (10 - width "\"Wires,Ke".toList)).1 := by
    refine ⟨fun _ => by decide +kernel, fun houtside => ?_⟩
    rw [hinside] at houtside
    cases houtside
  exact ((picking_keeps_rest hcut htoken hcandidate rfl).2 _ hwhole rfl).2
    Context.unquoted_vanilla hpaired

/-- **A quote that is replaced can leave one open**, which takes in the rest of
the line. Here the second identifier of a list in quotes is replaced with the
quote after it. -/
theorem picking_may_lose_rest :
    ¬ ∀ (context : Context) (text : String) (cursor : Nat) (before after : List Char)
        (token whole : Token) (candidate : Candidate), context.Unquoted →
      cut text.toList cursor = (before, after) → inProgress? before = some token →
      candidate ∈ context.suggest text cursor → candidate.selectable = true →
      whole ∈ (ofText text).tokens → whole.span.start = token.span.start →
      (Edit.pick text cursor candidate).KeepsRest text (width before) whole.span.stop := by
  intro hall
  have hlost : ¬ (Edit.pick "\"Wires,Ke\" 1:30" 10 (.byId "Keypad" "Keypad" 2)).KeepsRest
      "\"Wires,Ke\" 1:30" 10 10 := by
    decide +kernel
  refine hlost (hall {} "\"Wires,Ke\" 1:30" 10 "\"Wires,Ke\"".toList " 1:30".toList
    ⟨⟨0, 10⟩, .pool ⟨none, "\"Wires,Ke\"", 0⟩⟩ ⟨⟨0, 10⟩, .pool ⟨none, "\"Wires,Ke\"", 0⟩⟩ _
    Context.unquoted_vanilla (by decide) (by decide +kernel) (by decide +kernel) rfl
    (by decide +kernel) rfl)

end MissionText
