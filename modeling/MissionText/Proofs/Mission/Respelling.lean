import Mathlib.Data.List.Forall2
import MissionText.Proofs.Mission.Parsing
import MissionText.Proofs.Pool.Segments
import MissionText.Proofs.Pool.Written
import MissionText.Proofs.Token.Spelling
/-!
# Respelling — what may be exchanged in a line

A line may be respelled within its tokens: the letters of a time, a strike limit
or a setting in the other case, the one sign after a count for the other, and the
one separator for the other in any list that refers to no profile. Character by
character this is `Respelled`. The layout of a line is kept, token by token, and
each token fills the same slots and draws the same complaints as before
(`Laid.respelled`), so the mission stays the same, or what is wrong with it.
-/

namespace MissionText

open Text Token Scan

variable {context : Context} {draft : Draft} {list other : List Char} {pool : PoolToken}
  {cs ds as bs piece respelt : List Char} {start offset : Nat} {token : Token}
  {all tokens : List Token} {c d : Char}

/-! ## Settings in any case -/

theorem FactoryMode.ofKeyword?_lowercase (value : String) :
    ofKeyword? (String.ofList (value.toList.map Char.toLower)) = ofKeyword? value := by
  simp only [ofKeyword?, sameKeyword, String.toList_ofList, map_toLower_map]

/-- A setting has a value in lowercase if it has one. -/
theorem SettingToken.value?_lowercase (setting : SettingToken) :
    setting.lowercase.value? =
      setting.value?.map fun value => String.ofList (value.toList.map Char.toLower) := by
  rw [value?, value?, lowercase]
  cases setting.rawValue with
  | none => rfl
  | some value =>
    by_cases hempty : value = ""
    · subst hempty
      rfl
    · simp [Option.filter, hempty]

/-- **A draft takes in a token in any case alike.** -/
theorem Draft.add_lowercase (context : Context) (draft : Draft) (span : Span) (kind : TokenKind) :
    add context draft ⟨span, kind.lowercase⟩ = add context draft ⟨span, kind⟩ := by
  cases kind with
  | setting setting =>
    have hnumber (value : String) :
        settingNumber? (String.ofList (value.toList.map Char.toLower)) = settingNumber? value := by
      rw [settingNumber?, settingNumber?, String.toList_ofList, unsigned?_lowercase]
    have hvalue := setting.value?_lowercase
    have hname : setting.lowercase.name = setting.name := rfl
    simp only [add, TokenKind.lowercase, addSetting, hvalue, hname]
    cases setting.name <;> cases setting.value? <;>
      simp [hnumber, addFactory, FactoryMode.ofKeyword?_lowercase]
  | _ => rfl

/-! ## Lists with either separator -/

/-- A list is taken apart in the same way at commas and at plus signs. -/
theorem identifiersOf_comma (list : List Char) :
    identifiersOf (list.map comma) = identifiersOf list := by
  have hplain {cs : List Char} (hcs : ∀ c ∈ cs, isSeparator c = false) : cs.map comma = cs :=
    map_eq_self fun c hc => comma_of_not_isSeparator (hcs c hc)
  induction list using separated_induction with
  | plain front hfront => rw [hplain hfront]
  | append front sep rest hfront hsep ih =>
    have hcomma : isSeparator (comma sep) = true := by rw [isSeparator_comma, hsep]
    rw [List.map_append, List.map_cons, hplain hfront, identifiersOf_append hcomma,
      identifiersOf_append hsep, ih]

/-- A text that holds a separator is no keyword, so the separators of a text do not
matter to what it begins with. -/
theorem sameKeyword_comma {keyword : List Char} (hkeyword : ∀ c ∈ keyword, isSeparator c = false)
    (cs : List Char) : sameKeyword keyword (cs.map comma) = sameKeyword keyword cs := by
  have hplain {ds : List Char} (h : sameKeyword keyword ds = true) :
      ∀ c ∈ ds, isSeparator c = false := by
    intro c hc
    rw [sameKeyword, beq_iff_eq] at h
    have hmem : c.toLower ∈ keyword.map Char.toLower := h ▸ List.mem_map_of_mem hc
    obtain ⟨e, he, heq⟩ := List.mem_map.1 hmem
    rw [← isSeparator_toLower, ← heq, isSeparator_toLower, hkeyword e he]
  have hsame {ds : List Char} (h : ∀ c ∈ ds, isSeparator c = false) : ds.map comma = ds :=
    map_eq_self fun c hc => comma_of_not_isSeparator (h c hc)
  rw [Bool.eq_iff_iff]
  constructor
  · intro h
    have hcs : ∀ c ∈ cs, isSeparator c = false := by
      intro c hc
      rw [← isSeparator_comma, hplain h _ (List.mem_map_of_mem hc)]
    rwa [hsame hcs] at h
  · intro h
    rwa [hsame (hplain h)]

theorem profileReference?_comma_eq_none_iff :
    profileReference? (list.map comma) = none ↔ profileReference? list = none := by
  rw [profileReference?_eq_none_iff, profileReference?_eq_none_iff]
  refine forall_congr' fun kind => ?_
  have hkeyword : ∀ c ∈ kind.profileKeyword.toList, isSeparator c = false := by
    cases kind <;> exact not_of_all (by decide)
  simp only [afterKeyword?, ← List.map_take, sameKeyword_comma hkeyword]
  split <;> simp

/-- The identifier of a category holds no separator. -/
theorem Category.ofId?_comma (list : List Char) :
    ofId? (String.ofList (list.map comma)) = ofId? (String.ofList list) := by
  have hplain (drawn : Category) : ∀ c ∈ drawn.id.toList, isSeparator c = false := by
    cases drawn <;> exact not_of_all (by decide)
  by_cases hlist : ∀ c ∈ list, isSeparator c = false
  · rw [map_eq_self fun c hc => comma_of_not_isSeparator (hlist c hc)]
  · push Not at hlist
    obtain ⟨c, hc, hsep⟩ := hlist
    have hnone {cs : List Char} {e : Char} (he : e ∈ cs) (hsep : isSeparator e ≠ false) :
        ofId? (String.ofList cs) = none := by
      rw [ofId?_eq_none_iff]
      rintro drawn rfl
      exact hsep (hplain drawn e he)
    rw [hnone hc hsep, hnone (List.mem_map_of_mem hc) (by rwa [isSeparator_comma])]

/-- **A list that refers to no profile stands for the same with either
separator.** -/
theorem Context.resolveList_comma (href : profileReference? list = none) :
    context.resolveList (list.map comma) = context.resolveList list := by
  rw [resolveList, resolveList, Category.ofId?_comma, href,
    profileReference?_comma_eq_none_iff.2 href, identifiersOf_comma]

/-- The same for two lists that differ in their separators alone. -/
theorem Context.resolveList_of_comma (href : profileReference? list = none)
    (hsame : list.map comma = other.map comma) :
    context.resolveList other = context.resolveList list := by
  have hother : profileReference? other = none := by
    rwa [← profileReference?_comma_eq_none_iff, ← hsame, profileReference?_comma_eq_none_iff]
  rw [← resolveList_comma hother, ← hsame, resolveList_comma href]

/-! ## Exchanges -/

/-- **What may be exchanged for what** in a token, at an offset of the line. -/
inductive Token.Exchanges (token : Token) (offset : Nat) (c d : Char) : Prop
  /-- A letter of a time, a strike limit or a setting for the same in the other
  case. -/
  | case (hkind : ∀ pool, token.kind ≠ .pool pool) (hsame : c.toLower = d.toLower) :
      Exchanges token offset c d
  /-- The sign after the count of a pool for the other sign. -/
  | sign {pool : PoolToken} (hkind : token.kind = .pool pool) (hcount : pool.count ≠ none)
      (hplace : offset + 1 = pool.idListStart) (hc : c = ';' ∨ c = '*') (hd : d = ';' ∨ d = '*') :
      Exchanges token offset c d
  /-- A separator in a list that refers to no profile for the other one. -/
  | separator {pool : PoolToken} (hkind : token.kind = .pool pool)
      (href : profileReference? pool.list = none) (hplace : pool.idListStart ≤ offset)
      (hc : isSeparator c = true) (hd : isSeparator d = true) : Exchanges token offset c d

namespace Token.Exchanges

/-- No exchange makes a blank of anything else. -/
theorem isBlank_eq (h : token.Exchanges offset c d) : isBlank c = isBlank d := by
  cases h with
  | case _ hsame => rw [← isBlank_toLower, hsame, isBlank_toLower]
  | sign _ _ _ hc hd => rcases hc with rfl | rfl <;> rcases hd with rfl | rfl <;> decide
  | separator _ _ _ hc hd =>
    rw [isBlank_of_isMark (isMark_of_isSeparator hc), isBlank_of_isMark (isMark_of_isSeparator hd)]

/-- In a pool no exchange makes another kind of mark. -/
theorem spelled_eq (h : token.Exchanges offset c d) (hpool : token.kind = .pool pool) :
    spelled c = spelled d := by
  cases h with
  | case hkind _ => exact absurd hpool (hkind pool)
  | sign _ _ _ hc hd => rw [spelled_of_sign hc, spelled_of_sign hd]
  | separator _ _ _ hc hd => rw [spelled_of_isSeparator hc, spelled_of_isSeparator hd]

/-- In the list of a pool only separators are exchanged, and none in a reference. -/
theorem comma_eq (h : token.Exchanges offset c d) (hpool : token.kind = .pool pool)
    (hplace : pool.idListStart ≤ offset) :
    comma c = comma d ∧ profileReference? pool.list = none := by
  cases h with
  | case hkind _ => exact absurd hpool (hkind pool)
  | sign hkind _ hsign _ _ =>
    obtain rfl := TokenKind.pool.inj (hpool.symm.trans hkind)
    omega
  | separator hkind href _ hc hd =>
    obtain rfl := TokenKind.pool.inj (hpool.symm.trans hkind)
    exact ⟨by rw [comma_of_isSeparator hc, comma_of_isSeparator hd], href⟩

end Token.Exchanges

/-- **A text in another spelling**: from an offset on, each character stays, or is
exchanged within the token in which it stands. -/
inductive Respelled (tokens : List Token) : Nat → List Char → List Char → Prop
  | nil {start : Nat} : Respelled tokens start [] []
  | cons {start : Nat} {c d : Char} {cs ds : List Char}
      (hchar : c = d ∨ ∃ token ∈ tokens, token.span.start ≤ start ∧ start < token.span.stop ∧
        token.Exchanges start c d)
      (hrest : Respelled tokens (start + c.utf8Size) cs ds) :
      Respelled tokens start (c :: cs) (d :: ds)

namespace Respelled

/-- Every text is a spelling of itself. -/
theorem refl (all : List Token) (start : Nat) (cs : List Char) : Respelled all start cs cs := by
  induction cs generalizing start with
  | nil => exact .nil
  | cons c cs ih => exact .cons (.inl rfl) (ih _)

/-- One character exchanged within a token. -/
theorem exchange (htoken : token ∈ all) (hstart : token.span.start ≤ start)
    (hstop : start < token.span.stop) (h : token.Exchanges start c d) :
    Respelled all start [c] [d] :=
  .cons (.inr ⟨token, htoken, hstart, hstop, h⟩) .nil

/-- Two parts may be respelled one after the other. -/
theorem append {as' bs' : List Char} (has : Respelled all start as as')
    (hbs : Respelled all (start + width as) bs bs') :
    Respelled all start (as ++ bs) (as' ++ bs') := by
  induction has with
  | nil => exact hbs
  | cons hchar _ ih =>
    refine .cons hchar (ih ?_)
    rwa [Nat.add_assoc]

/-- **A text of two parts is respelled in two parts.** -/
theorem exists_append (h : Respelled all start (as ++ bs) ds) :
    ∃ as' bs', ds = as' ++ bs' ∧ Respelled all start as as' ∧
      Respelled all (start + width as) bs bs' := by
  induction as generalizing start ds with
  | nil => exact ⟨[], ds, rfl, .nil, h⟩
  | cons c as ih =>
    cases h with
    | @cons _ _ d _ ds hchar hrest =>
      obtain ⟨as', bs', rfl, has, hbs⟩ := ih hrest
      refine ⟨d :: as', bs', rfl, .cons hchar has, ?_⟩
      rwa [width_cons, ← Nat.add_assoc]

/-- Only the tokens that stand in a text have a say in how it is respelled. -/
theorem of_within {others : List Token} (h : Respelled all start cs ds)
    (hall : ∀ token ∈ all, token ∈ others ∨ token.span.stop ≤ start ∨
      start + width cs ≤ token.span.start) :
    Respelled others start cs ds := by
  induction h with
  | nil => exact .nil
  | @cons start c d cs ds hchar hrest ih =>
    have hpos := c.utf8Size_pos
    rw [width_cons] at hall
    refine .cons (hchar.imp_right ?_) (ih fun token htoken => ?_)
    · rintro ⟨token, htoken, hstart, hstop, hexchange⟩
      have hmem := (hall token htoken).resolve_right (by omega)
      exact ⟨token, hmem, hstart, hstop, hexchange⟩
    · exact (hall token htoken).imp_right fun houtside => by omega

/-- **What no exchange tells apart** is the same in both spellings. -/
theorem map_eq {α : Type} {f : Char → α} (h : Respelled all start cs ds)
    (hf : ∀ token ∈ all, ∀ offset c d, start ≤ offset → token.Exchanges offset c d → f c = f d) :
    cs.map f = ds.map f := by
  induction h with
  | nil => rfl
  | @cons start c d cs ds hchar hrest ih =>
    have htail : cs.map f = ds.map f := ih fun token htoken offset c' d' hge =>
      hf token htoken offset c' d' (by omega)
    have hhead : f c = f d := by
      rcases hchar with rfl | ⟨token, htoken, -, -, hexchange⟩
      · rfl
      · exact hf token htoken start c d (Nat.le_refl _) hexchange
    rw [List.map_cons, List.map_cons, hhead, htail]

/-- Where no token stands nothing is exchanged. -/
theorem eq_of_nil (h : Respelled [] start cs ds) : ds = cs := by
  have hsame := h.map_eq (f := id) (by simp)
  rwa [List.map_id, List.map_id, eq_comm] at hsame

/-- A spelling has as many characters. -/
theorem length_eq (h : Respelled all start cs ds) : ds.length = cs.length := by
  have hsame := congrArg List.length (h.map_eq (f := fun _ => ()) fun _ _ _ _ _ _ _ => rfl)
  rwa [List.length_map, List.length_map, eq_comm] at hsame

/-- Blanks stay blanks. -/
theorem isBlank_eq (h : Respelled all start cs ds) : ds.map isBlank = cs.map isBlank :=
  (h.map_eq fun _ _ _ _ _ _ hexchange => hexchange.isBlank_eq).symm

end Respelled

/-! ## Pieces -/

/-- A draft takes in of a pool no more than its count and what its list stands
for. -/
theorem Draft.addPool_of_same {other : PoolToken} (hcount : other.count = pool.count)
    (hresolve : context.resolvePool other = context.resolvePool pool) (draft : Draft) :
    draft.addPool context other = draft.addPool context pool := by
  rw [addPool, addPool, hcount, hresolve]

/-- **Two tokens that come to the same**: they cover the same stretch, and every
draft takes them in alike. -/
structure Token.Alike (token other : Token) : Prop where
  span : other.span = token.span
  add (context : Context) (draft : Draft) :
    Draft.add context draft other = Draft.add context draft token

/-- A pool keeps its marks, but for which of two alike it is. -/
theorem Respelled.map_spelled (h : Respelled [token] start piece respelt)
    (hpool : token.kind = .pool pool) : piece.map spelled = respelt.map spelled :=
  h.map_eq fun _ htoken _ _ _ _ hexchange =>
    hexchange.spelled_eq (List.mem_singleton.1 htoken ▸ hpool)

/-- The count of a pool stays, and its list is respelled by itself. -/
theorem Respelled.readCount (h : Respelled [token] start piece respelt)
    (hpool : token.kind = .pool pool) :
    (PoolToken.readCount respelt).1 = (PoolToken.readCount piece).1 ∧
      (PoolToken.readCount respelt).2.1 = (PoolToken.readCount piece).2.1 ∧
      Respelled [token] (start + (PoolToken.readCount piece).2.1) (PoolToken.readCount piece).2.2
        (PoolToken.readCount respelt).2.2 := by
  have hread := congrArg PoolToken.readCount (h.map_spelled hpool)
  rw [PoolToken.readCount_spelled, PoolToken.readCount_spelled, Prod.mk.injEq,
    Prod.mk.injEq] at hread
  obtain ⟨hcount, hwidth, hlist⟩ := hread
  refine ⟨hcount.symm, hwidth.symm, ?_⟩
  obtain ⟨head, hpiece, hhead⟩ := PoolToken.exists_readCount_append piece
  obtain ⟨head', hrespelt, -⟩ := PoolToken.exists_readCount_append respelt
  rw [hpiece] at h
  obtain ⟨front, list, hsplit, -, hrest⟩ := h.exists_append
  -- both are the end of the text in its new spelling, and they are of one length
  have hlength : list.length = (PoolToken.readCount respelt).2.2.length := by
    rw [hrest.length_eq]
    simpa using congrArg List.length hlist
  have hsame := (List.append_inj' (hsplit.symm.trans hrespelt) hlength).2
  rwa [hhead, hsame] at hrest

/-- **The list of a pool stands for the same** in another spelling. -/
theorem Respelled.resolvePool {other : PoolToken}
    (h : Respelled [token] pool.idListStart pool.idList.toList other.idList.toList)
    (hpool : token.kind = .pool pool) (context : Context) :
    context.resolvePool other = context.resolvePool pool := by
  have hplain {offset : Nat} {c d : Char} {token' : Token} (htoken : token' ∈ [token])
      (hplace : pool.idListStart ≤ offset) (hexchange : token'.Exchanges offset c d) :
      comma c = comma d ∧ profileReference? pool.list = none :=
    hexchange.comma_eq (List.mem_singleton.1 htoken ▸ hpool) hplace
  by_cases href : profileReference? pool.list = none
  · have hcomma : pool.idList.toList.map comma = other.idList.toList.map comma :=
      h.map_eq fun _ htoken _ _ _ hplace hexchange => (hplain htoken hplace hexchange).1
    have hlist : pool.list.map comma = other.list.map comma := by
      simp only [PoolToken.list, ← trim_map_of isBlank_comma, ← unquoted_map_of isQuote_comma,
        hcomma]
    exact Context.resolveList_of_comma href hlist
  · -- in a reference to a profile nothing is exchanged
    have hsame := h.map_eq (f := id) fun _ htoken _ _ _ hplace hexchange =>
      absurd (hplain htoken hplace hexchange).2 href
    rw [List.map_id, List.map_id] at hsame
    simp only [Context.resolvePool, PoolToken.list, hsame]

namespace Token.IsPiece

/-- A time, a strike limit or a setting in another spelling. -/
theorem respelled_of_run {kind : TokenKind} (h : IsPiece piece)
    (hrun : TokenKind.ofRun? (piece.takeWhile isInk) = some kind)
    (hsame : Respelled [ofPiece start piece] start piece respelt) :
    IsPiece respelt ∧ Alike (ofPiece start piece) (ofPiece start respelt) ∧
      (ofPiece 0 respelt).isOpen = (ofPiece 0 piece).isOpen := by
  have hread : ofPiece start piece = ⟨⟨start, width (piece.takeWhile isInk)⟩, kind⟩ := by
    rw [ofPiece, read_of_ofRun?_eq_some hrun]
  have hlower : piece.map Char.toLower = respelt.map Char.toLower := by
    refine hsame.map_eq fun token htoken offset c d _ hexchange => ?_
    obtain rfl := List.mem_singleton.1 htoken
    have hkind (pool : PoolToken) : (ofPiece start piece).kind ≠ .pool pool := by
      rw [hread]
      rintro rfl
      exact TokenKind.ofRun?_ne_pool pool hrun
    cases hexchange with
    | case _ hsame => exact hsame
    | sign hpool => exact absurd hpool (hkind _)
    | separator hpool => exact absurd hpool (hkind _)
  obtain ⟨hpiece, said, hsaid, hlowercase⟩ := h.of_lowercase hrun hlower
  have hread' : ofPiece start respelt = ⟨⟨start, width (respelt.takeWhile isInk)⟩, said⟩ := by
    rw [ofPiece, read_of_ofRun?_eq_some hsaid]
  refine ⟨hpiece, ⟨?_, fun context draft => ?_⟩, ?_⟩
  · rw [h.span_ofPiece, hpiece.span_ofPiece, ← width_map_of utf8Size_toLower, ← hlower,
      width_map_of utf8Size_toLower]
  · rw [hread, hread', ← Draft.add_lowercase, hlowercase, Draft.add_lowercase]
    rfl
  · rw [isOpen_ofPiece_of_run hrun, isOpen_ofPiece_of_run hsaid]

/-- A pool in another spelling. -/
theorem respelled_of_pool (h : IsPiece piece)
    (hrun : TokenKind.ofRun? (piece.takeWhile isInk) = none)
    (hsame : Respelled [ofPiece start piece] start piece respelt) :
    IsPiece respelt ∧ Alike (ofPiece start piece) (ofPiece start respelt) ∧
      (ofPiece 0 respelt).isOpen = (ofPiece 0 piece).isOpen := by
  have hpool := h.ofPiece_pool hrun start
  have hspelled := hsame.map_spelled hpool
  obtain ⟨hpiece, hrun'⟩ := h.of_spelled hrun hspelled
  obtain ⟨hcount, -, hlist⟩ := hsame.readCount hpool
  have hpool' := hpiece.ofPiece_pool hrun' start
  refine ⟨hpiece, ⟨?_, fun context draft => ?_⟩, ?_⟩
  · rw [h.span_ofPiece, hpiece.span_ofPiece, ← width_map_of utf8Size_spelled, ← hspelled,
      width_map_of utf8Size_spelled]
  · simp only [Draft.add, hpool, hpool']
    refine Draft.addPool_of_same hcount (Respelled.resolvePool ?_ hpool context) draft
    simpa using hlist
  · rw [h.isOpen_ofPiece_pool hrun, hpiece.isOpen_ofPiece_pool hrun',
      ← quotedAfter_map_of isQuote_spelled, ← hspelled, quotedAfter_map_of isQuote_spelled]

/-- **A piece stays one piece in another spelling**, which is taken in alike. -/
theorem respelled (h : IsPiece piece)
    (hsame : Respelled [ofPiece start piece] start piece respelt) :
    IsPiece respelt ∧ Alike (ofPiece start piece) (ofPiece start respelt) ∧
      (ofPiece 0 respelt).isOpen = (ofPiece 0 piece).isOpen := by
  cases hrun : TokenKind.ofRun? (piece.takeWhile isInk) with
  | some kind => exact h.respelled_of_run hrun hsame
  | none => exact h.respelled_of_pool hrun hsame

end Token.IsPiece

/-! ## Layouts -/

/-- **A layout is kept in another spelling**: the blanks stay, and each piece
stays a piece of the same width that is taken in alike. -/
theorem Scan.Laid.respelled (h : Laid start cs tokens) (hsame : Respelled tokens start cs ds) :
    ∃ others, Laid start ds others ∧ List.Forall₂ Token.Alike tokens others := by
  induction h generalizing ds with
  | blank hgap =>
    rw [hsame.eq_of_nil]
    exact ⟨[], .blank hgap, .nil⟩
  | @token start gap piece rest tokens hgap hpiece hrest hopen hlaid ih =>
    have hspan := hpiece.span_ofPiece (start + width gap)
    have hstop := hpiece.stop_ofPiece (start + width gap)
    -- the blanks, the piece and the rest each have tokens of their own
    obtain ⟨gap', _, rfl, hsameGap, htail⟩ := hsame.exists_append
    obtain ⟨piece', rest', rfl, hsamePiece, hsameRest⟩ := htail.exists_append
    have hlater := hlaid.start_le
    obtain rfl : gap' = gap := Respelled.eq_of_nil <| hsameGap.of_within fun token htoken => by
      rcases List.mem_cons.1 htoken with rfl | htoken
      · exact .inr (.inr (by rw [hspan]))
      · have := hlater token htoken
        exact .inr (.inr (by omega))
    have honly : Respelled [ofPiece (start + width gap') piece] (start + width gap') piece
        piece' := hsamePiece.of_within fun token htoken => by
      rcases List.mem_cons.1 htoken with rfl | htoken
      · exact .inl List.mem_cons_self
      · exact .inr (.inr (hlater token htoken))
    have hrespelt : Respelled tokens (start + width gap' + width piece) rest rest' :=
      hsameRest.of_within fun token htoken => by
        rcases List.mem_cons.1 htoken with rfl | htoken
        · exact .inr (.inl (by rw [hstop]))
        · exact .inl htoken
    obtain ⟨hpiece', halike, hopenSame⟩ := hpiece.respelled honly
    obtain ⟨others, hlaid', hothers⟩ := ih hrespelt
    have hwidth : width piece' = width piece := by
      have := halike.span
      rw [hspan, hpiece'.span_ofPiece, Span.mk.injEq] at this
      exact this.2
    have hrest' : AtBoundary rest' := by
      intro c hc
      have hhead := congrArg List.head? hrespelt.isBlank_eq
      rw [List.head?_map, List.head?_map, Option.mem_def.1 hc] at hhead
      obtain ⟨d, hd, hblank⟩ := Option.map_eq_some_iff.1 hhead.symm
      rw [← hblank, hrest d hd]
    have hopen' : rest' = [] ∨ (ofPiece 0 piece').isOpen = false := by
      rw [hopenSame]
      refine hopen.imp_left fun hnil => List.eq_nil_of_length_eq_zero ?_
      rw [hrespelt.length_eq, hnil, List.length_nil]
    rw [← hwidth] at hlaid'
    exact ⟨_, .token hgap hpiece' hrest' hopen' hlaid', .cons halike hothers⟩

/-! ## Lines -/

theorem Token.map_span_of_alike {others : List Token} (h : List.Forall₂ Token.Alike tokens others) :
    others.map (·.span) = tokens.map (·.span) := by
  induction h with
  | nil => rfl
  | cons halike _ ih => rw [List.map_cons, List.map_cons, halike.span, ih]

/-- Drafts of tokens that come to the same are the same. -/
theorem Draft.foldl_add_of_alike {others : List Token} (h : List.Forall₂ Token.Alike tokens others)
    (context : Context) (draft : Draft) :
    others.foldl (add context) draft = tokens.foldl (add context) draft := by
  induction h generalizing draft with
  | nil => rfl
  | cons halike _ ih => rw [List.foldl_cons, List.foldl_cons, halike.add, ih]

namespace Mission

/-- **The spelling of a line does not matter.** With the letters of times, strike
limits and settings in any case, either sign after a count and either separator
in a list that refers to no profile, a line comes to the same mission, or the
same is wrong with it, and its tokens stand where they stood. -/
theorem spelling_does_not_matter (context : Context) {text text' : String}
    (h : Respelled (ofText text).tokens 0 text.toList text'.toList) :
    parse context text' = parse context text ∧
      (ofText text').tokens.map (·.span) = (ofText text).tokens.map (·.span) := by
  obtain ⟨others, hlaid, halike⟩ := (laid_ofChars text.toList).respelled h
  have hothers : (ofText text').tokens = others := by rw [ofText, ofChars_eq_of_laid hlaid]
  have hspans : (ofText text').tokens.map (·.span) = (ofText text).tokens.map (·.span) := by
    rw [hothers]
    exact Token.map_span_of_alike halike
  refine ⟨?_, hspans⟩
  have hnil : (ofText text').tokens = [] ↔ (ofText text).tokens = [] := by
    rw [← List.map_eq_nil_iff, hspans, List.map_eq_nil_iff]
  by_cases hblank : Blank text.toList
  · have hblank' := tokens_ofChars_eq_nil_iff.1 (hnil.2 (tokens_ofChars_eq_nil_iff.2 hblank))
    rw [parse_of_blank hblank, parse_of_blank hblank']
  · have hblank' : ¬ Blank text'.toList := fun hblank' =>
      hblank (tokens_ofChars_eq_nil_iff.1 (hnil.1 (tokens_ofChars_eq_nil_iff.2 hblank')))
    rw [parse_eq_finish hblank, parse_eq_finish hblank', Draft.ofTokens, Draft.ofTokens, hothers,
      Draft.foldl_add_of_alike halike]
    rfl

/-- The name of a setting in capitals, the sign after a count, and a separator. -/
theorem spelling_does_not_matter_mixed :
    parse {} "noPacing 3*Wires+Keypad" = parse {} "nopacing 3;Wires,Keypad" ∧
      (ofText "noPacing 3*Wires+Keypad").tokens.map (·.span) = [⟨0, 8⟩, ⟨9, 14⟩] := by
  have htokens : (ofText "nopacing 3;Wires,Keypad").tokens =
      [⟨⟨0, 8⟩, .setting ⟨.noPacing, "nopacing", none⟩⟩,
        ⟨⟨9, 14⟩, .pool ⟨some 3, "Wires,Keypad", 11⟩⟩] := by decide +kernel
  have hsetting : ⟨⟨0, 8⟩, .setting ⟨.noPacing, "nopacing", none⟩⟩ ∈
      (ofText "nopacing 3;Wires,Keypad").tokens := htokens ▸ List.mem_cons_self
  have hpool : ⟨⟨9, 14⟩, .pool ⟨some 3, "Wires,Keypad", 11⟩⟩ ∈
      (ofText "nopacing 3;Wires,Keypad").tokens :=
    htokens ▸ List.mem_cons_of_mem _ List.mem_cons_self
  have hcase : Respelled _ 2 ['p'] ['P'] :=
    .exchange hsetting (by decide) (by decide) (.case nofun rfl)
  have hsign : Respelled _ 10 [';'] ['*'] :=
    .exchange hpool (by decide) (by decide) (.sign rfl nofun rfl (.inl rfl) (.inr rfl))
  have hseparator : Respelled _ 16 [','] ['+'] :=
    .exchange hpool (by decide) (by decide)
      (.separator rfl (by decide +kernel) (by decide) rfl rfl)
  have hsame : Respelled (ofText "nopacing 3;Wires,Keypad").tokens 0
      "nopacing 3;Wires,Keypad".toList "noPacing 3*Wires+Keypad".toList :=
    (Respelled.refl _ 0 "no".toList).append <| hcase.append <|
      (Respelled.refl _ 3 "acing 3".toList).append <| hsign.append <|
      (Respelled.refl _ 11 "Wires".toList).append <| hseparator.append <|
      Respelled.refl _ 17 "Keypad".toList
  obtain ⟨hparse, hspans⟩ := spelling_does_not_matter {} hsame
  refine ⟨hparse, hspans.trans ?_⟩
  rw [htokens]
  rfl

end Mission

end MissionText
