import MissionText.Proofs.Completion.Rest
import MissionText.Proofs.Text.Casing
import MissionText.Proofs.Token.Grammar
/-!
# What a number may become

While a word is nothing but digits, three rows are offered before all others: it
may become a time, a strike limit or the count of a pool. Each of them means what
it says **exactly if the digits are nine at most**, since no field of a token is
longer (`field?_of_digits`). With more of them the word stays a pool, and its
digits are the beginning of an identifier.
-/

namespace MissionText

open Text Token Scan

variable {cs ds tail before lead : List Char} {c : Char} {kind : TokenKind}
  {prior tokens : List Token} {token : Token} {pool : PoolToken} {text : String}

/-! ## Digits and what follows them -/

/-- No keyword holds a digit. -/
theorem SettingName.ofKeyword?_of_isDigit (hmem : c ∈ cs) (hc : c.isDigit = true) :
    ofKeyword? (String.ofList cs) = none := by
  refine ofKeyword?_of_mem hmem hc (toLower_of_isDigit hc) fun name => ?_
  cases name <;> exact not_of_all (by decide)

/-- A digit is neither a separator nor a quote. -/
theorem isPlain_of_isDigit (h : c.isDigit = true) : isSeparator c = false ∧ isQuote c = false := by
  have hmark : isMark c = false := by
    rw [Bool.eq_false_iff]
    intro hmark
    rw [isDigit_of_isMark hmark] at h
    cases h
  simp only [isMark, Bool.or_eq_false_iff] at hmark
  exact hmark.1.1

section Digits

variable (hne : ds ≠ []) (hds : ∀ e ∈ ds, e.isDigit = true)

include hds

/-- No digit is a colon. -/
theorem colon_notMem_of_isDigit : ':' ∉ ds := by
  intro hmem
  cases hds ':' hmem

/-- A number that is no field is no count. -/
theorem PoolToken.readCount_of_field?_eq_none (hc : c.isDigit = false) (hfield : field? ds = none) :
    readCount (ds ++ c :: tail) = (none, 0, ds ++ c :: tail) := by
  rw [readCount, takeWhile_isDigit_mark hds hc, hfield]

include hne

/-- **Digits are a field if they are nine at most.** -/
theorem Text.field?_of_digits :
    field? ds = if ds.length ≤ 9 then some (digitsValue ds) else none := by
  split
  · rename_i hlength
    exact field?_eq_some_iff.2 ⟨⟨hne, hlength, hds⟩, rfl⟩
  · rename_i hlength
    rw [Option.eq_none_iff_forall_ne_some]
    intro n hn
    exact hlength (field?_eq_some_iff.1 hn).1.2.1

/-- A run that begins with digits is no setting. -/
theorem SettingToken.ofRun?_of_digits (tail : List Char) : ofRun? (ds ++ tail) = none := by
  obtain ⟨d, more, rfl⟩ := List.exists_cons_of_ne_nil hne
  have hdigit := hds d List.mem_cons_self
  have hmem : d ∈ (d :: more ++ tail).takeWhile (· ≠ ':') := by
    have hcolon : d ≠ ':' := by
      rintro rfl
      cases hdigit
    rw [List.cons_append, List.takeWhile_cons, if_pos (by simpa using hcolon)]
    exact List.mem_cons_self
  rw [ofRun?, SettingName.ofKeyword?_of_isDigit hmem hdigit]
  rfl

/-- **A number and two zeros after a colon** are a time if the number is a
field. -/
theorem TokenKind.ofRun?_minutes :
    ofRun? (ds ++ [':', '0', '0']) = (field? ds).map fun minutes => .time ⟨none, minutes, 0⟩ := by
  have hcolon : ':' ∉ ds := colon_notMem_of_isDigit hds
  have hmark : (':').isDigit = false := rfl
  have htime : TimeToken.ofRun? (ds ++ [':', '0', '0']) =
      (field? ds).map fun minutes => ⟨none, minutes, 0⟩ := by
    have hzeros : field? ['0', '0'] = some 0 := by decide
    rw [TimeToken.ofRun?, List.splitOn_append_cons_self_of_not_mem hcolon,
      List.splitOn_eq_singleton (by decide), List.map_cons, List.map_singleton, hzeros]
    cases field? ds <;> rfl
  rw [ofRun?, htime, strikesOfRun?_mark hds hmark, SettingToken.ofRun?_of_digits hne hds]
  cases field? ds <;> rfl

/-- **A number with an `X` after it** is a strike limit if the number is a
field. -/
theorem TokenKind.ofRun?_strikes : ofRun? (ds ++ ['X']) = (field? ds).map .strikes := by
  have hmark : ('X').isDigit = false := rfl
  have hstrikes : strikesOfRun? (ds ++ ['X']) = field? ds := by
    rw [strikesOfRun?, dropWhile_isDigit_mark hds hmark, takeWhile_isDigit_mark hds hmark]
    rfl
  rw [ofRun?, timeOfRun?_mark hds hmark (by decide), hstrikes,
    SettingToken.ofRun?_of_digits hne hds]
  cases field? ds <;> rfl

/-- What digits and more are read as, if the digits have to be a field for them to
be anything but a pool. -/
theorem Token.kind_ofPiece_of_digits {f : Nat → TokenKind} (hc : c.isDigit = false)
    (hink : ∀ d ∈ c :: tail, isBlank d = false)
    (hrun : TokenKind.ofRun? (ds ++ c :: tail) = (field? ds).map f) (start : Nat) :
    (ofPiece start (ds ++ c :: tail)).kind =
      if ds.length ≤ 9 then f (digitsValue ds)
      else .pool ⟨none, String.ofList (ds ++ c :: tail), start⟩ := by
  have hall : ∀ d ∈ ds ++ c :: tail, isBlank d = false :=
    List.forall_mem_append.2 ⟨fun d hd => isBlank_of_isDigit (hds d hd), hink⟩
  have hpiece : IsPiece (ds ++ c :: tail) := isPiece_of_ink (by simp) hall
  have htake : (ds ++ c :: tail).takeWhile isInk = ds ++ c :: tail :=
    List.takeWhile_eq_self_iff.2 fun d hd => by simp [hall d hd]
  have hfield := Text.field?_of_digits hne hds
  split
  · rename_i hlength
    rw [if_pos hlength] at hfield
    rw [hfield, Option.map_some, ← htake] at hrun
    rw [ofPiece, read_of_ofRun?_eq_some hrun]
  · rename_i hlength
    rw [if_neg hlength] at hfield
    rw [hfield, Option.map_none, ← htake] at hrun
    rw [hpiece.ofPiece_pool hrun, PoolToken.readCount_of_field?_eq_none hds hc hfield]
    rfl

/-- **A number with a star and more after it** is a pool, with the number for its
count if it is a field. -/
theorem Token.exists_pool_of_star (hmore : ∃ d ∈ tail.head?, isBlank d = false) (start : Nat) :
    ∃ list, (read start (ds ++ '*' :: tail)).1.kind = .pool list ∧
      list.count = if ds.length ≤ 9 then some (digitsValue ds) else none := by
  obtain ⟨d, hd, hink⟩ := hmore
  obtain ⟨more, rfl⟩ := List.head?_eq_some_iff.1 hd
  have hcount : (PoolToken.readCount (ds ++ '*' :: d :: more)).1 = field? ds := by
    cases hfield : field? ds with
    | none => rw [PoolToken.readCount_of_field?_eq_none hds rfl hfield]
    | some count => rw [PoolToken.readCount_counted hfield (.inr rfl) hink]
  rw [read_of_ofRun?_eq_none (tokenOfRun?_takeWhile_star hds), ← Text.field?_of_digits hne hds]
  exact ⟨_, rfl, hcount⟩

end Digits

/-! ## The word at the end of a line -/

/-- A number is in progress: the last token is a pool without a count, whose list
is all digits. -/
structure TypedNumber (text : String) (token : Token) (pool : PoolToken) : Prop where
  inProgress : inProgress? text.toList = some token
  kind : token.kind = .pool pool
  count : pool.count = none
  isDigit : ∀ c ∈ pool.idList.toList, c.isDigit = true

namespace TypedNumber

variable (h : TypedNumber text token pool)

include h

/-- The digits are what is being typed. -/
theorem exists_around : ∃ lead prior,
    Around 0 text.toList (ofChars text.toList).tokens token lead pool.idList.toList [] prior [] ∧
      Stub.ofChars text.toList = ⟨lead, pool.idList.toList, true⟩ := by
  obtain ⟨lead, head, kept, typed, prior, htyped⟩ := exists_typedPool h.inProgress h.kind
  have hlist : pool.idList.toList = kept ++ typed := by rw [htyped.list, String.toList_ofList]
  -- without a count nothing stands before the list, and without a separator nothing of it is kept
  have hhead : head = [] := by
    have hcounted := htyped.counted
    rcases PoolToken.readCount_eq_none_or (head ++ (kept ++ typed)) with hnone |
      ⟨ds, sep, c, tail, count, hsplit, hfield, hsep, hc⟩
    · rw [hnone, Prod.mk.injEq, Prod.mk.injEq] at hcounted
      exact List.append_left_eq_self.1 hcounted.2.2
    · rw [hsplit, PoolToken.readCount_counted hfield hsep hc, Prod.mk.injEq, h.count] at hcounted
      cases hcounted.1
  have hkept : kept = [] := by
    rcases List.eq_nil_or_concat kept with hnil | ⟨more, c, rfl⟩
    · exact hnil
    · have hsep : isSeparator c = true := htyped.separated c (by simp)
      have hdigit := h.isDigit c (by simp [hlist])
      rw [isDigit_of_isMark (isMark_of_isSeparator hsep)] at hdigit
      cases hdigit
  subst hhead hkept
  have haround := htyped.around
  have hstub := htyped.stub
  simp only [List.nil_append, List.append_nil] at hlist haround hstub
  rw [← hlist] at haround hstub
  exact ⟨lead, prior, haround, hstub⟩

theorem ne_nil : pool.idList.toList ≠ [] := by
  obtain ⟨lead, prior, haround, -⟩ := h.exists_around
  exact haround.isPiece.ne_nil

/-- They are the whole of the last identifier. -/
theorem stub_eq : pool.stub = pool.idList := by
  have hplain := fun c hc => isPlain_of_isDigit (h.isDigit c hc)
  rw [PoolToken.stub, PoolToken.lastId, splitAfterLast_of_plain fun c hc => (hplain c hc).1,
    unquoted_of_plain fun c hc => (hplain c hc).2, String.ofList_toList]

/-- What a number may become is offered first. -/
theorem exists_suggest_eq (context : Context) :
    ∃ others, context.suggest text text.utf8ByteSize = suggestNumber pool.idList ++ others := by
  have hnumber : pool.isNumber = true := by
    rw [isNumber_eq h.inProgress h.kind, h.count, List.all_eq_true.2 h.isDigit]
    rfl
  rw [Context.suggest, cut_end, Context.suggestAfter, h.inProgress]
  simp only [h.kind, Context.suggestPool, hnumber, if_true, h.stub_eq]
  exact ⟨_, rfl⟩

/-- A mark after the digits leaves them one word without quotes. -/
theorem plain_append {mark : String}
    (hmark : mark.toList.all (fun c => !(isBlank c || isQuote c)) = true) :
    ∀ c ∈ (pool.idList ++ mark).toList, isBlank c = false ∧ isQuote c = false := by
  rw [String.toList_append]
  refine List.forall_mem_append.2 ⟨fun c hc => ?_, fun c hc => ?_⟩
  · have hdigit := h.isDigit c hc
    exact ⟨isBlank_of_isDigit hdigit, (isPlain_of_isDigit hdigit).2⟩
  · exact Bool.or_eq_false_iff.1 (not_of_all hmark c hc)

end TypedNumber

/-! ## Picking what a number may become -/

/-- What stands in the place of a number after a pick is the identifier, and a
space unless more is expected. -/
theorem text_pick_of_stub {candidate : Candidate} {quotable : Bool}
    (hstub : Stub.ofChars text.toList = ⟨lead, ds, quotable⟩)
    (hpick : candidate.selectable = true)
    (hid : ∀ c ∈ candidate.id.toList, isBlank c = false ∧ isQuote c = false) :
    (Edit.pick text text.utf8ByteSize candidate).text.toList =
      lead ++ (candidate.id.toList ++ if candidate.expectsMore then [] else [' ']) := by
  have hblank : hasBlank candidate.id = false := by
    simpa [hasBlank] using fun c hc => (hid c hc).1
  rw [Edit.pick_eq (cut_end text) hpick, hstub]
  cases hmore : candidate.expectsMore <;> simp [Edit.ofParts, Edit.inserted, hblank]

/-- The tokens of a line are some tokens and one more, which starts at an offset
and is of a kind. -/
def Scan.EndsWith (text : String) (prior : List Token) (start : Nat) (kind : TokenKind) : Prop :=
  ∃ last, (ofText text).tokens = prior ++ [last] ∧ last.span.start = start ∧ last.kind = kind

/-- **A number with a mark after it** becomes what it is read as alone, if it is
picked at the end of a line. -/
theorem endsWith_pick {candidate : Candidate} {quotable : Bool}
    (haround : Around 0 text.toList tokens token lead ds [] prior [])
    (hstub : Stub.ofChars text.toList = ⟨lead, ds, quotable⟩)
    (hpick : candidate.selectable = true) (hne : candidate.id.toList ≠ [])
    (hid : ∀ c ∈ candidate.id.toList, isBlank c = false ∧ isQuote c = false)
    (hkind : (ofPiece token.span.start candidate.id.toList).kind = kind) :
    EndsWith (Edit.pick text text.utf8ByteSize candidate).text prior token.span.start kind := by
  have hpiece := isPiece_of_ink hne fun c hc => (hid c hc).1
  have hclosed : (ofPiece 0 candidate.id.toList).isOpen = false :=
    (laid_piece hpiece 0).closed_of_plain (fun c hc => (hid c hc).2) _ List.mem_cons_self
  have hstart : token.span.start = width lead := by
    rw [haround.span_start, Nat.zero_add]
  have hspace : Blank (if candidate.expectsMore then [] else [' ']) := by
    split
    · nofun
    · exact List.forall_mem_singleton.2 rfl
  refine ⟨ofPiece (width lead) candidate.id.toList, ?_, ?_, hstart ▸ hkind⟩
  · rw [ofText, text_pick_of_stub hstub hpick hid]
    exact haround.tokens_of_replace hpiece hclosed hspace
  · rw [hpiece.span_ofPiece, hstart]

/-- A line that begins with some tokens and a pool with a count after them, which
starts at an offset. -/
def Scan.GoesOn (text : String) (prior : List Token) (start : Nat) (count : Option Nat) : Prop :=
  ∃ next later list, (ofText text).tokens = prior ++ next :: later ∧ next.span.start = start ∧
    next.kind = .pool list ∧ list.count = count

/-- **A number with a star after it** counts what is typed next. -/
theorem goesOn_of_star {more : String} (haround : Around 0 before tokens token lead ds [] prior [])
    (hds : ∀ d ∈ ds, d.isDigit = true) (hmore : ∃ d ∈ more.toList.head?, isBlank d = false)
    (htext : text.toList = lead ++ (ds ++ '*' :: more.toList)) :
    GoesOn text prior token.span.start
      (if ds.length ≤ 9 then some (digitsValue ds) else none) := by
  obtain ⟨d, digits, rfl⟩ := List.exists_cons_of_ne_nil haround.isPiece.ne_nil
  have hink : isBlank d = false := isBlank_of_isDigit (hds d List.mem_cons_self)
  obtain ⟨piece, rest, hsplit, hpiece, hrest, hopen⟩ := exists_piece hink
    (digits ++ '*' :: more.toList)
  obtain ⟨later, hlater⟩ := exists_laid (0 + width lead + width piece) rest
  have hlaid := haround.replace (.of_piece hpiece hrest hopen hlater)
  have hread := hpiece.read_append hrest hopen (0 + width lead)
  obtain ⟨list, hlist, hcount⟩ :=
    exists_pool_of_star (by simp) hds hmore (0 + width lead)
  rw [List.cons_append, hsplit, hread] at hlist
  refine ⟨_, later, list, ?_, ?_, hlist, hcount⟩
  · rw [ofText, htext, List.cons_append, hsplit, ofChars_eq_of_laid hlaid]
  · rw [hpiece.span_ofPiece, haround.span_start]

/-- **What a number may become, it becomes if it has nine digits at most.** Where a
number is in progress at the end of a line, the first candidate for it is a time of
so many minutes, the second a strike limit, and the third a pool counts so many of
whatever is typed next. A longer number stays the beginning of an identifier after
each of them. The tokens before it stay. -/
theorem number_shortcuts (h : TypedNumber text token pool) (context : Context) :
    ∃ prior time strikes count others,
      (ofText text).tokens = prior ++ [token] ∧
      context.suggest text text.utf8ByteSize = time :: strikes :: count :: others ∧
      [time.label, strikes.label, count.label] =
        ["[Set time]", "[Set strike limit]", "[Set module pool count]"] ∧
      EndsWith (Edit.pick text text.utf8ByteSize time).text prior token.span.start
        (if pool.idList.toList.length ≤ 9 then .time ⟨none, digitsValue pool.idList.toList, 0⟩
        else .pool ⟨none, pool.idList ++ ":00", token.span.start⟩) ∧
      EndsWith (Edit.pick text text.utf8ByteSize strikes).text prior token.span.start
        (if pool.idList.toList.length ≤ 9 then .strikes (digitsValue pool.idList.toList)
        else .pool ⟨none, pool.idList ++ "X", token.span.start⟩) ∧
      ∀ more : String, (∃ c ∈ more.toList.head?, isBlank c = false) →
        GoesOn ((Edit.pick text text.utf8ByteSize count).text ++ more) prior token.span.start
          (if pool.idList.toList.length ≤ 9 then some (digitsValue pool.idList.toList)
          else none) := by
  obtain ⟨lead, prior, haround, hstub⟩ := h.exists_around
  obtain ⟨others, hsuggest⟩ := h.exists_suggest_eq context
  have hne := h.ne_nil
  have hdigits := h.isDigit
  have htime := kind_ofPiece_of_digits hne hdigits rfl (not_of_all (by decide))
    (TokenKind.ofRun?_minutes hne hdigits) token.span.start
  have hstrikes := kind_ofPiece_of_digits hne hdigits rfl (not_of_all (by decide))
    (TokenKind.ofRun?_strikes hne hdigits) token.span.start
  have hminutes : pool.idList.toList ++ [':', '0', '0'] = (pool.idList ++ ":00").toList := by
    simp
  have hlimit : pool.idList.toList ++ ['X'] = (pool.idList ++ "X").toList := by
    simp
  rw [hminutes, String.ofList_toList] at htime
  rw [hlimit, String.ofList_toList] at hstrikes
  refine ⟨prior, _, _, _, others, haround.order, hsuggest, rfl, ?_, ?_, ?_⟩
  · exact endsWith_pick haround hstub rfl (by simp [Candidate.byId])
      (h.plain_append (by decide)) htime
  · exact endsWith_pick haround hstub rfl (by simp [Candidate.byId])
      (h.plain_append (by decide)) hstrikes
  · intro more hmore
    -- no space comes between the star and what is typed next
    have hexpects : (Candidate.byId (pool.idList ++ "*") "[Set module pool count]"
        pool.idList.utf8ByteSize).expectsMore = true := by
      simp [Candidate.expectsMore, Candidate.byId, String.toList_append]
    have hpicked : (Edit.pick text text.utf8ByteSize (.byId (pool.idList ++ "*")
        "[Set module pool count]" pool.idList.utf8ByteSize)).text.toList = _ :=
      text_pick_of_stub hstub rfl (h.plain_append (by decide))
    refine goesOn_of_star haround hdigits hmore ?_
    rw [String.toList_append, hpicked, hexpects]
    simp [Candidate.byId]

/-- A number after a time. -/
theorem number_shortcuts_twelve :
    TypedNumber "1:30 12" ⟨⟨5, 2⟩, .pool ⟨none, "12", 5⟩⟩ ⟨none, "12", 5⟩ ∧
      ∃ prior time strikes count others,
        (ofText "1:30 12").tokens = prior ++ [⟨⟨5, 2⟩, .pool ⟨none, "12", 5⟩⟩] ∧
        ({} : Context).suggest "1:30 12" 7 = time :: strikes :: count :: others ∧
        EndsWith (Edit.pick "1:30 12" 7 time).text prior 5 (.time ⟨none, 12, 0⟩) ∧
        EndsWith (Edit.pick "1:30 12" 7 strikes).text prior 5 (.strikes 12) ∧
        GoesOn ((Edit.pick "1:30 12" 7 count).text ++ "Wires 4X") prior 5 (some 12) := by
  have hnumber : TypedNumber "1:30 12" ⟨⟨5, 2⟩, .pool ⟨none, "12", 5⟩⟩ ⟨none, "12", 5⟩ :=
    ⟨by decide +kernel, rfl, rfl, List.all_eq_true.1 (by decide)⟩
  obtain ⟨prior, time, strikes, count, others, htokens, hsuggest, -, htime, hstrikes, hcount⟩ :=
    number_shortcuts hnumber {}
  exact ⟨hnumber, prior, time, strikes, count, others, htokens, hsuggest, htime, hstrikes,
    hcount "Wires 4X" ⟨'W', by decide, by decide⟩⟩

/-- **A number of ten digits becomes no time**, although it is offered as one. -/
theorem long_number_is_no_time :
    ¬ ∀ (context : Context) (text : String) (token : Token) (pool : PoolToken),
        TypedNumber text token pool →
      ∃ prior time strikes count others,
        (ofText text).tokens = prior ++ [token] ∧
        context.suggest text text.utf8ByteSize = time :: strikes :: count :: others ∧
        EndsWith (Edit.pick text text.utf8ByteSize time).text prior token.span.start
          (.time ⟨none, digitsValue pool.idList.toList, 0⟩) ∧
        EndsWith (Edit.pick text text.utf8ByteSize strikes).text prior token.span.start
          (.strikes (digitsValue pool.idList.toList)) ∧
        ∀ more : String, (∃ c ∈ more.toList.head?, isBlank c = false) →
          GoesOn ((Edit.pick text text.utf8ByteSize count).text ++ more) prior token.span.start
            (some (digitsValue pool.idList.toList)) := by
  intro hall
  have hnumber : TypedNumber "1234567890" ⟨⟨0, 10⟩, .pool ⟨none, "1234567890", 0⟩⟩
      ⟨none, "1234567890", 0⟩ :=
    ⟨by decide +kernel, rfl, rfl, List.all_eq_true.1 (by decide)⟩
  have hfirst : (({} : Context).suggest "1234567890" 10).head? =
      some (.byId "1234567890:00" "[Set time]" 10) := by
    decide +kernel
  have hpicked : (ofText (Edit.pick "1234567890" 10
      (.byId "1234567890:00" "[Set time]" 10)).text).tokens.getLast? =
      some ⟨⟨0, 13⟩, .pool ⟨none, "1234567890:00", 0⟩⟩ := by
    decide +kernel
  obtain ⟨prior, time, strikes, count, others, -, hsuggest, ⟨last, hlast, -, hkind⟩, -⟩ :=
    hall {} _ _ _ hnumber
  have hsize : "1234567890".utf8ByteSize = 10 := by decide
  rw [hsize] at hsuggest hlast
  rw [hsuggest] at hfirst
  obtain rfl := Option.some.inj hfirst
  rw [hlast, List.getLast?_concat] at hpicked
  obtain rfl := Option.some.inj hpicked
  cases hkind

end MissionText
