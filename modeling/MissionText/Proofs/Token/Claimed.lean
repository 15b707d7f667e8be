import MissionText.Proofs.Pattern.Matched
/-!
# Claimed — trying the shapes finds what the grammar has

A shape claims a text exactly if the run at the start of it is written as the
shape has it: what it matches up to a boundary is that run, and on such a run
its first match is the run. A pool is claimed whatever the text. So the first
shape that claims a text is the one the grammar has, and there always is one.
-/

namespace MissionText

open Text Token

variable {matcher : Matcher} {shape : Shape} {cs ds read rest run text : List Char} {c : Char}
  {start n : Nat} {groups : List (Nat × Held)} {found : Match}


/-- A group that holds a field holds its number. -/
theorem unsigned?_of_isField (h : IsField ds) :
    unsigned? settingBound ds = some (digitsValue ds) := by
  have hbound : digitsValue ds < settingBound :=
    Nat.lt_of_le_of_lt (field?_le h.field?) (by decide)
  have hall : ds.all Char.isDigit = true := List.all_eq_true.2 h.isDigit
  obtain ⟨d, ds, rfl⟩ := List.exists_cons_of_ne_nil h.ne_nil
  have hplus : d ≠ '+' := by
    rintro rfl
    cases h.isDigit '+' (by simp)
  simp [unsigned?, hplus, natural?, hall, hbound]

theorem WrittenTime.isBlank {time : TimeToken} (h : WrittenTime run time) :
    ∀ c ∈ run, isBlank c = false := by
  obtain ⟨hms, hss⟩ | ⟨hhs, hms, hss⟩ := h <;> intro c hc <;>
    simp only [List.mem_append, List.mem_cons] at hc
  · rcases hc with hc | rfl | hc
    · exact isBlank_of_isDigit (hms.isDigit c hc)
    · exact isBlank_colon
    · exact isBlank_of_isDigit (hss.isDigit c hc)
  · rcases hc with hc | rfl | hc | rfl | hc
    · exact isBlank_of_isDigit (hhs.isDigit c hc)
    · exact isBlank_colon
    · exact isBlank_of_isDigit (hms.isDigit c hc)
    · exact isBlank_colon
    · exact isBlank_of_isDigit (hss.isDigit c hc)

theorem WrittenStrikes.isBlank (h : WrittenStrikes run n) : ∀ c ∈ run, isBlank c = false := by
  obtain ⟨hds, hx⟩ := h
  intro c hc
  rw [List.mem_append, List.mem_singleton] at hc
  rcases hc with hc | rfl
  · exact isBlank_of_isDigit (hds.isDigit c hc)
  · rcases hx with rfl | rfl <;> decide

/-- A text is at a boundary if it does not go on with ink. -/
theorem atBoundary_iff : AtBoundary cs ↔ cs.head?.any isInk = false := by
  cases cs with
  | nil => simp
  | cons c cs => simp

/-- Ink up to a boundary is the run at the start of a text. -/
theorem takeWhile_isInk_append (hread : ∀ c ∈ read, isBlank c = false) (hrest : AtBoundary rest) :
    (read ++ rest).takeWhile isInk = read := by
  rw [takeWhile_append_of_head hrest.isInk_head]
  exact List.takeWhile_eq_self_iff.2 (by simpa using hread)

namespace Shape

/-- **A shape claims a first match up to a boundary** if it can build a token
from it. -/
theorem claim?_of_first? (hfirst : shape.pattern.first? matcher.isWord text = some found)
    (hne : found.read ≠ []) (hrest : AtBoundary found.rest) (start : Nat) :
    claim? matcher start text shape =
      .ok ((shape.build? found start).map (⟨⟨start, width found.read⟩, ·⟩)) := by
  have happ := Pattern.append_eq_of_first? hfirst
  subst happ
  simp only [claim?, matcher.find?_eq, hfirst, Checked.after_append]
  simp [hne, atBoundary_iff.1 hrest, bind, Except.bind, pure, Except.pure]

/-- **A shape claims nothing else.** -/
theorem claim?_eq_none
    (h : ∀ found, shape.pattern.first? matcher.isWord text = some found → AtBoundary found.rest →
      shape.build? found start = none) :
    claim? matcher start text shape = .ok none := by
  simp only [claim?, matcher.find?_eq]
  cases hfirst : shape.pattern.first? matcher.isWord text with
  | none => rfl
  | some found =>
    have happ := Pattern.append_eq_of_first? hfirst
    have hbuild := h found hfirst
    subst happ
    simp only [Checked.after_append]
    by_cases hrest : AtBoundary found.rest
    · simp [hbuild hrest, bind, Except.bind, pure, Except.pure]
    · rw [atBoundary_iff, Bool.not_eq_false] at hrest
      simp [hrest, bind, Except.bind, pure, Except.pure]

/-- The claim of a shape whose first match is the run at the start of a text. -/
theorem claim?_of_run {kind : TokenKind} (hne : text.takeWhile isInk ≠ [])
    (hfirst : shape.pattern.first? matcher.isWord (text.takeWhile isInk ++ text.dropWhile isInk) =
      some ⟨text.takeWhile isInk, text.dropWhile isInk, groups⟩)
    (hbuild : shape.build? ⟨text.takeWhile isInk, text.dropWhile isInk, groups⟩ start = some kind) :
    claim? matcher start text shape =
      .ok (some ⟨⟨start, width (text.takeWhile isInk)⟩, kind⟩) := by
  rw [List.takeWhile_append_dropWhile] at hfirst
  rw [claim?_of_first? hfirst hne (atBoundary_dropWhile text), hbuild]
  rfl

/-! ### Times -/

theorem claim?_time {time : TimeToken} (h : WrittenTime (text.takeWhile isInk) time) :
    claim? matcher start text .time =
      .ok (some ⟨⟨start, width (text.takeWhile isInk)⟩, .time time⟩) := by
  have hrest := atBoundary_dropWhile text
  generalize hrun : text.takeWhile isInk = run at h
  obtain ⟨hms, hss⟩ | ⟨hhs, hms, hss⟩ := h
  · have hfirst := Pattern.first?_time_short hms hss hrest matcher.isWord
    rw [← hrun] at hfirst ⊢
    refine claim?_of_run (by simp [hrun]) hfirst ?_
    simp [Shape.time, Match.number?, unsigned?_of_isField hms, unsigned?_of_isField hss]
  · have hfirst := Pattern.first?_time_long hms hss hrest matcher.isWord hhs
    rw [← hrun] at hfirst ⊢
    refine claim?_of_run (by simp [hrun]) hfirst ?_
    simp [Shape.time, Match.number?, unsigned?_of_isField hhs, unsigned?_of_isField hms,
      unsigned?_of_isField hss]

theorem claim?_time_eq_none (h : ∀ time, ¬ WrittenTime (text.takeWhile isInk) time) :
    claim? matcher start text .time = .ok none := by
  refine claim?_eq_none fun found hfirst hrest => ?_
  obtain ⟨time, htime⟩ := Pattern.exists_writtenTime (List.mem_of_head? hfirst)
  have hrun := takeWhile_isInk_append htime.isBlank hrest
  rw [Pattern.append_eq_of_first? hfirst] at hrun
  exact absurd (hrun ▸ htime) (h time)

/-! ### Strike limits -/

theorem claim?_strikes (h : WrittenStrikes (text.takeWhile isInk) n) :
    claim? matcher start text .strikes =
      .ok (some ⟨⟨start, width (text.takeWhile isInk)⟩, .strikes n⟩) := by
  have hrest := atBoundary_dropWhile text
  generalize hrun : text.takeWhile isInk = run at h
  obtain ⟨hds, hc⟩ := h
  have hfirst := Pattern.first?_strikes matcher hds hc hrest
  rw [← hrun] at hfirst ⊢
  refine claim?_of_run (by simp [hrun]) hfirst ?_
  simp [Shape.strikes, Match.number?, unsigned?_of_isField hds]

theorem claim?_strikes_eq_none (h : ∀ n, ¬ WrittenStrikes (text.takeWhile isInk) n) :
    claim? matcher start text .strikes = .ok none := by
  refine claim?_eq_none fun found hfirst hrest => ?_
  obtain ⟨n, hstrikes⟩ := Pattern.exists_writtenStrikes (List.mem_of_head? hfirst)
  have hrun := takeWhile_isInk_append hstrikes.isBlank hrest
  rw [Pattern.append_eq_of_first? hfirst] at hrun
  exact absurd (hrun ▸ hstrikes) (h n)

/-! ### Settings -/

theorem claim?_setting {setting : SettingToken} (hne : text.takeWhile isInk ≠ [])
    (h : WrittenSetting (text.takeWhile isInk) setting) :
    claim? matcher start text .setting =
      .ok (some ⟨⟨start, width (text.takeWhile isInk)⟩, .setting setting⟩) := by
  have hrest := atBoundary_dropWhile text
  have hink : ∀ c ∈ text.takeWhile isInk, isBlank c = false := fun c hc => by
    simpa using List.mem_takeWhile_imp hc
  generalize hrun : text.takeWhile isInk = run at h
  obtain ⟨hraw⟩ | ⟨hraw, value⟩ := h
  · have hfirst := Pattern.first?_setting_bare hraw hrest matcher.isWord
    rw [← hrun] at hfirst hraw ⊢
    refine claim?_of_run hne hfirst ?_
    simp [Shape.setting, SettingName.ofKeyword?_eq_some_iff.2 hraw]
  · have hvalue : ∀ c ∈ value, isBlank c = false := fun c hc => hink c (by rw [hrun]; simp [hc])
    have hfirst := Pattern.first?_setting_valued hraw hvalue hrest matcher.isWord
    rw [← hrun] at hfirst ⊢
    refine claim?_of_run hne hfirst ?_
    simp [Shape.setting, SettingName.ofKeyword?_eq_some_iff.2 hraw]

theorem claim?_setting_eq_none (h : ∀ setting, ¬ WrittenSetting (text.takeWhile isInk) setting) :
    claim? matcher start text .setting = .ok none := by
  refine claim?_eq_none fun found hfirst hrest => ?_
  obtain ⟨name, raw, hraw, hgroup, hread⟩ :=
    Pattern.read_of_mem_ways_setting (List.mem_of_head? hfirst)
  have hplain := Pattern.isBlank_of_map_caseFold hraw
  -- a keyword that is one in the ASCII range would make a setting of the run
  have hname : SettingName.ofKeyword? (String.ofList raw) = none := by
    rw [Option.eq_none_iff_forall_ne_some]
    intro other hother
    have hkeyword := SettingName.ofKeyword?_eq_some_iff.1 hother
    have hwritten : ∃ setting, WrittenSetting found.read setting := by
      rcases hread with hread | ⟨value, hread, -⟩
      · exact hread ▸ ⟨_, .bare hkeyword⟩
      · exact hread ▸ ⟨_, .valued hkeyword value⟩
    have hink : ∀ c ∈ found.read, isBlank c = false := by
      rcases hread with hread | ⟨value, hread, hvalue⟩
      · exact hread ▸ hplain
      · intro c hc
        rw [hread, List.mem_append, List.mem_cons] at hc
        rcases hc with hc | rfl | hc
        · exact hplain c hc
        · exact isBlank_colon
        · exact hvalue c hc
    have hrun := takeWhile_isInk_append hink hrest
    rw [Pattern.append_eq_of_first? hfirst] at hrun
    obtain ⟨setting, hsetting⟩ := hwritten
    exact h setting (hrun ▸ hsetting)
  simp [Shape.setting, hgroup, hname]

/-! ### Pools -/

theorem atBoundary_quotedRun (cs : List Char) : AtBoundary (quotedRun false cs).2 := by
  rcases quotedRun_stop false cs with hnil | ⟨hrest, -⟩
  · rw [hnil]
    exact atBoundary_nil
  · exact hrest

/-- **The pool shape claims every text that begins with ink**, as the pool that
is read there. -/
theorem claim?_pool (hink : isBlank c = false) :
    claim? matcher start (c :: cs) .pool =
      .ok (some ⟨⟨start, (PoolToken.read start (c :: cs)).1.stop - start⟩,
        .pool (PoolToken.read start (c :: cs)).1⟩) := by
  by_cases hcount : Counted (c :: cs)
  · generalize hcs : c :: cs = text at hcount ⊢
    have hread := PoolToken.read_eq start text
    obtain ⟨hds, hsep, hd⟩ := hcount
    rename_i ds tail sep d
    have hone : sep.utf8Size = 1 := by rcases hsep with rfl | rfl <;> rfl
    have hfirst : Shape.pool.pattern.first? matcher.isWord (ds ++ sep :: d :: tail) = some _ :=
      Pattern.first?_pool_counted hds hsep hd matcher.isWord
    rw [PoolToken.readCount_of_counted (.field hds hsep hd) hds hsep] at hread
    rw [claim?_of_first? hfirst (by simp) (atBoundary_quotedRun _), hread]
    simp [Shape.pool, Match.number?, unsigned?_of_isField hds, PoolToken.stop, hone]
    omega
  · have hfirst : Shape.pool.pattern.first? matcher.isWord (c :: cs) = some _ :=
      Pattern.first?_pool_plain hcount hink matcher.isWord
    have hread := PoolToken.read_eq start (c :: cs)
    have hne : (quotedRun false (c :: cs)).1 ≠ [] := by simp [quotedRun, hink]
    rw [PoolToken.readCount_of_not_counted hcount] at hread
    rw [claim?_of_first? hfirst hne (atBoundary_quotedRun _), hread]
    simp [Shape.pool, Match.number?, PoolToken.stop]

end Shape

/-! ## The first claim -/

namespace Token

variable {before : List Char}

/-- **Trying the shapes finds what is read.** The shape that claims a text is
that of the token, and there always is one. -/
theorem claimed?_eq_read (matcher : Matcher) (hink : isBlank c = false) :
    claimed? matcher (before ++ c :: cs) (width before) =
      .ok (some (Token.read (width before) (c :: cs)).1) := by
  have hne : (c :: cs).takeWhile isInk ≠ [] := by simp [hink]
  have hcut : Checked.after (before ++ c :: cs) (width before) = .ok (c :: cs) :=
    Checked.after_append
  obtain ⟨token, htoken⟩ := exists_classified (width before) (c :: cs)
  rw [claimed?, hcut, ← htoken.eq_read]
  simp only [bind, Except.bind, Shape.all, Shape.firstClaim?]
  cases htoken with
  | time htime => rw [Shape.claim?_time htime]; rfl
  | strikes htime hstrikes =>
    rw [Shape.claim?_time_eq_none htime, Shape.claim?_strikes hstrikes]
    rfl
  | setting htime hstrikes hsetting =>
    rw [Shape.claim?_time_eq_none htime, Shape.claim?_strikes_eq_none hstrikes,
      Shape.claim?_setting hne hsetting]
    rfl
  | pool htime hstrikes hsetting hpool =>
    rw [Shape.claim?_time_eq_none htime, Shape.claim?_strikes_eq_none hstrikes,
      Shape.claim?_setting_eq_none hsetting, Shape.claim?_pool hink,
      PoolToken.read_eq_iff.2 hpool]
    rfl

/-- Classifying the text at an offset is reading it. -/
theorem classify_eq_read (matcher : Matcher) (hink : isBlank c = false) :
    classify matcher (before ++ c :: cs) (width before) =
      .ok (Token.read (width before) (c :: cs)).1 := by
  rw [classify, claimed?_eq_read matcher hink]
  rfl

/-- **Classification is the grammar.** At an offset where ink begins, some shape
claims the text, so that the text is never left unclaimed; and the token that it
is classified as is the one that the grammar has there, which is also the one
that a scan reads. -/
theorem classify_eq_ok_iff_classified (matcher : Matcher) {text : String}
    (hcut : cut? text.toList start = some (before, c :: cs)) (hink : isBlank c = false) :
    (∃ token, claimed? matcher text.toList start = .ok (some token)) ∧
      classify matcher text.toList start = .ok (Token.read start (c :: cs)).1 ∧
      ∀ token, classify matcher text.toList start = .ok token ↔
        Classified start (c :: cs) token := by
  obtain ⟨happ, hwidth⟩ := append_of_cut? hcut
  have hclassify : classify matcher text.toList start = .ok (Token.read start (c :: cs)).1 := by
    rw [← happ, ← hwidth]
    exact classify_eq_read matcher hink
  refine ⟨?_, hclassify, fun token => ?_⟩
  · rw [← happ, ← hwidth]
    exact ⟨_, claimed?_eq_read matcher hink⟩
  · rw [hclassify, Except.ok.injEq, eq_comm, classified_iff]

/-- A keyword with a long s is one for the pattern of a setting, but names no
setting, and so is a pool. -/
theorem classify_long_s :
    cut? "5X ſtrikes:3 Wires".toList 3 = some ("5X ".toList, 'ſ' :: "trikes:3 Wires".toList) ∧
      isBlank 'ſ' = false ∧
      classify .ascii "5X ſtrikes:3 Wires".toList 3 =
        .ok ⟨⟨3, 10⟩, .pool ⟨none, "ſtrikes:3", 3⟩⟩ ∧
      Classified 3 ('ſ' :: "trikes:3 Wires".toList) ⟨⟨3, 10⟩, .pool ⟨none, "ſtrikes:3", 3⟩⟩ := by
  have hcut : cut? "5X ſtrikes:3 Wires".toList 3 =
      some ("5X ".toList, 'ſ' :: "trikes:3 Wires".toList) := by decide
  have hink : isBlank 'ſ' = false := by decide
  have hread : (Token.read 3 ('ſ' :: "trikes:3 Wires".toList)).1 =
      ⟨⟨3, 10⟩, .pool ⟨none, "ſtrikes:3", 3⟩⟩ := by decide +kernel
  obtain ⟨-, hclassify, hgrammar⟩ := classify_eq_ok_iff_classified .ascii hcut hink
  rw [hread] at hclassify
  exact ⟨hcut, hink, hclassify, (hgrammar _).1 hclassify⟩

end Token

end MissionText
