import MissionText.Proofs.Draft.Exchange
/-!
# Tallies — how often each problem of a setting is reported

A limit or a factory mode may be said once. The first time it is said decides
whether it is valid, and **that it is said again is reported exactly once**,
however often that is. A number that is none is reported wherever it stands,
and so is a factory where there are none. A problem is reported by the tokens
of its group alone (`count_complaints`), so its count hangs on what those say;
three laws carry it over a whole reading, one for each way of reporting.
-/

namespace MissionText

open Text

/-- The problems that a line is answered with. A mission has none. -/
def Mission.problems (context : Context) (text : String) : List Diagnostic :=
  match parse context text with
  | .ok _ => []
  | .error problems => problems

namespace Draft

variable {context : Context} {draft : Draft} {token : Token} {tokens : List Token}
  {problem : Diagnostic} {group : Group} {text : String}

/-! ## The complaints of one group -/

/-- What a token complains of within a group. -/
def complaintsIn (context : Context) (draft : Draft) (token : Token) :
    Group → List Diagnostic
  | .time => draft.timeComplaints token
  | .strikes => draft.strikeComplaints token
  | .widgets => numberComplaints .widgets .invalidWidgetCount token
  | .needyActivationTime =>
    numberComplaints .needyActivationTime .invalidNeedyActivationTime token
  | .noPacing | .frontOnly => []
  | .factory => draft.factoryComplaints context token
  | .pool => poolComplaints context token

theorem complaintsIn_of_ne (h : token.group ≠ group) :
    complaintsIn context draft token group = [] := by
  cases group with
  | time => exact timeComplaints_of_group h
  | strikes => exact strikeComplaints_of_group h
  | widgets => exact numberComplaints_of_group h
  | needyActivationTime => exact numberComplaints_of_group h
  | noPacing => rfl
  | frontOnly => rfl
  | factory => exact factoryComplaints_of_group h
  | pool => exact poolComplaints_of_group h

/-- A token complains of nothing but what is of its group. -/
theorem complaints_eq_complaintsIn :
    complaints context draft token = complaintsIn context draft token token.group := by
  have hall : complaints context draft token =
      complaintsIn context draft token .time ++ complaintsIn context draft token .strikes ++
        complaintsIn context draft token .widgets ++
        complaintsIn context draft token .needyActivationTime ++
        complaintsIn context draft token .factory ++ complaintsIn context draft token .pool := rfl
  have hnil (other : Group) (hne : token.group ≠ other) :
      complaintsIn context draft token other = [] := complaintsIn_of_ne hne
  rw [hall]
  cases hgroup : token.group with
  | noPacing | frontOnly =>
    change _ = []
    simp [hnil, hgroup]
  | _ => simp [hnil, hgroup]

/-- **A problem is counted within its group.** -/
theorem count_complaints (h : problem.group? = some group) :
    (complaints context draft token).count problem =
      (complaintsIn context draft token group).count problem := by
  by_cases hgroup : token.group = group
  · rw [complaints_eq_complaintsIn, hgroup]
  · rw [complaintsIn_of_ne hgroup, List.count_nil, List.count_eq_zero]
    intro hmem
    exact hgroup (Option.some.inj ((group?_of_mem_complaints hmem).symm.trans h))

/-! ## Three ways to report -/

section Laws

variable {α : Type} (said : Token → Option α)

/-- What is said again is reported once. -/
theorem count_repeated
    (h : ∀ tokens token, (complaints context (ofTokens context tokens) token).count problem =
      if (said token).isSome ∧ tokens.filterMap said ≠ [] ∧
        problem ∉ (ofTokens context tokens).problems then 1 else 0) (tokens : List Token) :
    (ofTokens context tokens).problems.count problem =
      if 2 ≤ (tokens.filterMap said).length then 1 else 0 := by
  induction tokens using List.reverseRecOn with
  | nil => rfl
  | append_singleton tokens token ih =>
    -- the problem was reported before exactly if what was said is said twice
    have hnot : problem ∉ (ofTokens context tokens).problems ↔
        (tokens.filterMap said).length < 2 := by
      rw [← List.count_eq_zero, ih]
      split <;> omega
    rw [problems_ofTokens_concat, List.count_append, ih, h, filterMap_concat, List.length_append]
    simp only [hnot, ← List.length_pos_iff]
    cases said token with
    | none => grind
    | some a => grind

/-- What is said first decides. -/
theorem count_first (bad : α → Prop) [DecidablePred bad]
    (h : ∀ tokens token, (complaints context (ofTokens context tokens) token).count problem =
      if tokens.filterMap said = [] ∧ ∃ a ∈ said token, bad a then 1 else 0)
    (tokens : List Token) :
    (ofTokens context tokens).problems.count problem =
      if ∃ a ∈ (tokens.filterMap said).head?, bad a then 1 else 0 := by
  induction tokens using List.reverseRecOn with
  | nil => simp [ofTokens]
  | append_singleton tokens token ih =>
    rw [problems_ofTokens_concat, List.count_append, ih, h, filterMap_concat, List.head?_append]
    cases tokens.filterMap said with
    | nil => cases said token <;> simp
    | cons a as => simp

/-- Everything that is said is looked at. -/
theorem count_each (bad : α → Bool)
    (h : ∀ tokens token, (complaints context (ofTokens context tokens) token).count problem =
      (said token).toList.countP bad) (tokens : List Token) :
    (ofTokens context tokens).problems.count problem = (tokens.filterMap said).countP bad := by
  induction tokens using List.reverseRecOn with
  | nil => rfl
  | append_singleton tokens token ih =>
    rw [problems_ofTokens_concat, List.count_append, ih, h, filterMap_concat, List.countP_append]

end Laws

/-! ## What may be said once -/

section FirstOnly

variable {α : Type} {bad : α → Prop} [DecidablePred bad] {said : Option α} {before : List α}
  {problems : List Diagnostic} {again invalid : Diagnostic}

/-- What is complained of where something may be said once, and was said before
as listed. -/
def firstOnly (bad : α → Prop) [DecidablePred bad] (again invalid : Diagnostic)
    (problems : List Diagnostic) : Option α → List α → List Diagnostic
  | none, _ => []
  | some a, [] => if bad a then [invalid] else []
  | some _, _ :: _ => once problems again

variable (hne : again ≠ invalid)

include hne

theorem count_again_firstOnly :
    (firstOnly bad again invalid problems said before).count again =
      if said.isSome ∧ before ≠ [] ∧ again ∉ problems then 1 else 0 := by
  rcases said with - | a
  · simp [firstOnly]
  · cases before with
    | nil => by_cases hbad : bad a <;> simp [firstOnly, hbad, hne.symm]
    | cons first others => by_cases hknown : again ∈ problems <;> simp [firstOnly, once, hknown]

theorem count_invalid_firstOnly :
    (firstOnly bad again invalid problems said before).count invalid =
      if before = [] ∧ ∃ a ∈ said, bad a then 1 else 0 := by
  rcases said with - | a
  · simp [firstOnly]
  · cases before with
    | nil => by_cases hbad : bad a <;> simp [firstOnly, hbad]
    | cons first others =>
      by_cases hknown : again ∈ problems <;> simp [firstOnly, once, hknown, hne]

end FirstOnly

theorem timeComplaints_ofTokens (context : Context) (tokens : List Token) (token : Token) :
    (ofTokens context tokens).timeComplaints token =
      firstOnly (fun time : TimeToken => time.total = 0) .timeSpecifiedMultipleTimes
        .invalidTimeLimit (ofTokens context tokens).problems token.time? (times tokens) := by
  rw [timeComplaints, timeLimit_ofTokens]
  cases token.time? with
  | none => rfl
  | some time => cases times tokens <;> rfl

theorem strikeComplaints_ofTokens (context : Context) (tokens : List Token) (token : Token) :
    (ofTokens context tokens).strikeComplaints token =
      firstOnly (fun source => source = none ∨ source = some 0)
        .strikeLimitSpecifiedMultipleTimes .invalidStrikeLimit (ofTokens context tokens).problems
        token.strikes? (strikeSources tokens) := by
  rw [strikeComplaints, strikeLimit_ofTokens]
  cases token.strikes? with
  | none => rfl
  | some source =>
    cases strikeSources tokens with
    | nil => cases source <;> simp [firstOnly]
    | cons first others => rfl

/-- The value of a factory setting where there are factories. -/
def allowedFactory? (context : Context) (token : Token) : Option String :=
  if context.factoryEnabled then token.factory? else none

theorem filterMap_allowedFactory? (context : Context) (tokens : List Token) :
    tokens.filterMap (allowedFactory? context) =
      if context.factoryEnabled then factoryValues tokens else [] := by
  rw [factoryValues]
  split
  · rename_i henabled
    exact List.filterMap_congr fun token _ => if_pos henabled
  · rename_i hdisabled
    exact List.filterMap_eq_nil_iff.2 fun token _ => if_neg hdisabled

theorem factoryComplaints_ofTokens (context : Context) (tokens : List Token) (token : Token) :
    (ofTokens context tokens).factoryComplaints context token =
      firstOnly (FactoryMode.ofKeyword? · = none) .factorySpecifiedMultipleTimes
        .invalidFactoryMode (ofTokens context tokens).problems (allowedFactory? context token)
        (tokens.filterMap (allowedFactory? context)) ++
      if context.factoryEnabled then []
      else token.factory?.toList.map fun _ => .factoryNotEnabled := by
  rw [factoryComplaints, factory_ofTokens, filterMap_allowedFactory?, allowedFactory?]
  cases context.factoryEnabled with
  | false => cases token.factory? <;> rfl
  | true =>
    cases token.factory? with
    | none => rfl
    | some value => cases factoryValues tokens <;> simp [firstOnly]

/-! ## A whole reading -/

theorem count_timeSpecifiedMultipleTimes (context : Context) (tokens : List Token) :
    (ofTokens context tokens).problems.count .timeSpecifiedMultipleTimes =
      if 2 ≤ (times tokens).length then 1 else 0 := by
  refine count_repeated Token.time? (fun tokens token => ?_) tokens
  rw [count_complaints rfl, complaintsIn, timeComplaints_ofTokens,
    count_again_firstOnly (by decide), times]

theorem count_invalidTimeLimit (context : Context) (tokens : List Token) :
    (ofTokens context tokens).problems.count .invalidTimeLimit =
      if ∃ time ∈ (times tokens).head?, time.total = 0 then 1 else 0 := by
  refine count_first Token.time? (·.total = 0) (fun tokens token => ?_) tokens
  rw [count_complaints rfl, complaintsIn, timeComplaints_ofTokens,
    count_invalid_firstOnly (by decide), times]

theorem count_strikeLimitSpecifiedMultipleTimes (context : Context) (tokens : List Token) :
    (ofTokens context tokens).problems.count .strikeLimitSpecifiedMultipleTimes =
      if 2 ≤ (strikeSources tokens).length then 1 else 0 := by
  refine count_repeated Token.strikes? (fun tokens token => ?_) tokens
  rw [count_complaints rfl, complaintsIn, strikeComplaints_ofTokens,
    count_again_firstOnly (by decide), strikeSources]

theorem count_invalidStrikeLimit (context : Context) (tokens : List Token) :
    (ofTokens context tokens).problems.count .invalidStrikeLimit =
      if ∃ source ∈ (strikeSources tokens).head?, source = none ∨ source = some 0 then 1
      else 0 := by
  refine count_first Token.strikes? (fun source => source = none ∨ source = some 0)
    (fun tokens token => ?_) tokens
  rw [count_complaints rfl, complaintsIn, strikeComplaints_ofTokens,
    count_invalid_firstOnly (by decide), strikeSources]

theorem count_factorySpecifiedMultipleTimes (context : Context) (tokens : List Token) :
    (ofTokens context tokens).problems.count .factorySpecifiedMultipleTimes =
      if context.factoryEnabled = true ∧ 2 ≤ (factoryValues tokens).length then 1 else 0 := by
  rw [count_repeated (allowedFactory? context) (fun tokens token => ?_) tokens,
    filterMap_allowedFactory?]
  · cases context.factoryEnabled <;> simp
  · rw [count_complaints rfl, complaintsIn, factoryComplaints_ofTokens, List.count_append,
      count_again_firstOnly (by decide), Nat.add_eq_left]
    cases context.factoryEnabled <;> simp [List.count_eq_zero]

theorem count_invalidFactoryMode (context : Context) (tokens : List Token) :
    (ofTokens context tokens).problems.count .invalidFactoryMode =
      if context.factoryEnabled = true ∧
        ∃ value ∈ (factoryValues tokens).head?, FactoryMode.ofKeyword? value = none then 1
      else 0 := by
  rw [count_first (allowedFactory? context) (FactoryMode.ofKeyword? · = none)
    (fun tokens token => ?_) tokens, filterMap_allowedFactory?]
  · cases context.factoryEnabled <;> simp
  · rw [count_complaints rfl, complaintsIn, factoryComplaints_ofTokens, List.count_append,
      count_invalid_firstOnly (by decide), Nat.add_eq_left]
    cases context.factoryEnabled <;> simp [List.count_eq_zero]

theorem count_factoryNotEnabled (context : Context) (tokens : List Token) :
    (ofTokens context tokens).problems.count .factoryNotEnabled =
      if context.factoryEnabled = true then 0 else (factoryValues tokens).length := by
  rw [count_each Token.factory? (fun _ => !context.factoryEnabled) (fun tokens token => ?_) tokens,
    factoryValues]
  · cases context.factoryEnabled <;> simp
  · rw [count_complaints rfl, complaintsIn, factoryComplaints, factory_ofTokens]
    cases token.factory? with
    | none => simp
    | some value =>
      cases context.factoryEnabled with
      | false => simp
      | true => cases (factoryValues tokens).head? <;> grind [once]

/-- A number that is none is complained of. -/
theorem count_numberComplaints (name : SettingName) (problem : Diagnostic) (token : Token) :
    (numberComplaints name problem token).count problem =
      (token.valueOf? name).toList.countP fun value => settingNumber? value = none := by
  rw [numberComplaints]
  cases token.valueOf? name with
  | none => rfl
  | some value => cases hnumber : settingNumber? value <;> simp [hnumber]

theorem count_invalidWidgetCount (context : Context) (tokens : List Token) :
    (ofTokens context tokens).problems.count .invalidWidgetCount =
      (valuesOf .widgets tokens).countP fun value => settingNumber? value = none := by
  refine count_each (Token.valueOf? .widgets) _ (fun tokens token => ?_) tokens
  rw [count_complaints rfl, complaintsIn, count_numberComplaints]

theorem count_invalidNeedyActivationTime (context : Context) (tokens : List Token) :
    (ofTokens context tokens).problems.count .invalidNeedyActivationTime =
      (valuesOf .needyActivationTime tokens).countP fun value => settingNumber? value = none := by
  refine count_each (Token.valueOf? .needyActivationTime) _ (fun tokens token => ?_) tokens
  rw [count_complaints rfl, complaintsIn, count_numberComplaints]

/-- **The problems of limits and other settings, counted**: `problems` are all
that is wrong with a line of these tokens. -/
structure Tallied (context : Context) (tokens : List Token) (problems : List Diagnostic) :
    Prop where
  /-- A second time limit and all further ones are reported once. -/
  timeAgain : problems.count .timeSpecifiedMultipleTimes =
    if 2 ≤ (times tokens).length then 1 else 0
  /-- The first time limit alone decides whether there is an invalid one. -/
  time : problems.count .invalidTimeLimit =
    if ∃ time ∈ (times tokens).head?, time.total = 0 then 1 else 0
  /-- Strike limits are counted as fields and as settings together. -/
  strikesAgain : problems.count .strikeLimitSpecifiedMultipleTimes =
    if 2 ≤ (strikeSources tokens).length then 1 else 0
  /-- The first one decides, and is invalid if it is zero or no number. -/
  strikes : problems.count .invalidStrikeLimit =
    if ∃ source ∈ (strikeSources tokens).head?, source = none ∨ source = some 0 then 1 else 0
  factoryAgain : problems.count .factorySpecifiedMultipleTimes =
    if context.factoryEnabled = true ∧ 2 ≤ (factoryValues tokens).length then 1 else 0
  factoryMode : problems.count .invalidFactoryMode =
    if context.factoryEnabled = true ∧
      ∃ value ∈ (factoryValues tokens).head?, FactoryMode.ofKeyword? value = none then 1 else 0
  /-- Where there are no factories, every factory setting is reported. -/
  factory : problems.count .factoryNotEnabled =
    if context.factoryEnabled = true then 0 else (factoryValues tokens).length
  /-- Every widget count that is no number is reported. -/
  widgets : problems.count .invalidWidgetCount =
    (valuesOf .widgets tokens).countP fun value => settingNumber? value = none
  delays : problems.count .invalidNeedyActivationTime =
    (valuesOf .needyActivationTime tokens).countP fun value => settingNumber? value = none

/-- **The problems of a reading are tallied.** -/
theorem tallied_ofTokens (context : Context) (tokens : List Token) :
    Tallied context tokens (ofTokens context tokens).problems where
  timeAgain := count_timeSpecifiedMultipleTimes context tokens
  time := count_invalidTimeLimit context tokens
  strikesAgain := count_strikeLimitSpecifiedMultipleTimes context tokens
  strikes := count_invalidStrikeLimit context tokens
  factoryAgain := count_factorySpecifiedMultipleTimes context tokens
  factoryMode := count_invalidFactoryMode context tokens
  factory := count_factoryNotEnabled context tokens
  widgets := count_invalidWidgetCount context tokens
  delays := count_invalidNeedyActivationTime context tokens

/-- Only the problems of settings are tallied. -/
theorem Tallied.congr {problems others : List Diagnostic} (h : Tallied context tokens problems)
    (hcount : ∀ problem : Diagnostic, problem.scope = .setting →
      others.count problem = problems.count problem) : Tallied context tokens others where
  timeAgain := (hcount _ rfl).trans h.timeAgain
  time := (hcount _ rfl).trans h.time
  strikesAgain := (hcount _ rfl).trans h.strikesAgain
  strikes := (hcount _ rfl).trans h.strikes
  factoryAgain := (hcount _ rfl).trans h.factoryAgain
  factoryMode := (hcount _ rfl).trans h.factoryMode
  factory := (hcount _ rfl).trans h.factory
  widgets := (hcount _ rfl).trans h.widgets
  delays := (hcount _ rfl).trans h.delays

end Draft

/-- **First one counts, and repetition is reported once.** In the answer to a
line that is not blank, each problem of a setting stands as often as the tokens
of the line call for: once for whatever is said again, once at most for the
first limit and the first mode, and once for each number that is none. -/
theorem Mission.tallied_problems (context : Context) {text : String} (h : ¬ Blank text.toList) :
    Draft.Tallied context (Scan.ofText text).tokens (problems context text) := by
  have hparse : parse context text =
      (Draft.ofTokens context (Scan.ofText text).tokens).finish context := parse_eq_finish h
  generalize (Scan.ofText text).tokens = tokens at hparse ⊢
  have htallied := Draft.tallied_ofTokens context tokens
  rw [problems, hparse]
  cases hfinish : (Draft.ofTokens context tokens).finish context with
  | ok mission =>
    obtain ⟨hnone, -, -⟩ := Draft.finish_eq_ok_iff.1 hfinish
    rwa [hnone] at htallied
  | error problems =>
    obtain ⟨rfl, -⟩ := Draft.finish_eq_error_iff.1 hfinish
    refine htallied.congr fun problem hscope => ?_
    -- what is wrong with all pools together is no problem of a setting
    have htotal : problem ∉ (Draft.ofTokens context tokens).totalProblems context := by
      intro hmem
      rw [Draft.scope_of_mem_totalProblems hmem] at hscope
      cases hscope
    rw [List.count_append, List.count_eq_zero.2 htotal, Nat.add_zero]

/-- Three strike limits of two spellings, the first of them no number, and two
widget counts that are none. -/
theorem Mission.tallied_problems_strikes :
    parse {} "Wires strikes:many 0X widgets:-1 strikes:4 strikes: widgets:few" = .error
        [.invalidStrikeLimit, .strikeLimitSpecifiedMultipleTimes, .invalidWidgetCount,
          .invalidWidgetCount] ∧
      Draft.Tallied {}
        (Scan.ofText "Wires strikes:many 0X widgets:-1 strikes:4 strikes: widgets:few").tokens
        (problems {} "Wires strikes:many 0X widgets:-1 strikes:4 strikes: widgets:few") := by
  have hblank :
      ¬ Blank "Wires strikes:many 0X widgets:-1 strikes:4 strikes: widgets:few".toList := by
    intro hblank
    have hhead := hblank 'W' (by decide)
    revert hhead
    decide
  exact ⟨by decide +kernel, Mission.tallied_problems {} hblank⟩

end MissionText
