import MissionText.Mission.Draft
/-!
# Steps — what one token does to a draft

A token does two things to a draft. It fills slots (`Draft.fill`), each of
which hangs on one thing the token says and on what the slot held before; and
it adds complaints to the problems (`Draft.complaints`). `Draft.add_eq` is
this equation, and all that is said about drafts is read off it. The slots of
a whole reading follow by one law for each way in which a slot is filled: the
first value stays, the last value stays, a switch is turned once, or values
are collected.
-/

namespace MissionText

/-! ## What a token says -/

namespace Token

/-- The time limit that a token gives. -/
def time? (token : Token) : Option TimeToken :=
  match token.kind with
  | .time time => some time
  | _ => none

/-- The value that a token gives to a setting. -/
def valueOf? (name : SettingName) (token : Token) : Option String :=
  match token.kind with
  | .setting setting => if setting.name = name then setting.value? else none
  | _ => none

/-- Whether a token is a setting of that name. -/
def sets (name : SettingName) (token : Token) : Bool :=
  match token.kind with
  | .setting setting => setting.name = name
  | _ => false

/-- The strike limit that a token gives, as a field or as the value of a
setting. The value may be no number. -/
def strikes? (token : Token) : Option (Option Nat) :=
  match token.kind with
  | .strikes count => some (some count)
  | _ => (token.valueOf? .strikes).map Draft.settingNumber?

/-- The value of a factory setting, which is empty where there is none. -/
def factory? (token : Token) : Option String :=
  if token.sets .factory then some ((token.valueOf? .factory).getD "") else none

theorem time?_eq_some_iff {token : Token} {time : TimeToken} :
    token.time? = some time ↔ token.kind = .time time := by
  rw [time?]
  cases token.kind <;> simp

theorem pool?_eq_some_iff {token : Token} {pool : PoolToken} :
    token.pool? = some pool ↔ token.kind = .pool pool := by
  rw [pool?]
  cases token.kind <;> simp

end Token

namespace Draft

variable {context : Context} {draft : Draft} {token : Token} {tokens : List Token}

/-- The pool that a token stands for. -/
def poolOf (context : Context) (token : PoolToken) : Pool :=
  ⟨token.count.getD 1, (context.resolvePool token).contents⟩

/-- The slots of a draft after a token. -/
def fill (context : Context) (draft : Draft) (token : Token) : Draft where
  problems := draft.problems
  timeLimit := draft.timeLimit.or (token.time?.map TimeToken.total)
  strikeLimit := draft.strikeLimit.or (token.strikes?.map (·.getD 0))
  pacing := draft.pacing && !token.sets .noPacing
  frontFaceOnly := draft.frontFaceOnly || token.sets .frontOnly
  widgetCount := ((token.valueOf? .widgets).bind settingNumber?).or draft.widgetCount
  needyActivationDelay :=
    ((token.valueOf? .needyActivationTime).bind settingNumber?).or draft.needyActivationDelay
  factory := draft.factory.or
    (if context.factoryEnabled then token.factory?.map FactoryMode.ofKeyword? else none)
  pools := draft.pools ++ (token.pool?.map (poolOf context)).toList
  anySolvable := draft.anySolvable ||
    token.pool?.any fun pool => (context.resolvePool pool).solvable

/-- A problem that is reported once. -/
def once (problems : List Diagnostic) (problem : Diagnostic) : List Diagnostic :=
  if problem ∈ problems then [] else [problem]

/-- What is wrong with a time limit. -/
def timeComplaints (draft : Draft) (token : Token) : List Diagnostic :=
  match token.time?, draft.timeLimit with
  | none, _ => []
  | some _, some _ => once draft.problems .timeSpecifiedMultipleTimes
  | some time, none => if time.total = 0 then [.invalidTimeLimit] else []

/-- What is wrong with a strike limit. -/
def strikeComplaints (draft : Draft) (token : Token) : List Diagnostic :=
  match token.strikes?, draft.strikeLimit with
  | none, _ => []
  | some _, some _ => once draft.problems .strikeLimitSpecifiedMultipleTimes
  | some count, none => if count.getD 0 = 0 then [.invalidStrikeLimit] else []

/-- What is wrong with the value of a setting that takes a number. -/
def numberComplaints (name : SettingName) (problem : Diagnostic) (token : Token) :
    List Diagnostic :=
  match token.valueOf? name with
  | none => []
  | some value => if (settingNumber? value).isNone then [problem] else []

/-- What is wrong with a factory setting. -/
def factoryComplaints (context : Context) (draft : Draft) (token : Token) : List Diagnostic :=
  match token.factory?, draft.factory with
  | none, _ => []
  | some _, some _ => once draft.problems .factorySpecifiedMultipleTimes
  | some value, none =>
    if context.factoryEnabled then
      if (FactoryMode.ofKeyword? value).isNone then [.invalidFactoryMode] else []
    else [.factoryNotEnabled]

/-- What is wrong with a pool. -/
def poolComplaints (context : Context) (token : Token) : List Diagnostic :=
  match token.pool? with
  | none => []
  | some pool =>
    (if pool.count = some 0 then [.invalidPoolCount] else []) ++
      (context.resolvePool pool).problems

/-- All that is wrong with a token, where the draft is what was said
before. -/
def complaints (context : Context) (draft : Draft) (token : Token) : List Diagnostic :=
  draft.timeComplaints token ++ draft.strikeComplaints token ++
    numberComplaints .widgets .invalidWidgetCount token ++
    numberComplaints .needyActivationTime .invalidNeedyActivationTime token ++
    draft.factoryComplaints context token ++ poolComplaints context token

theorem reportOnce_eq (draft : Draft) (problem : Diagnostic) :
    draft.reportOnce problem =
      { draft with problems := draft.problems ++ once draft.problems problem } := by
  rw [reportOnce, once]
  split
  · simp
  · rfl

theorem reportIf_eq (draft : Draft) (condition : Bool) (problem : Diagnostic) :
    draft.reportIf condition problem =
      { draft with problems := draft.problems ++ if condition then [problem] else [] } := by
  rw [reportIf]
  split
  · rfl
  · simp

/-- The equation of `add_eq` for a setting. -/
theorem add_setting (context : Context) (draft : Draft) (span : Span) (setting : SettingToken) :
    add context draft ⟨span, .setting setting⟩ =
      { draft.fill context ⟨span, .setting setting⟩ with
        problems := draft.problems ++ draft.complaints context ⟨span, .setting setting⟩ } := by
  obtain ⟨name, rawName, rawValue⟩ := setting
  obtain ⟨problems, time, strikes, pacing, front, widgets, delay, factory, pools, any⟩ := draft
  -- apart from the name, only the value without the empty one matters
  generalize hvalue : (SettingToken.mk name rawName rawValue).value? = value
  simp only [add, addSetting, fill, complaints, timeComplaints, strikeComplaints,
    numberComplaints, factoryComplaints, poolComplaints, Token.time?, Token.strikes?,
    Token.valueOf?, Token.sets, Token.factory?, Token.pool?, hvalue]
  cases name with
  | strikes =>
    cases value with
    | none => simp
    | some text => cases strikes <;> simp [addStrikes, reportOnce_eq, reportIf_eq]
  | needyActivationTime =>
    cases value with
    | none => simp
    | some text => cases hnumber : settingNumber? text <;> simp [report, hnumber]
  | widgets =>
    cases value with
    | none => simp
    | some text => cases hnumber : settingNumber? text <;> simp [report, hnumber]
  | noPacing => simp
  | frontOnly => simp
  | factory =>
    cases factory with
    | none =>
      cases henabled : context.factoryEnabled <;>
        simp [addFactory, report, reportIf_eq, henabled]
    | some mode => simp [addFactory, reportOnce_eq]

/-- **A token fills slots and adds complaints.** -/
theorem add_eq (context : Context) (draft : Draft) (token : Token) :
    add context draft token =
      { draft.fill context token with
        problems := draft.problems ++ draft.complaints context token } := by
  obtain ⟨span, kind⟩ := token
  cases kind with
  | time time =>
    obtain ⟨problems, limit, strikes, pacing, front, widgets, delay, factory, pools, any⟩ := draft
    cases limit <;>
      simp [add, addTime, fill, complaints, timeComplaints, strikeComplaints, numberComplaints,
        factoryComplaints, poolComplaints, Token.time?, Token.strikes?, Token.valueOf?,
        Token.sets, Token.factory?, Token.pool?, reportOnce_eq, reportIf_eq]
  | strikes count =>
    obtain ⟨problems, time, limit, pacing, front, widgets, delay, factory, pools, any⟩ := draft
    cases limit <;>
      simp [add, addStrikes, fill, complaints, timeComplaints, strikeComplaints,
        numberComplaints, factoryComplaints, poolComplaints, Token.time?, Token.strikes?,
        Token.valueOf?, Token.sets, Token.factory?, Token.pool?, reportOnce_eq, reportIf_eq]
  | setting setting => exact add_setting context draft span setting
  | pool pool =>
    -- a pool that counts zero says so itself, since one is what is left unsaid
    have hcount : (pool.count.getD 1 == 0) = decide (pool.count = some 0) := by
      rw [Bool.eq_iff_iff]
      cases pool.count <;> simp
    simp [add, addPool, fill, complaints, timeComplaints, strikeComplaints, numberComplaints,
      factoryComplaints, poolComplaints, Token.time?, Token.strikes?, Token.valueOf?, Token.sets,
      Token.factory?, Token.pool?, reportIf_eq, poolOf, hcount]

/-! ## Four ways to fill a slot -/

section Folds

variable {α β : Type} {f : α → Option β} {as : List α}

/-- The first value stays. -/
theorem foldl_or_first (held : Option β) :
    as.foldl (fun held a => held.or (f a)) held = held.or (as.filterMap f).head? := by
  induction as generalizing held with
  | nil => simp
  | cons a as ih =>
    rw [List.foldl_cons, ih, List.filterMap_cons]
    cases hf : f a <;> cases held <;> simp

/-- The last value stays. -/
theorem foldl_or_last (held : Option β) :
    as.foldl (fun held a => (f a).or held) held = (as.filterMap f).getLast?.or held := by
  induction as generalizing held with
  | nil => simp
  | cons a as ih =>
    rw [List.foldl_cons, ih, List.filterMap_cons]
    cases hf : f a <;> simp [List.getLast?_cons]

/-- All values are collected. -/
theorem foldl_append_toList (held : List β) :
    as.foldl (fun held a => held ++ (f a).toList) held = held ++ as.filterMap f := by
  induction as generalizing held with
  | nil => simp
  | cons a as ih =>
    rw [List.foldl_cons, ih, List.filterMap_cons]
    cases hf : f a <;> simp

/-- A switch is turned on by the first that does it. -/
theorem foldl_or_any {p : α → Bool} (held : Bool) :
    as.foldl (fun held a => held || p a) held = (held || as.any p) := by
  induction as generalizing held with
  | nil => simp
  | cons a as ih => rw [List.foldl_cons, ih, List.any_cons, Bool.or_assoc]

end Folds

/-! ## What a reading fills

The slots of a draft after all of its tokens. -/

/-- The time limits that some tokens give. -/
def times (tokens : List Token) : List TimeToken := tokens.filterMap Token.time?

/-- The strike limits that some tokens give, `none` for one that is no
number. -/
def strikeSources (tokens : List Token) : List (Option Nat) := tokens.filterMap Token.strikes?

/-- The values that some tokens give to a setting. -/
def valuesOf (name : SettingName) (tokens : List Token) : List String :=
  tokens.filterMap (Token.valueOf? name)

/-- The values of the factory settings among some tokens. -/
def factoryValues (tokens : List Token) : List String := tokens.filterMap Token.factory?

/-- The pools among some tokens. -/
def poolTokens (tokens : List Token) : List PoolToken := tokens.filterMap Token.pool?

/-- A slot of a reading is filled token by token. -/
theorem slot_ofTokens {α : Type} (slot : Draft → α) (op : α → Token → α)
    (h : ∀ draft token, slot (add context draft token) = op (slot draft) token)
    (tokens : List Token) : slot (ofTokens context tokens) = tokens.foldl op (slot {}) :=
  (List.foldl_hom slot fun draft token => (h draft token).symm).symm

theorem timeLimit_ofTokens (context : Context) (tokens : List Token) :
    (ofTokens context tokens).timeLimit = (times tokens).head?.map TimeToken.total := by
  rw [slot_ofTokens timeLimit (fun held token => held.or (token.time?.map TimeToken.total))
    (fun draft token => by rw [add_eq]; rfl), foldl_or_first, Option.none_or, times,
    ← List.head?_map, List.map_filterMap]

theorem strikeLimit_ofTokens (context : Context) (tokens : List Token) :
    (ofTokens context tokens).strikeLimit = (strikeSources tokens).head?.map (·.getD 0) := by
  rw [slot_ofTokens strikeLimit (fun held token => held.or (token.strikes?.map (·.getD 0)))
    (fun draft token => by rw [add_eq]; rfl), foldl_or_first, Option.none_or, strikeSources,
    ← List.head?_map, List.map_filterMap]

theorem pacing_ofTokens (context : Context) (tokens : List Token) :
    (ofTokens context tokens).pacing = !tokens.any (Token.sets .noPacing) := by
  -- pacing is a switch that is turned off, so its negation is collected
  have hoff : (!(ofTokens context tokens).pacing) = _ :=
    slot_ofTokens (fun draft => !draft.pacing) (fun held token => held || token.sets .noPacing)
      (fun draft token => by rw [add_eq]; simp [fill]) tokens
  rw [foldl_or_any] at hoff
  simpa using congrArg (!·) hoff

theorem frontFaceOnly_ofTokens (context : Context) (tokens : List Token) :
    (ofTokens context tokens).frontFaceOnly = tokens.any (Token.sets .frontOnly) := by
  rw [slot_ofTokens frontFaceOnly (fun held token => held || token.sets .frontOnly)
    (fun draft token => by rw [add_eq]; rfl), foldl_or_any, Bool.false_or]

theorem widgetCount_ofTokens (context : Context) (tokens : List Token) :
    (ofTokens context tokens).widgetCount =
      ((valuesOf .widgets tokens).filterMap settingNumber?).getLast? := by
  rw [slot_ofTokens widgetCount
    (fun held token => ((token.valueOf? .widgets).bind settingNumber?).or held)
    (fun draft token => by rw [add_eq]; rfl), foldl_or_last, Option.or_none, valuesOf,
    List.filterMap_filterMap]

theorem needyActivationDelay_ofTokens (context : Context) (tokens : List Token) :
    (ofTokens context tokens).needyActivationDelay =
      ((valuesOf .needyActivationTime tokens).filterMap settingNumber?).getLast? := by
  rw [slot_ofTokens needyActivationDelay
    (fun held token => ((token.valueOf? .needyActivationTime).bind settingNumber?).or held)
    (fun draft token => by rw [add_eq]; rfl), foldl_or_last, Option.or_none, valuesOf,
    List.filterMap_filterMap]

theorem factory_ofTokens (context : Context) (tokens : List Token) :
    (ofTokens context tokens).factory =
      if context.factoryEnabled then (factoryValues tokens).head?.map FactoryMode.ofKeyword?
      else none := by
  rw [slot_ofTokens factory (fun held token => held.or
      (if context.factoryEnabled then token.factory?.map FactoryMode.ofKeyword? else none))
    (fun draft token => by rw [add_eq]; rfl), foldl_or_first, Option.none_or, factoryValues]
  split
  · rw [← List.head?_map, List.map_filterMap]
  · simp

theorem pools_ofTokens (context : Context) (tokens : List Token) :
    (ofTokens context tokens).pools = (poolTokens tokens).map (poolOf context) := by
  rw [slot_ofTokens pools (fun held token => held ++ (token.pool?.map (poolOf context)).toList)
    (fun draft token => by rw [add_eq]; rfl), foldl_append_toList, List.nil_append, poolTokens,
    List.map_filterMap]

theorem anySolvable_ofTokens (context : Context) (tokens : List Token) :
    (ofTokens context tokens).anySolvable =
      (poolTokens tokens).any fun pool => (context.resolvePool pool).solvable := by
  rw [slot_ofTokens anySolvable
    (fun held token => held || token.pool?.any fun pool => (context.resolvePool pool).solvable)
    (fun draft token => by rw [add_eq]; rfl), foldl_or_any, Bool.false_or, poolTokens,
    List.any_filterMap]
  rfl

/-- A reading with one more token. -/
theorem ofTokens_concat (context : Context) (tokens : List Token) (token : Token) :
    ofTokens context (tokens ++ [token]) = add context (ofTokens context tokens) token := by
  rw [ofTokens, List.foldl_append]
  rfl

theorem problems_ofTokens_concat (context : Context) (tokens : List Token) (token : Token) :
    (ofTokens context (tokens ++ [token])).problems =
      (ofTokens context tokens).problems ++ complaints context (ofTokens context tokens) token := by
  rw [ofTokens_concat, add_eq]

end Draft

end MissionText
