import MissionText.Proofs.Mission.Parsing
/-!
# Exchange — the order of tokens of different groups

The tokens of a line share one draft and one list of problems, which is looked
into before a repetition is reported. Even so a token hangs only on what was
said before in its own group (`complaints_congr`), and it reports only problems
of that group (`group?_of_mem_complaints`). So two tokens of different groups,
and two pools, may change places: the drafts after them are alike
(`Alike.of_independent`), further tokens keep them alike (`Alike.foldl`), and
alike drafts are finished alike (`Alike.finish`). That is `finish_exchange`.
-/

namespace MissionText

/-- What a token has a say in. -/
inductive Group where
  | time
  /-- Strikes, as a field or as a setting. -/
  | strikes
  | widgets
  | needyActivationTime
  | noPacing
  | frontOnly
  | factory
  | pool
  deriving DecidableEq, Repr

/-- The group of the settings with a name. -/
def SettingName.group : SettingName → Group
  | strikes => .strikes
  | needyActivationTime => .needyActivationTime
  | widgets => .widgets
  | noPacing => .noPacing
  | frontOnly => .frontOnly
  | factory => .factory

/-- The group of a token. -/
def Token.group (token : Token) : Group :=
  match token.kind with
  | .time _ => .time
  | .strikes _ => .strikes
  | .setting setting => setting.name.group
  | .pool _ => .pool

/-- The group whose tokens report a problem. A problem of the line as such or
of all pools together is reported by no token. -/
def Diagnostic.group? : Diagnostic → Option Group
  | timeSpecifiedMultipleTimes | invalidTimeLimit => some .time
  | strikeLimitSpecifiedMultipleTimes | invalidStrikeLimit => some .strikes
  | invalidWidgetCount => some .widgets
  | invalidNeedyActivationTime => some .needyActivationTime
  | factorySpecifiedMultipleTimes | factoryNotEnabled | invalidFactoryMode => some .factory
  | invalidPoolCount | unknownProfile _ | emptyProfile _ | unknownModule _
  | disabledModule _ => some .pool
  | syntaxError | noSolvableModules | tooManyModules _ _ => none

theorem Diagnostic.group?_of_scope {problem : Diagnostic} (h : problem.scope = .pool) :
    problem.group? = some .pool := by
  cases problem <;> first | rfl | cases h

namespace Token

variable {token : Token}

/-! ## A token says nothing outside its group -/

theorem time?_of_group (h : token.group ≠ .time) : token.time? = none := by
  refine Option.eq_none_iff_forall_ne_some.2 fun time htime => h ?_
  rw [group, time?_eq_some_iff.1 htime]

theorem valueOf?_of_group {name : SettingName} (h : token.group ≠ name.group) :
    token.valueOf? name = none := by
  obtain ⟨span, kind⟩ := token
  cases kind with
  | time time => rfl
  | strikes count => rfl
  | setting setting =>
    have hname : setting.name ≠ name := fun heq => h (congrArg SettingName.group heq)
    exact if_neg hname
  | pool pool => rfl

theorem strikes?_of_group (h : token.group ≠ .strikes) : token.strikes? = none := by
  have hvalue : token.valueOf? .strikes = none := valueOf?_of_group h
  obtain ⟨span, kind⟩ := token
  cases kind with
  | strikes count => exact absurd rfl h
  | time time => rfl
  | setting setting => rw [strikes?, hvalue, Option.map_none]
  | pool pool => rfl

theorem factory?_of_group (h : token.group ≠ .factory) : token.factory? = none := by
  have hsets : token.sets .factory = false := by
    obtain ⟨span, kind⟩ := token
    cases kind with
    | time time => rfl
    | strikes count => rfl
    | setting setting =>
      have hname : setting.name ≠ .factory := fun heq => h (congrArg SettingName.group heq)
      exact decide_eq_false hname
    | pool pool => rfl
  rw [factory?, hsets, if_neg Bool.false_ne_true]

theorem pool?_of_group (h : token.group ≠ .pool) : token.pool? = none := by
  refine Option.eq_none_iff_forall_ne_some.2 fun pool hpool => h ?_
  rw [group, pool?_eq_some_iff.1 hpool]

/-- A token of the group of pools is a pool. -/
theorem exists_pool?_of_group (h : token.group = .pool) : ∃ pool, token.pool? = some pool := by
  obtain ⟨span, kind⟩ := token
  cases kind with
  | pool pool => exact ⟨pool, rfl⟩
  | time time => cases h
  | strikes count => cases h
  | setting setting =>
    obtain ⟨name, rawName, rawValue⟩ := setting
    cases name <;> cases h

/-- **Independent tokens** are of different groups, or both are pools. -/
def Independent (first second : Token) : Prop :=
  first.group ≠ second.group ∨ first.group = .pool ∧ second.group = .pool

theorem Independent.symm {first second : Token} (h : first.Independent second) :
    second.Independent first := by
  rcases h with hne | ⟨hfirst, hsecond⟩
  · exact .inl hne.symm
  · exact .inr ⟨hsecond, hfirst⟩

/-- Of two independent tokens only one has a say in what is no pool. -/
theorem Independent.group_ne {first second : Token} {group : Group}
    (h : first.Independent second) (hpool : group ≠ .pool) :
    first.group ≠ group ∨ second.group ≠ group := by
  rcases h with hne | ⟨hfirst, -⟩
  · by_cases hfirst : first.group = group
    · exact .inr fun hsecond => hne (hfirst.trans hsecond.symm)
    · exact .inl hfirst
  · exact .inl fun heq => hpool (heq.symm.trans hfirst)

end Token

namespace Draft

variable {context : Context} {draft other : Draft} {token first second : Token}
  {problem : Diagnostic}

/-! ## A token complains within its group -/

theorem timeComplaints_of_group (h : token.group ≠ .time) : draft.timeComplaints token = [] := by
  rw [timeComplaints, Token.time?_of_group h]

theorem strikeComplaints_of_group (h : token.group ≠ .strikes) :
    draft.strikeComplaints token = [] := by
  rw [strikeComplaints, Token.strikes?_of_group h]

theorem numberComplaints_of_group {name : SettingName} (h : token.group ≠ name.group) :
    numberComplaints name problem token = [] := by
  rw [numberComplaints, Token.valueOf?_of_group h]

theorem factoryComplaints_of_group (h : token.group ≠ .factory) :
    draft.factoryComplaints context token = [] := by
  rw [factoryComplaints, Token.factory?_of_group h]

theorem poolComplaints_of_group (h : token.group ≠ .pool) : poolComplaints context token = [] := by
  rw [poolComplaints, Token.pool?_of_group h]

/-- A pool complains of nothing that was said before. -/
theorem complaints_of_pool (h : token.group = .pool) :
    complaints context draft token = poolComplaints context token := by
  rw [complaints, timeComplaints_of_group (by rw [h]; decide),
    strikeComplaints_of_group (by rw [h]; decide), numberComplaints_of_group (by rw [h]; decide),
    numberComplaints_of_group (by rw [h]; decide), factoryComplaints_of_group (by rw [h]; decide)]
  rfl

/-- Where only a group is complained of, a token with a complaint is of that
group. -/
theorem group_eq_of_mem {problems : List Diagnostic} {group : Group}
    (hnil : token.group ≠ group → problems = []) (h : problem ∈ problems) :
    token.group = group := by
  by_contra hne
  rw [hnil hne] at h
  cases h

/-- **A token reports problems of its group only.** -/
theorem group?_of_mem_complaints (h : problem ∈ complaints context draft token) :
    problem.group? = some token.group := by
  simp only [complaints, List.mem_append] at h
  rcases h with ((((htime | hstrikes) | hwidgets) | hdelay) | hfactory) | hpool
  · rw [group_eq_of_mem timeComplaints_of_group htime]
    rcases mem_timeComplaints htime with rfl | rfl <;> rfl
  · rw [group_eq_of_mem strikeComplaints_of_group hstrikes]
    rcases mem_strikeComplaints hstrikes with rfl | rfl <;> rfl
  · rw [group_eq_of_mem numberComplaints_of_group hwidgets, mem_numberComplaints hwidgets]
    rfl
  · rw [group_eq_of_mem numberComplaints_of_group hdelay, mem_numberComplaints hdelay]
    rfl
  · rw [group_eq_of_mem factoryComplaints_of_group hfactory]
    rcases mem_factoryComplaints hfactory with rfl | rfl | rfl <;> rfl
  · rw [group_eq_of_mem poolComplaints_of_group hpool,
      Diagnostic.group?_of_scope (scope_of_mem_poolComplaints hpool)]

theorem once_congr {problems others : List Diagnostic}
    (h : problem ∈ problems ↔ problem ∈ others) : once problems problem = once others problem := by
  simp only [once, h]

/-- **What a token complains of hangs on its group only**: on the slot of the
group and on the problems that were reported in it. -/
theorem complaints_congr
    (htime : token.group = .time → draft.timeLimit = other.timeLimit)
    (hstrikes : token.group = .strikes → draft.strikeLimit = other.strikeLimit)
    (hfactory : token.group = .factory → draft.factory = other.factory)
    (hproblems : ∀ problem, problem.group? = some token.group →
      (problem ∈ draft.problems ↔ problem ∈ other.problems)) :
    complaints context draft token = complaints context other token := by
  have htimes : draft.timeComplaints token = other.timeComplaints token := by
    by_cases hgroup : token.group = .time
    · rw [timeComplaints, timeComplaints, htime hgroup,
        once_congr (hproblems .timeSpecifiedMultipleTimes (by rw [hgroup]; rfl))]
    · rw [timeComplaints_of_group hgroup, timeComplaints_of_group hgroup]
  have hsources : draft.strikeComplaints token = other.strikeComplaints token := by
    by_cases hgroup : token.group = .strikes
    · rw [strikeComplaints, strikeComplaints, hstrikes hgroup,
        once_congr (hproblems .strikeLimitSpecifiedMultipleTimes (by rw [hgroup]; rfl))]
    · rw [strikeComplaints_of_group hgroup, strikeComplaints_of_group hgroup]
  have hmodes : draft.factoryComplaints context token = other.factoryComplaints context token := by
    by_cases hgroup : token.group = .factory
    · rw [factoryComplaints, factoryComplaints, hfactory hgroup,
        once_congr (hproblems .factorySpecifiedMultipleTimes (by rw [hgroup]; rfl))]
    · rw [factoryComplaints_of_group hgroup, factoryComplaints_of_group hgroup]
  rw [complaints, complaints, htimes, hsources, hmodes]

/-- **A token does not touch what an independent one complains of.** -/
theorem complaints_add (h : first.Independent second) :
    complaints context (add context draft first) second = complaints context draft second := by
  rcases h with hne | ⟨-, hsecond⟩
  · have hfirst {group : Group} (hgroup : second.group = group) : first.group ≠ group :=
      hgroup ▸ hne
    rw [add_eq]
    refine complaints_congr (fun hgroup => ?_) (fun hgroup => ?_) (fun hgroup => ?_)
      fun problem hproblem => ?_
    · simp [fill, Token.time?_of_group (hfirst hgroup)]
    · simp [fill, Token.strikes?_of_group (hfirst hgroup)]
    · simp [fill, Token.factory?_of_group (hfirst hgroup)]
    · -- the problems that were added are of the other group
      have hnot : problem ∉ complaints context draft first := fun hmem =>
        hne (Option.some.inj ((group?_of_mem_complaints hmem).symm.trans hproblem))
      simp [hnot]
  · rw [complaints_of_pool hsecond, complaints_of_pool hsecond]

/-! ## Alike drafts -/

/-- **Drafts are alike** if they say the same, with the problems and the pools
in any order. -/
structure Alike (draft other : Draft) : Prop where
  problems : draft.problems.Perm other.problems
  pools : draft.pools.Perm other.pools
  slots : other = { draft with problems := other.problems, pools := other.pools }

/-- The order in which two values are offered does not matter if one of them
is missing. -/
theorem or_or_comm {α : Type} {held first second : Option α} (h : first = none ∨ second = none) :
    (held.or first).or second = (held.or second).or first := by
  rcases h with rfl | rfl <;> simp

/-- The same where a later value takes the place of the one before. -/
theorem or_or_left_comm {α : Type} {held first second : Option α}
    (h : first = none ∨ second = none) :
    first.or (second.or held) = second.or (first.or held) := by
  rcases h with rfl | rfl <;> simp

/-- **Two independent tokens in either order.** -/
theorem Alike.of_independent (h : first.Independent second) (draft : Draft) :
    Alike (add context (add context draft first) second)
      (add context (add context draft second) first) where
  problems := by
    rw [add_eq context (add context draft first), add_eq context (add context draft second),
      complaints_add h, complaints_add h.symm, add_eq, add_eq]
    simp only [List.append_assoc]
    exact List.perm_append_comm.append_left draft.problems
  pools := by
    simp only [add_eq, fill, List.append_assoc]
    exact List.perm_append_comm.append_left draft.pools
  slots := by
    -- of what a slot is filled from, one of the two tokens says nothing
    have htime : first.time? = none ∨ second.time? = none :=
      (h.group_ne (by decide)).imp Token.time?_of_group Token.time?_of_group
    have hstrikes : first.strikes? = none ∨ second.strikes? = none :=
      (h.group_ne (by decide)).imp Token.strikes?_of_group Token.strikes?_of_group
    have hvalue (name : SettingName) (hname : name.group ≠ .pool) :
        first.valueOf? name = none ∨ second.valueOf? name = none :=
      (h.group_ne hname).imp Token.valueOf?_of_group Token.valueOf?_of_group
    have hfactory : first.factory? = none ∨ second.factory? = none :=
      (h.group_ne (by decide)).imp Token.factory?_of_group Token.factory?_of_group
    simp only [add_eq, fill, mk.injEq, true_and]
    refine ⟨(or_or_comm ?_).symm, (or_or_comm ?_).symm, Bool.and_right_comm ..,
      Bool.or_right_comm .., or_or_left_comm ?_, or_or_left_comm ?_, (or_or_comm ?_).symm,
      Bool.or_right_comm ..⟩
    · exact htime.imp Option.map_eq_none_iff.2 Option.map_eq_none_iff.2
    · exact hstrikes.imp Option.map_eq_none_iff.2 Option.map_eq_none_iff.2
    · exact (hvalue .widgets (by decide)).imp (fun h => by rw [h]; rfl) (fun h => by rw [h]; rfl)
    · exact (hvalue .needyActivationTime (by decide)).imp (fun h => by rw [h]; rfl)
        (fun h => by rw [h]; rfl)
    · exact hfactory.imp (fun h => by simp [h]) (fun h => by simp [h])

/-- **A further token keeps drafts alike.** -/
theorem Alike.add (h : Alike draft other) (token : Token) :
    Alike (add context draft token) (add context other token) := by
  have hcomplaints : complaints context draft token = complaints context other token := by
    refine complaints_congr ?_ ?_ ?_ fun problem _ => h.problems.mem_iff
    · rw [h.slots]
      exact fun _ => rfl
    · rw [h.slots]
      exact fun _ => rfl
    · rw [h.slots]
      exact fun _ => rfl
  rw [add_eq, add_eq, ← hcomplaints]
  exact {
    problems := h.problems.append_right _
    pools := h.pools.append_right _
    slots := by rw [h.slots]; rfl }

/-- So do further tokens. -/
theorem Alike.foldl (h : Alike draft other) (tokens : List Token) :
    Alike (tokens.foldl (Draft.add context) draft) (tokens.foldl (Draft.add context) other) := by
  induction tokens generalizing draft other with
  | nil => exact h
  | cons token tokens ih => exact ih (h.add token)

/-- **Readings of tokens two of which changed places are alike.** -/
theorem Alike.exchange (h : first.Independent second) (before after : List Token) :
    Alike (ofTokens context (before ++ first :: second :: after))
      (ofTokens context (before ++ second :: first :: after)) := by
  simp only [ofTokens, List.foldl_append, List.foldl_cons]
  exact (Alike.of_independent h _).foldl after

/-! ## Finishing alike drafts -/

/-- **Results agree** if both are missions that are related, or both are the
same problems in some order. -/
inductive Agree (related : Mission → Mission → Prop) :
    Except (List Diagnostic) Mission → Except (List Diagnostic) Mission → Prop where
  | accepted {mission other : Mission} (h : related mission other) :
    Agree related (.ok mission) (.ok other)
  | rejected {problems others : List Diagnostic} (h : problems.Perm others) :
    Agree related (.error problems) (.error others)

theorem countOf_perm {pools others : List Pool} (h : pools.Perm others) :
    Mission.countOf pools = Mission.countOf others :=
  h.foldr_eq' (fun _ _ _ _ _ => by omega) 0

/-- **Alike drafts are finished alike**, each with its pools. -/
theorem Alike.finish {related : Mission → Mission → Prop} (h : Alike draft other)
    (hrelated : ∀ mission : Mission, mission.pools = draft.pools →
      related mission { mission with pools := other.pools }) :
    Agree related (draft.finish context) (other.finish context) := by
  have hcount := countOf_perm h.pools
  have htotal : other.totalProblems context = draft.totalProblems context := by
    rw [totalProblems, totalProblems, ← hcount, h.slots]
  cases hdraft : draft.finish context with
  | ok mission =>
    obtain ⟨hnone, hsound, hmission⟩ := finish_eq_ok_iff.1 hdraft
    have hother : other.finish context = .ok { mission with pools := other.pools } := by
      refine finish_eq_ok_iff.2 ⟨?_, htotal.trans hsound, ?_⟩
      · exact (hnone ▸ h.problems).nil_eq.symm
      · rw [hmission, ← hcount, h.slots]
    rw [hother]
    exact .accepted (hrelated mission (by rw [hmission]))
  | error problems =>
    obtain ⟨rfl, hsome⟩ := finish_eq_error_iff.1 hdraft
    have hperm : (draft.problems ++ draft.totalProblems context).Perm
        (other.problems ++ other.totalProblems context) := by
      rw [htotal]
      exact h.problems.append_right _
    have hother : other.finish context =
        .error (other.problems ++ other.totalProblems context) :=
      finish_eq_error_iff.2 ⟨rfl, fun hnil => hsome (hnil ▸ hperm).eq_nil⟩
    rw [hother]
    exact .rejected hperm

/-! ## Exchanging tokens -/

/-- Missions that differ in the order of two neighbouring pools only, the ones
after the first `n`. -/
def PoolsExchanged (n : Nat) (mission other : Mission) : Prop :=
  ∃ (front rest : List Pool) (pool next : Pool), front.length = n ∧
    mission.pools = front ++ pool :: next :: rest ∧
    other = { mission with pools := front ++ next :: pool :: rest }

/-- **The order of independent tokens is free.** Where two neighbouring tokens
of different groups change places, whatever stands around them, the same
mission comes of the line, or the same problems in some order. Where they are
both pools, these two pools of the mission change places. -/
theorem independent_tokens_commute (context : Context) (before after : List Token)
    (first second : Token) :
    (first.group ≠ second.group →
      Agree Eq ((ofTokens context (before ++ first :: second :: after)).finish context)
        ((ofTokens context (before ++ second :: first :: after)).finish context)) ∧
    (first.group = .pool ∧ second.group = .pool →
      Agree (PoolsExchanged (poolTokens before).length)
        ((ofTokens context (before ++ first :: second :: after)).finish context)
        ((ofTokens context (before ++ second :: first :: after)).finish context)) := by
  constructor
  · intro hne
    have hpool : first.pool? = none ∨ second.pool? = none := by
      by_cases hfirst : first.group = .pool
      · exact .inr (Token.pool?_of_group fun hsecond => hne (hfirst.trans hsecond.symm))
      · exact .inl (Token.pool?_of_group hfirst)
    have hpools : (ofTokens context (before ++ first :: second :: after)).pools =
        (ofTokens context (before ++ second :: first :: after)).pools := by
      simp only [pools_ofTokens, poolTokens, List.filterMap_append, List.filterMap_cons]
      rcases hpool with hnone | hnone <;> simp only [hnone]
    refine (Alike.exchange (.inl hne) before after).finish fun mission hmission => ?_
    rw [← hpools, ← hmission]
  · rintro ⟨hfirst, hsecond⟩
    obtain ⟨pool, hpool⟩ := Token.exists_pool?_of_group hfirst
    obtain ⟨next, hnext⟩ := Token.exists_pool?_of_group hsecond
    refine (Alike.exchange (.inr ⟨hfirst, hsecond⟩) before after).finish fun mission hmission => ?_
    refine ⟨(poolTokens before).map (poolOf context), (poolTokens after).map (poolOf context),
      poolOf context pool, poolOf context next, List.length_map _, ?_, ?_⟩
    · rw [hmission]
      simp [pools_ofTokens, poolTokens, hpool, hnext]
    · simp [pools_ofTokens, poolTokens, hpool, hnext]

/-- Two limits that are both zero, and two pools after a setting. -/
theorem independent_tokens_commute_zero :
    Agree Eq
        ((ofTokens {} [⟨⟨0, 4⟩, .time ⟨none, 0, 0⟩⟩, ⟨⟨5, 2⟩, .strikes 0⟩]).finish {})
        ((ofTokens {} [⟨⟨5, 2⟩, .strikes 0⟩, ⟨⟨0, 4⟩, .time ⟨none, 0, 0⟩⟩]).finish {}) ∧
      Agree (PoolsExchanged 0)
        ((ofTokens {} [⟨⟨0, 9⟩, .setting ⟨.frontOnly, "frontonly", none⟩⟩,
          ⟨⟨10, 5⟩, .pool ⟨none, "Wires", 10⟩⟩, ⟨⟨16, 6⟩, .pool ⟨some 2, "Keypad", 18⟩⟩]).finish {})
        ((ofTokens {} [⟨⟨0, 9⟩, .setting ⟨.frontOnly, "frontonly", none⟩⟩,
          ⟨⟨16, 6⟩, .pool ⟨some 2, "Keypad", 18⟩⟩,
          ⟨⟨10, 5⟩, .pool ⟨none, "Wires", 10⟩⟩]).finish {}) :=
  ⟨(independent_tokens_commute {} [] [] _ _).1 (by decide),
    (independent_tokens_commute {} [⟨⟨0, 9⟩, .setting ⟨.frontOnly, "frontonly", none⟩⟩] []
      _ _).2 (by decide)⟩

end Draft

end MissionText
