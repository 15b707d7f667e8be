import Mathlib.Data.List.Forall2
import Mathlib.Data.List.Induction
import Mathlib.Tactic.MkIffOfInductiveProp
import Mathlib.Tactic.Tauto
import MissionText.Proofs.Draft.Step
import MissionText.Proofs.Pool.Resolution
/-!
# Acceptance — which tokens make a mission, and which mission they make

`Clean` says of the tokens of a line, taken together, that nothing is wrong
with any of them; `Acceptable` adds what is asked of the line as a whole; and
`Describes` says field by field which mission the tokens describe. None of the
three mentions a draft. A draft is without problems exactly if its tokens are
clean (`problems_ofTokens_eq_nil_iff`), so a draft is finished to a mission
exactly if its tokens are acceptable and describe it
(`finish_ofTokens_eq_ok_iff`). That is all that is known, and all that has to
be known, about drafts elsewhere.
-/

namespace MissionText

namespace Draft

variable {context : Context} {tokens : List Token} {token : Token} {mission : Mission}

/-- The number of modules that some tokens ask for. -/
def moduleTotal (tokens : List Token) : Nat :=
  (poolTokens tokens).foldr (fun pool total => pool.count.getD 1 + total) 0

/-- Something is said once at most, and as it has to be. -/
def OnceAtMost {α : Type} (P : α → Prop) (as : List α) : Prop := as.length ≤ 1 ∧ ∀ a ∈ as, P a

/-- **Nothing is wrong with any of the tokens**, each seen with the others. -/
@[mk_iff]
structure Clean (context : Context) (tokens : List Token) : Prop where
  /-- The time is limited once at most, and not to zero. -/
  time : OnceAtMost (fun time => 0 < time.total) (times tokens)
  /-- The strikes are limited once at most, as a field or as a setting, to a
  number that is not zero. -/
  strikes : OnceAtMost (fun source => ∃ count, source = some count ∧ 0 < count)
    (strikeSources tokens)
  /-- A widget count is a number. -/
  widgets : ∀ value ∈ valuesOf .widgets tokens, ∃ count, settingNumber? value = some count
  /-- A delay of the needy modules is a number. -/
  delays : ∀ value ∈ valuesOf .needyActivationTime tokens,
    ∃ seconds, settingNumber? value = some seconds
  /-- A factory is asked for once at most, where there are factories, and in a
  mode that there is. -/
  factory : OnceAtMost
    (fun value => context.factoryEnabled = true ∧ ∃ mode, FactoryMode.ofKeyword? value = some mode)
    (factoryValues tokens)
  /-- No pool is drawn from zero times, and every list stands for something. -/
  pools : ∀ pool ∈ poolTokens tokens,
    pool.count ≠ some 0 ∧ ∃ contents, context.Draws pool.list contents

/-- **The tokens make a mission.** -/
structure Acceptable (context : Context) (tokens : List Token) : Prop
    extends Clean context tokens where
  /-- There are tokens. -/
  nonempty : tokens ≠ []
  /-- From some pool only modules to be solved are drawn. -/
  solvable : ∃ pool ∈ poolTokens tokens, context.DrawsSolvable pool.list
  /-- Some casing holds all the modules. -/
  capacity : moduleTotal tokens ≤ context.maxModules

/-- **The mission that acceptable tokens describe**, field by field. -/
structure Describes (context : Context) (tokens : List Token) (mission : Mission) : Prop where
  /-- The time limit that is given, or two minutes for each module. -/
  timeLimit : mission.timeLimit =
    ((times tokens).head?.map TimeToken.total).getD (moduleTotal tokens * 120)
  /-- The strike limit that is given, or a strike for each dozen of modules,
  but at least three and no more than a number of its size can be. -/
  strikeLimit : mission.strikeLimit =
    (strikeSources tokens).head?.join.getD
      (max 3 (min (moduleTotal tokens / 12) (Text.settingBound - 1)))
  /-- Pacing is on unless it is turned off. -/
  pacing : mission.pacing = true ↔ ∀ token ∈ tokens, token.sets .noPacing = false
  /-- The front face alone is used if some token says so. -/
  frontFaceOnly : mission.frontFaceOnly = true ↔ ∃ token ∈ tokens, token.sets .frontOnly = true
  /-- The last widget count is the one that counts. -/
  widgetCount : mission.widgetCount = (valuesOf .widgets tokens).getLast?.bind settingNumber?
  /-- And so is the last delay. -/
  needyActivationDelay : mission.needyActivationDelay =
    (valuesOf .needyActivationTime tokens).getLast?.bind settingNumber?
  factoryMode : mission.factoryMode =
    (factoryValues tokens).head?.bind FactoryMode.ofKeyword?
  /-- There is a pool for each pool token, in their order. -/
  pools : List.Forall₂
    (fun token pool => pool.count = token.count.getD 1 ∧ context.Draws token.list pool.contents)
    (poolTokens tokens) mission.pools

/-! ## Problems, token by token

A token may complain of what was said before it, so the conditions below are
those under which it has no complaint after tokens without problems. -/

theorem filterMap_concat {α β : Type} (f : α → Option β) (as : List α) (a : α) :
    (as ++ [a]).filterMap f = as.filterMap f ++ (f a).toList := by
  rw [List.filterMap_append]
  cases hf : f a <;> simp [hf]

/-- A time limit is all right if it is the first one and not zero. -/
theorem timeComplaints_eq_nil_iff (hnone : (ofTokens context tokens).problems = []) :
    (ofTokens context tokens).timeComplaints token = [] ↔
      ∀ time ∈ token.time?, times tokens = [] ∧ 0 < time.total := by
  rw [timeComplaints, timeLimit_ofTokens, hnone]
  rcases token.time? with - | time
  · simp
  · cases times tokens with
    | nil => simp [Nat.pos_iff_ne_zero]
    | cons other others => simp [once]

/-- A strike limit is all right if it is the first one, a number, and not
zero. -/
theorem strikeComplaints_eq_nil_iff (hnone : (ofTokens context tokens).problems = []) :
    (ofTokens context tokens).strikeComplaints token = [] ↔
      ∀ source ∈ token.strikes?,
        strikeSources tokens = [] ∧ ∃ count, source = some count ∧ 0 < count := by
  rw [strikeComplaints, strikeLimit_ofTokens, hnone]
  rcases token.strikes? with - | source
  · simp
  · cases strikeSources tokens with
    | nil => cases source <;> simp [Nat.pos_iff_ne_zero]
    | cons other others => simp [once]

theorem numberComplaints_eq_nil_iff {name : SettingName} {problem : Diagnostic} :
    numberComplaints name problem token = [] ↔
      ∀ value ∈ token.valueOf? name, ∃ number, settingNumber? value = some number := by
  rw [numberComplaints]
  rcases token.valueOf? name with - | value
  · simp
  · cases hnumber : settingNumber? value <;> simp [hnumber]

/-- A factory setting is all right if it is the first one and its mode
exists, where there are factories. -/
theorem factoryComplaints_eq_nil_iff (hnone : (ofTokens context tokens).problems = []) :
    (ofTokens context tokens).factoryComplaints context token = [] ↔
      ∀ value ∈ token.factory?, factoryValues tokens = [] ∧ context.factoryEnabled = true ∧
        ∃ mode, FactoryMode.ofKeyword? value = some mode := by
  rw [factoryComplaints, factory_ofTokens, hnone]
  rcases token.factory? with - | value
  · simp
  · cases henabled : context.factoryEnabled with
    | false => simp
    | true =>
      cases factoryValues tokens with
      | nil => cases hmode : FactoryMode.ofKeyword? value <;> simp [hmode]
      | cons other others => simp [once]

theorem poolComplaints_eq_nil_iff :
    poolComplaints context token = [] ↔
      ∀ pool ∈ token.pool?, pool.count ≠ some 0 ∧ ∃ contents, context.Draws pool.list contents := by
  rw [poolComplaints]
  rcases token.pool? with - | pool
  · simp
  · simp only [List.append_eq_nil_iff, Option.mem_def, Option.some.injEq, forall_eq',
      Context.resolvePool, Context.problems_eq_nil_iff]
    refine and_congr_left fun _ => ?_
    split <;> simp_all

/-- What is said once at most is said by a token only if nothing before it
said it. -/
theorem onceAtMost_concat_iff {α : Type} {P : α → Prop} {as : List α} {o : Option α} :
    OnceAtMost P (as ++ o.toList) ↔ OnceAtMost P as ∧ ∀ a ∈ o, as = [] ∧ P a := by
  cases o with
  | none => simp
  | some b =>
    constructor
    · rintro ⟨hlen, hall⟩
      obtain rfl : as = [] := by
        rw [List.length_append, Option.toList_some, List.length_singleton] at hlen
        exact List.length_eq_zero_iff.1 (by omega)
      exact ⟨⟨by simp, by simp⟩, by simpa using hall⟩
    · rintro ⟨-, hb⟩
      obtain ⟨rfl, hP⟩ := hb b rfl
      exact ⟨by simp, by simpa using hP⟩

theorem forall_mem_concat_iff {α : Type} {P : α → Prop} {as : List α} {o : Option α} :
    (∀ a ∈ as ++ o.toList, P a) ↔ (∀ a ∈ as, P a) ∧ ∀ a ∈ o, P a := by
  simp [or_imp, forall_and]

/-- **A token has no complaints after clean ones exactly if it is clean with
them.** -/
theorem clean_concat_iff (hnone : (ofTokens context tokens).problems = []) :
    Clean context (tokens ++ [token]) ↔
      Clean context tokens ∧ complaints context (ofTokens context tokens) token = [] := by
  simp only [complaints, List.append_eq_nil_iff, timeComplaints_eq_nil_iff hnone,
    strikeComplaints_eq_nil_iff hnone, numberComplaints_eq_nil_iff,
    factoryComplaints_eq_nil_iff hnone, poolComplaints_eq_nil_iff]
  simp only [clean_iff, times, strikeSources, valuesOf, factoryValues, poolTokens,
    filterMap_concat, onceAtMost_concat_iff, forall_mem_concat_iff]
  tauto

/-- What is clean with one more token is clean without it. -/
theorem Clean.of_concat (h : Clean context (tokens ++ [token])) : Clean context tokens := by
  simp only [clean_iff, times, strikeSources, valuesOf, factoryValues, poolTokens,
    filterMap_concat, onceAtMost_concat_iff, forall_mem_concat_iff] at h ⊢
  tauto

/-- **A reading is without problems exactly if its tokens are clean.** -/
theorem problems_ofTokens_eq_nil_iff :
    (ofTokens context tokens).problems = [] ↔ Clean context tokens := by
  induction tokens using List.reverseRecOn with
  | nil =>
    simp [ofTokens, clean_iff, OnceAtMost, times, strikeSources, valuesOf, factoryValues,
      poolTokens]
  | append_singleton tokens token ih =>
    rw [problems_ofTokens_concat, List.append_eq_nil_iff]
    constructor
    · rintro ⟨hnone, hcomplaints⟩
      exact (clean_concat_iff hnone).2 ⟨ih.1 hnone, hcomplaints⟩
    · -- complaints hang on the problems before, so those have to be none first
      intro hclean
      have hnone := ih.2 hclean.of_concat
      exact ⟨hnone, ((clean_concat_iff hnone).1 hclean).2⟩

/-! ## Finishing -/

/-- **When a draft is finished, and to what.** -/
theorem finish_eq_ok_iff {draft : Draft} :
    draft.finish context = .ok mission ↔
      draft.problems = [] ∧ draft.totalProblems context = [] ∧
        mission = {
          timeLimit := draft.timeLimit.getD (Mission.countOf draft.pools * secondsPerModule)
          strikeLimit := draft.strikeLimit.getD (defaultStrikes (Mission.countOf draft.pools))
          pacing := draft.pacing
          frontFaceOnly := draft.frontFaceOnly
          widgetCount := draft.widgetCount
          needyActivationDelay := draft.needyActivationDelay
          factoryMode := draft.factory.join
          pools := draft.pools } := by
  rw [finish, ← and_assoc, ← List.append_eq_nil_iff]
  split
  · rename_i hnone
    simp [hnone, eq_comm]
  · rename_i hsome
    exact ⟨nofun, fun h => absurd h.1 hsome⟩

theorem countOf_pools_ofTokens :
    Mission.countOf (ofTokens context tokens).pools = moduleTotal tokens := by
  rw [pools_ofTokens, Mission.countOf, moduleTotal, List.foldr_map]
  rfl

/-- A reading as a whole is all right if some pool is solvable and a casing
holds all the modules. -/
theorem totalProblems_ofTokens_eq_nil_iff :
    (ofTokens context tokens).totalProblems context = [] ↔
      (∃ pool ∈ poolTokens tokens, context.DrawsSolvable pool.list) ∧
        moduleTotal tokens ≤ context.maxModules := by
  simp only [totalProblems, countOf_pools_ofTokens, anySolvable_ofTokens, List.append_eq_nil_iff,
    Context.drawsSolvable_iff, Context.resolvePool]
  refine and_congr ?_ ?_
  · simp
  · simp

/-! ## The mission -/

theorem getLast?_filterMap_of_forall {α β : Type} {f : α → Option β} {as : List α}
    (h : ∀ a ∈ as, ∃ b, f a = some b) : (as.filterMap f).getLast? = as.getLast?.bind f := by
  rcases List.eq_nil_or_concat as with rfl | ⟨as, a, rfl⟩
  · rfl
  · obtain ⟨b, hb⟩ := h a (by simp)
    simp [hb]

/-- The factory mode of clean tokens. -/
theorem Clean.factory_join (h : Clean context tokens) :
    (ofTokens context tokens).factory.join =
      (factoryValues tokens).head?.bind FactoryMode.ofKeyword? := by
  rw [factory_ofTokens]
  cases hvalues : factoryValues tokens with
  | nil => simp
  | cons value values =>
    have hvalue := h.factory.2 value (by simp [hvalues])
    simp [hvalue.1]

/-- The strike limit of clean tokens. -/
theorem Clean.strikeLimit_getD (h : Clean context tokens) (default : Nat) :
    (ofTokens context tokens).strikeLimit.getD default =
      (strikeSources tokens).head?.join.getD default := by
  rw [strikeLimit_ofTokens]
  cases hsources : strikeSources tokens with
  | nil => rfl
  | cons source sources =>
    obtain ⟨count, rfl, -⟩ := h.strikes.2 source (by simp [hsources])
    rfl

/-- The pools of clean tokens are those that stand for their lists. -/
theorem forall₂_draws_iff (pools : List Pool) {drawn : List PoolToken}
    (h : ∀ pool ∈ drawn, ∃ contents, context.Draws pool.list contents) :
    List.Forall₂
        (fun token pool => pool.count = token.count.getD 1 ∧ context.Draws token.list pool.contents)
        drawn pools ↔ pools = drawn.map (poolOf context) := by
  induction drawn generalizing pools with
  | nil => simp
  | cons token drawn ih =>
    -- a list without problems stands for one thing only, which is what it resolves to
    have hhead (pool : Pool) : pool = poolOf context token ↔
        pool.count = token.count.getD 1 ∧ context.Draws token.list pool.contents := by
      obtain ⟨count, contents⟩ := pool
      have hnone := Context.problems_eq_nil_iff.2 (h token List.mem_cons_self)
      simp [poolOf, Context.resolvePool, Context.draws_iff, hnone, eq_comm]
    cases pools with
    | nil => simp
    | cons pool pools =>
      rw [List.forall₂_cons, ih _ fun other hother => h other (List.mem_cons_of_mem _ hother),
        List.map_cons, List.cons.injEq, hhead]

/-- **Clean tokens describe the mission of their draft** and no other. -/
theorem Clean.describes_iff (h : Clean context tokens) :
    Describes context tokens mission ↔
      mission = {
        timeLimit := (ofTokens context tokens).timeLimit.getD
          (moduleTotal tokens * secondsPerModule)
        strikeLimit := (ofTokens context tokens).strikeLimit.getD
          (defaultStrikes (moduleTotal tokens))
        pacing := (ofTokens context tokens).pacing
        frontFaceOnly := (ofTokens context tokens).frontFaceOnly
        widgetCount := (ofTokens context tokens).widgetCount
        needyActivationDelay := (ofTokens context tokens).needyActivationDelay
        factoryMode := (ofTokens context tokens).factory.join
        pools := (ofTokens context tokens).pools } := by
  have hpools (pools : List Pool) :=
    forall₂_draws_iff pools fun pool hpool => (h.pools pool hpool).2
  rw [h.factory_join, h.strikeLimit_getD, timeLimit_ofTokens, pacing_ofTokens,
    frontFaceOnly_ofTokens, widgetCount_ofTokens, needyActivationDelay_ofTokens, pools_ofTokens,
    getLast?_filterMap_of_forall h.widgets, getLast?_filterMap_of_forall h.delays]
  obtain ⟨time, strikes, pacing, front, widgets, delay, factory, pools⟩ := mission
  simp only [Mission.mk.injEq]
  constructor
  · rintro ⟨htime, hstrikes, hpacing, hfront, hwidgets, hdelay, hfactory, hpool⟩
    refine ⟨htime, hstrikes, ?_, ?_, hwidgets, hdelay, hfactory, (hpools _).1 hpool⟩
    · rw [Bool.eq_iff_iff]
      simpa using hpacing
    · rw [Bool.eq_iff_iff]
      simpa using hfront
  · rintro ⟨htime, hstrikes, rfl, rfl, hwidgets, hdelay, hfactory, hpool⟩
    exact ⟨htime, hstrikes, by simp, by simp, hwidgets, hdelay, hfactory, (hpools _).2 hpool⟩

/-- **A reading is finished exactly if its tokens are acceptable**, and to the
mission that they describe. -/
theorem finish_ofTokens_eq_ok_iff :
    (ofTokens context tokens).finish context = .ok mission ↔
      Acceptable context tokens ∧ Describes context tokens mission := by
  rw [finish_eq_ok_iff, problems_ofTokens_eq_nil_iff, totalProblems_ofTokens_eq_nil_iff,
    countOf_pools_ofTokens]
  constructor
  · rintro ⟨hclean, ⟨hsolvable, hcapacity⟩, hmission⟩
    -- without tokens there is no pool to be solvable
    have hnonempty : tokens ≠ [] := by
      rintro rfl
      obtain ⟨pool, hpool, -⟩ := hsolvable
      cases hpool
    exact ⟨⟨hclean, hnonempty, hsolvable, hcapacity⟩, hclean.describes_iff.2 hmission⟩
  · rintro ⟨haccept, hdescribes⟩
    exact ⟨haccept.toClean, ⟨haccept.solvable, haccept.capacity⟩,
      haccept.toClean.describes_iff.1 hdescribes⟩

/-- Acceptable tokens describe a mission. -/
theorem Acceptable.exists_describes (h : Acceptable context tokens) :
    ∃ mission, Describes context tokens mission :=
  ⟨_, h.toClean.describes_iff.2 rfl⟩

end Draft

end MissionText
