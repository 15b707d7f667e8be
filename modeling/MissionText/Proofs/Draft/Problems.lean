import MissionText.Proofs.Draft.Acceptance
import MissionText.Proofs.Pool.Faults
/-!
# Problems — what each problem of a draft is about

Problems are found in several places, and each place finds problems of its own
scope: the line as such, its settings, its pools, or all of its pools together.
So the problems of one scope can be picked out of those of a whole reading.
For the pools this gives the problems pool by pool (`filter_pool_ofTokens`):
what is wrong with a pool does not hang on the tokens before it, and nothing
that is wrong elsewhere keeps it from being reported.
-/

namespace MissionText

/-- What a problem is about. -/
inductive Scope where
  /-- The line as such. -/
  | line
  /-- A limit or another setting. -/
  | setting
  /-- The count or the list of one pool. -/
  | pool
  /-- All pools together. -/
  | whole
  deriving DecidableEq, Repr

/-- The scope of a problem. -/
def Diagnostic.scope : Diagnostic → Scope
  | syntaxError => .line
  | timeSpecifiedMultipleTimes | invalidTimeLimit | strikeLimitSpecifiedMultipleTimes
  | invalidStrikeLimit | invalidWidgetCount | invalidNeedyActivationTime
  | factorySpecifiedMultipleTimes | factoryNotEnabled | invalidFactoryMode => .setting
  | invalidPoolCount | unknownProfile _ | emptyProfile _ | unknownModule _
  | disabledModule _ => .pool
  | noSolvableModules | tooManyModules _ _ => .whole

namespace Context

variable {context : Context} {list : List Char} {ids : List String} {problem : Diagnostic}
  {problems : List Diagnostic}

theorem RejectsEach.scope (h : context.RejectsEach ids problems) (hmem : problem ∈ problems) :
    problem.scope = .pool := by
  induction h with
  | nil => cases hmem
  | named _ _ ih => exact ih hmem
  | rejected hrejects _ ih =>
    rcases List.mem_cons.1 hmem with rfl | hmem
    · cases hrejects <;> rfl
    · exact ih hmem

/-- The faults of a list are about its pool. -/
theorem Faults.scope (h : context.Faults list problems) (hmem : problem ∈ problems) :
    problem.scope = .pool := by
  cases h with
  | category | profile => cases hmem
  | unknownProfile | emptyProfile =>
    obtain rfl := List.mem_singleton.1 hmem
    rfl
  | listed _ _ hrejects => exact hrejects.scope hmem

end Context

namespace Draft

variable {context : Context} {draft : Draft} {token : Token} {tokens : List Token}
  {problem : Diagnostic}

/-! ## Scopes, token by token -/

/-- What is wrong with a token that is no pool. -/
def settingComplaints (context : Context) (draft : Draft) (token : Token) : List Diagnostic :=
  draft.timeComplaints token ++ draft.strikeComplaints token ++
    numberComplaints .widgets .invalidWidgetCount token ++
    numberComplaints .needyActivationTime .invalidNeedyActivationTime token ++
    draft.factoryComplaints context token

theorem complaints_eq (context : Context) (draft : Draft) (token : Token) :
    complaints context draft token =
      settingComplaints context draft token ++ poolComplaints context token := rfl

theorem mem_once {problems : List Diagnostic} {other : Diagnostic}
    (h : problem ∈ once problems other) : problem = other := by
  rw [once] at h
  split at h
  · cases h
  · exact List.mem_singleton.1 h

theorem mem_timeComplaints (h : problem ∈ draft.timeComplaints token) :
    problem = .timeSpecifiedMultipleTimes ∨ problem = .invalidTimeLimit := by
  rw [timeComplaints] at h
  split at h
  · cases h
  · exact .inl (mem_once h)
  · split at h
    · exact .inr (List.mem_singleton.1 h)
    · cases h

theorem mem_strikeComplaints (h : problem ∈ draft.strikeComplaints token) :
    problem = .strikeLimitSpecifiedMultipleTimes ∨ problem = .invalidStrikeLimit := by
  rw [strikeComplaints] at h
  split at h
  · cases h
  · exact .inl (mem_once h)
  · split at h
    · exact .inr (List.mem_singleton.1 h)
    · cases h

theorem mem_numberComplaints {name : SettingName} {reported : Diagnostic}
    (h : problem ∈ numberComplaints name reported token) : problem = reported := by
  rw [numberComplaints] at h
  split at h
  · cases h
  · split at h
    · exact List.mem_singleton.1 h
    · cases h

theorem mem_factoryComplaints (h : problem ∈ draft.factoryComplaints context token) :
    problem = .factorySpecifiedMultipleTimes ∨ problem = .factoryNotEnabled ∨
      problem = .invalidFactoryMode := by
  rw [factoryComplaints] at h
  split at h
  · cases h
  · exact .inl (mem_once h)
  · split at h
    · split at h
      · exact .inr (.inr (List.mem_singleton.1 h))
      · cases h
    · exact .inr (.inl (List.mem_singleton.1 h))

/-- **Limits and other settings are complained of as such.** -/
theorem scope_of_mem_settingComplaints (h : problem ∈ settingComplaints context draft token) :
    problem.scope = .setting := by
  simp only [settingComplaints, List.mem_append] at h
  rcases h with (((htime | hstrikes) | hwidgets) | hdelay) | hfactory
  · rcases mem_timeComplaints htime with rfl | rfl <;> rfl
  · rcases mem_strikeComplaints hstrikes with rfl | rfl <;> rfl
  · rw [mem_numberComplaints hwidgets]
    rfl
  · rw [mem_numberComplaints hdelay]
    rfl
  · rcases mem_factoryComplaints hfactory with rfl | rfl | rfl <;> rfl

/-- What is wrong with a pool, as a list. -/
def poolProblems (context : Context) (pool : PoolToken) : List Diagnostic :=
  (if pool.count = some 0 then [.invalidPoolCount] else []) ++ (context.resolvePool pool).problems

theorem scope_of_mem_poolProblems {pool : PoolToken} (h : problem ∈ poolProblems context pool) :
    problem.scope = .pool := by
  obtain ⟨faults, hfaults, heq⟩ := Context.poolFaults_iff.2 (rfl : _ = poolProblems context pool)
  rw [heq, List.mem_append] at h
  rcases h with hcount | hlist
  · split at hcount
    · obtain rfl := List.mem_singleton.1 hcount
      rfl
    · cases hcount
  · exact hfaults.scope hlist

theorem poolComplaints_eq (context : Context) (token : Token) :
    poolComplaints context token = token.pool?.toList.flatMap (poolProblems context) := by
  rw [poolComplaints]
  cases token.pool? with
  | none => rfl
  | some pool => simp [poolProblems]

/-- **Pools are complained of as such.** -/
theorem scope_of_mem_poolComplaints (h : problem ∈ poolComplaints context token) :
    problem.scope = .pool := by
  rw [poolComplaints_eq] at h
  obtain ⟨pool, -, hpool⟩ := List.mem_flatMap.1 h
  exact scope_of_mem_poolProblems hpool

/-! ## Scopes of a whole reading -/

/-- What a reading finds wrong is about a setting or about a pool. -/
theorem scope_of_mem_problems (h : problem ∈ (ofTokens context tokens).problems) :
    problem.scope = .setting ∨ problem.scope = .pool := by
  induction tokens using List.reverseRecOn with
  | nil => cases h
  | append_singleton tokens token ih =>
    rw [problems_ofTokens_concat, complaints_eq] at h
    simp only [List.mem_append] at h
    rcases h with hbefore | hsetting | hpool
    · exact ih hbefore
    · exact .inl (scope_of_mem_settingComplaints hsetting)
    · exact .inr (scope_of_mem_poolComplaints hpool)

theorem poolTokens_concat (tokens : List Token) (token : Token) :
    poolTokens (tokens ++ [token]) = poolTokens tokens ++ token.pool?.toList :=
  filterMap_concat Token.pool? tokens token

/-- **The problems of the pools are those of each pool in turn.** -/
theorem filter_pool_ofTokens (context : Context) (tokens : List Token) :
    (ofTokens context tokens).problems.filter (·.scope = .pool) =
      (poolTokens tokens).flatMap (poolProblems context) := by
  induction tokens using List.reverseRecOn with
  | nil => rfl
  | append_singleton tokens token ih =>
    have hsettings : (settingComplaints context (ofTokens context tokens) token).filter
        (·.scope = .pool) = [] := by
      refine List.filter_eq_nil_iff.2 fun problem hmem => ?_
      simp [scope_of_mem_settingComplaints hmem]
    have hpools : (poolComplaints context token).filter (·.scope = .pool) =
        poolComplaints context token := by
      refine List.filter_eq_self.2 fun problem hmem => ?_
      simp [scope_of_mem_poolComplaints hmem]
    rw [problems_ofTokens_concat, complaints_eq, List.filter_append, List.filter_append, ih,
      hsettings, hpools, List.nil_append, poolComplaints_eq, poolTokens_concat,
      List.flatMap_append]

/-- The problems of a draft as a whole are about all pools together. -/
theorem scope_of_mem_totalProblems (h : problem ∈ draft.totalProblems context) :
    problem.scope = .whole := by
  rw [totalProblems, List.mem_append] at h
  rcases h with hsolvable | hcapacity
  · grind [Diagnostic.scope]
  · grind [Diagnostic.scope]

/-- Whether a list is solvable can be found out. -/
instance decidableDrawsSolvable (context : Context) (list : List Char) :
    Decidable (context.DrawsSolvable list) :=
  decidable_of_iff ((context.resolveList list).solvable = true) Context.drawsSolvable_iff.symm

/-- **The problems of all pools together**: there has to be a solvable pool
among them, and a casing that holds all modules, those of rejected pools
included. -/
theorem totalProblems_ofTokens (context : Context) (tokens : List Token) :
    (ofTokens context tokens).totalProblems context =
      (if ∃ pool ∈ poolTokens tokens, context.DrawsSolvable pool.list then []
        else [.noSolvableModules]) ++
      (if context.maxModules < moduleTotal tokens then
        [.tooManyModules (moduleTotal tokens) context.maxModules] else []) := by
  have hsolvable : (∃ pool ∈ poolTokens tokens, context.DrawsSolvable pool.list) ↔
      (ofTokens context tokens).anySolvable = true := by
    simp [anySolvable_ofTokens, Context.drawsSolvable_iff, Context.resolvePool]
  simp only [totalProblems, countOf_pools_ofTokens, hsolvable, gt_iff_lt]

end Draft

end MissionText
