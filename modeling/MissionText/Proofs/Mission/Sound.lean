import MissionText.Proofs.Mission.Parsing
import MissionText.Proofs.Pool.Written
import MissionText.Proofs.Scan.Bounded
/-!
# Sound missions — what is true of every mission that was read

The invariant of missions: every number is one that can be written, every
pool draws from something that there is, and the mission as a whole can be
built. Whatever line a mission was read from, it has this form
(`formed_of_parse`). It is also sound, with a pool of modules to be solved,
unless the catalog makes needy components into such modules (`sound_of_parse`);
and this is all that is needed to write it down.
-/

namespace MissionText

open Text Ordered

variable {context : Context} {tokens : List Token} {token : Token} {text : String}
  {mission : Mission} {list : List Char} {contents : Contents} {count : Nat} {value : String}

/-! ## Pools -/

namespace Context

theorem Draws.unique {other : Contents} (h : context.Draws list contents)
    (hother : context.Draws list other) : contents = other :=
  (draws_iff.1 h).2.symm.trans (draws_iff.1 hother).2

/-- **What a list stands for is there**, in order and not empty. -/
theorem Draws.sound (h : context.Draws list contents) (hsorted : context.catalog.Sorted) :
    contents.Sound context := by
  cases h with
  | category drawn => trivial
  | profile kind name profile hcategory href hprofile hsome =>
    refine ⟨hsome, Catalog.ascending_resolve hsorted profile kind, fun id hid => ?_⟩
    obtain ⟨named, hnamed, -⟩ := exists_names_of_mem_resolve hsorted hid
    exact ⟨named, hnamed⟩
  | listed hcategory href hnames =>
    have := transCmp_idOrder
    have hne : identifiersOf list ≠ [] := by simp [identifiersOf]
    exact ⟨ofList_ne_nil hne, pairwise_ofList _, fun id hid => hnames id (mem_of_mem_ofList hid)⟩

/-- **Where only modules to be solved are drawn from a list, so they are from
what it stands for.** -/
theorem DrawsSolvable.allSolvable (h : context.DrawsSolvable list)
    (hdraws : context.Draws list contents) (hsorted : context.catalog.Sorted)
    (hkinds : context.KeepsKinds) : contents.AllSolvable context := by
  cases h with
  | category drawn hlist hkind =>
    obtain rfl := hdraws.unique (.category drawn hlist)
    exact hkind
  | profile name profile hcategory href hprofile hsome =>
    obtain rfl := hdraws.unique (.profile _ name profile hcategory href hprofile hsome)
    intro id hid hneedy
    cases (names_of_mem_resolve hsorted hkinds hid).unique hneedy
  | listed hcategory href hsome hneedy =>
    cases hdraws with
    | category drawn hlist => exact absurd hlist (hcategory drawn)
    | profile kind name profile _ href' => rw [href] at href'; cases href'
    | listed => exact fun id hid => hneedy id (mem_of_mem_ofList hid)

end Context

/-! ## Numbers -/

namespace Draft

theorem settingNumber?_lt (h : settingNumber? value = some count) : count < settingBound := by
  simp only [settingNumber?, unsigned?, Option.filter_eq_some_iff] at h
  simpa using h.2

theorem lt_settingBound_of_le (h : count ≤ fieldMax) : count < settingBound :=
  Nat.lt_of_le_of_lt h (by decide)

theorem total_le (hbounded : ∀ token ∈ tokens, token.Bounded) {time : TimeToken}
    (htime : time ∈ times tokens) : time.total ≤ fieldMax * 3661 := by
  obtain ⟨token, htoken, hkind⟩ := List.mem_filterMap.1 htime
  have hfields := hbounded token htoken
  rw [Token.Bounded, Token.time?_eq_some_iff.1 hkind] at hfields
  exact TimeToken.InFields.total_le hfields

theorem strikes_lt (hbounded : ∀ token ∈ tokens, token.Bounded)
    (hstrikes : some count ∈ strikeSources tokens) : count < settingBound := by
  obtain ⟨token, htoken, hkind⟩ := List.mem_filterMap.1 hstrikes
  have hfields := hbounded token htoken
  obtain ⟨span, kind⟩ := token
  cases kind with
  | strikes other =>
    obtain rfl : other = count := by simpa [Token.strikes?] using hkind
    exact lt_settingBound_of_le hfields
  | setting setting =>
    simp only [Token.strikes?, Option.map_eq_some_iff] at hkind
    obtain ⟨value, -, hvalue⟩ := hkind
    exact settingNumber?_lt hvalue
  | _ => simp [Token.strikes?, Token.valueOf?] at hkind

theorem poolCount_le (hbounded : ∀ token ∈ tokens, token.Bounded) {pool : PoolToken}
    (hpool : pool ∈ poolTokens tokens) : pool.count.getD 1 ≤ fieldMax := by
  obtain ⟨token, htoken, hkind⟩ := List.mem_filterMap.1 hpool
  have hfields := hbounded token htoken
  rw [Token.Bounded, Token.pool?_eq_some_iff.1 hkind] at hfields
  cases hcount : pool.count with
  | none => decide
  | some count => exact hfields count hcount

end Draft

/-! ## Missions -/

namespace Mission

/-- **The form of missions**: every number can be written, every pool draws from
what there is, and the mission can be built. -/
structure Formed (context : Context) (mission : Mission) : Prop where
  /-- There is some time, and three fields can express it. -/
  time : 0 < mission.timeLimit ∧ mission.timeLimit ≤ fieldMax * 3661
  /-- A strike is allowed, and no more than a setting can say. -/
  strikes : 0 < mission.strikeLimit ∧ mission.strikeLimit < settingBound
  widgets : ∀ count ∈ mission.widgetCount, count < settingBound
  delay : ∀ seconds ∈ mission.needyActivationDelay, seconds < settingBound
  /-- There is a factory only where there are factories. -/
  factory : mission.factoryMode ≠ none → context.factoryEnabled = true
  /-- Every pool draws something, and no more than a field can say. -/
  pools : ∀ pool ∈ mission.pools,
    0 < pool.count ∧ pool.count ≤ fieldMax ∧ pool.contents.Sound context
  /-- Some casing holds all the modules. -/
  capacity : mission.moduleCount ≤ context.maxModules

/-- **The invariant of missions**: their form, and what makes one worth
playing. -/
structure Sound (context : Context) (mission : Mission) : Prop extends Formed context mission where
  /-- From some pool only modules to be solved are drawn. -/
  solvable : ∃ pool ∈ mission.pools, pool.contents.AllSolvable context

/-- What goes together with a member of the second list. -/
theorem exists_mem_left {α β : Type} {R : α → β → Prop} {as : List α} {bs : List β}
    (h : List.Forall₂ R as bs) : ∀ b ∈ bs, ∃ a ∈ as, R a b := by
  induction h with
  | nil => simp
  | cons hab _ ih =>
    intro b hb
    rcases List.mem_cons.1 hb with rfl | hb
    · exact ⟨_, List.mem_cons_self, hab⟩
    · obtain ⟨a, ha, hr⟩ := ih b hb
      exact ⟨a, List.mem_cons_of_mem _ ha, hr⟩

variable {mission : Mission}

theorem moduleCount_of_describes (h : Draft.Describes context tokens mission) :
    mission.moduleCount = Draft.moduleTotal tokens := by
  have hpools := h.pools
  rw [moduleCount, countOf, Draft.moduleTotal]
  generalize Draft.poolTokens tokens = drawn, mission.pools = pools at hpools
  induction hpools with
  | nil => rfl
  | cons hpool _ ih => rw [List.foldr_cons, List.foldr_cons, hpool.1, ih]

theorem getD_pos {count : Option Nat} (h : count ≠ some 0) : 0 < count.getD 1 := by
  cases count with
  | none => decide
  | some count =>
    refine Nat.pos_of_ne_zero fun hzero => h ?_
    rw [← hzero]
    rfl

/-- No pool asks for more modules than all of them. -/
theorem count_le_moduleTotal {pool : PoolToken} (hpool : pool ∈ Draft.poolTokens tokens) :
    pool.count.getD 1 ≤ Draft.moduleTotal tokens := by
  rw [Draft.moduleTotal]
  generalize Draft.poolTokens tokens = drawn at hpool ⊢
  induction drawn with
  | nil => cases hpool
  | cons other others ih =>
    rw [List.foldr_cons]
    rcases List.mem_cons.1 hpool with rfl | hpool
    · exact Nat.le_add_right _ _
    · exact Nat.le_trans (ih hpool) (Nat.le_add_left _ _)

/-- A mission of acceptable tokens has modules. -/
theorem moduleTotal_pos (h : Draft.Acceptable context tokens) : 0 < Draft.moduleTotal tokens := by
  obtain ⟨pool, hpool, -⟩ := h.solvable
  exact Nat.lt_of_lt_of_le (getD_pos (h.pools pool hpool).1) (count_le_moduleTotal hpool)

/-- A mission of acceptable tokens has a pool of modules to be solved, where
components keep their kinds. -/
theorem solvable_of_describes (haccept : Draft.Acceptable context tokens)
    (h : Draft.Describes context tokens mission) (hsorted : context.catalog.Sorted)
    (hkinds : context.KeepsKinds) : ∃ pool ∈ mission.pools, pool.contents.AllSolvable context := by
  -- the pool of a token that is solvable is solvable itself
  obtain ⟨token, htoken, hsolvable⟩ := haccept.solvable
  obtain ⟨pool, hpool, -, hdraws⟩ := exists_mem_left h.pools.flip token htoken
  exact ⟨pool, hpool, hsolvable.allSolvable hdraws hsorted hkinds⟩

section Describes

variable (hbounded : ∀ token ∈ tokens, token.Bounded) (haccept : Draft.Acceptable context tokens)
  (h : Draft.Describes context tokens mission)

include hbounded haccept h

/-- A time limit is given by a token, or is two minutes for each module. -/
theorem timeLimit_of_describes (hmax : context.maxModules < UInt32.size) :
    0 < mission.timeLimit ∧ mission.timeLimit ≤ fieldMax * 3661 := by
  have hpos := moduleTotal_pos haccept
  have hcapacity := haccept.capacity
  rw [h.timeLimit]
  cases htimes : Draft.times tokens with
  | nil =>
    simp only [List.head?_nil, Option.map_none, Option.getD_none, UInt32.size, fieldMax] at *
    omega
  | cons time times =>
    have htime : time ∈ Draft.times tokens := by simp [htimes]
    exact ⟨haccept.time.2 time htime, Draft.total_le hbounded htime⟩

/-- A strike limit is given by a token, or hangs on the number of modules. -/
theorem strikeLimit_of_describes :
    0 < mission.strikeLimit ∧ mission.strikeLimit < settingBound := by
  rw [h.strikeLimit]
  cases hsources : Draft.strikeSources tokens with
  | nil =>
    simp only [List.head?_nil, Option.join_none, Option.getD_none, settingBound, UInt32.size]
    omega
  | cons source sources =>
    have hsource : source ∈ Draft.strikeSources tokens := by simp [hsources]
    obtain ⟨count, rfl, hcount⟩ := haccept.strikes.2 source hsource
    exact ⟨hcount, Draft.strikes_lt hbounded hsource⟩

/-- **What acceptable tokens describe has the form of a mission**, if the
numbers of the tokens are those of fields. -/
theorem formed_of_describes (hsorted : context.catalog.Sorted)
    (hmax : context.maxModules < UInt32.size) : Formed context mission := by
  refine ⟨timeLimit_of_describes hbounded haccept h hmax,
    strikeLimit_of_describes hbounded haccept h, fun count hcount => ?_,
    fun seconds hseconds => ?_, fun hfactory => ?_, fun pool hpool => ?_, ?_⟩
  · rw [h.widgetCount] at hcount
    obtain ⟨value, -, hvalue⟩ := Option.bind_eq_some_iff.1 hcount
    exact Draft.settingNumber?_lt hvalue
  · rw [h.needyActivationDelay] at hseconds
    obtain ⟨value, -, hvalue⟩ := Option.bind_eq_some_iff.1 hseconds
    exact Draft.settingNumber?_lt hvalue
  · rw [h.factoryMode] at hfactory
    obtain ⟨mode, hmode⟩ := Option.ne_none_iff_exists'.1 hfactory
    obtain ⟨value, hvalue, -⟩ := Option.bind_eq_some_iff.1 hmode
    exact (haccept.factory.2 value (List.mem_of_mem_head? hvalue)).1
  · obtain ⟨token, htoken, hcount, hdraws⟩ := exists_mem_left h.pools pool hpool
    rw [hcount]
    exact ⟨getD_pos (haccept.pools token htoken).1, Draft.poolCount_le hbounded htoken,
      hdraws.sound hsorted⟩
  · rw [moduleCount_of_describes h]
    exact haccept.capacity

end Describes

/-- **Every mission that is read has the form of one**, whatever the catalog
says about components. -/
theorem formed_of_parse (hsorted : context.catalog.Sorted)
    (hmax : context.maxModules < UInt32.size) (h : parse context text = .ok mission) :
    Formed context mission := by
  obtain ⟨haccept, hdescribes⟩ := Draft.finish_ofTokens_eq_ok_iff.1 (parse_eq_ok_iff_finish.1 h)
  exact formed_of_describes (Scan.bounded_ofText text) haccept hdescribes hsorted hmax

/-- **Every mission that is read is sound**, where components keep their
kinds. -/
theorem sound_of_parse (hsorted : context.catalog.Sorted) (hkinds : context.KeepsKinds)
    (hmax : context.maxModules < UInt32.size) (h : parse context text = .ok mission) :
    Sound context mission := by
  obtain ⟨haccept, hdescribes⟩ := Draft.finish_ofTokens_eq_ok_iff.1 (parse_eq_ok_iff_finish.1 h)
  exact ⟨formed_of_parse hsorted hmax h, solvable_of_describes haccept hdescribes hsorted hkinds⟩

end Mission

end MissionText
