import MissionText.Proofs.Mission.Sound
import MissionText.Proofs.Token.Written
/-!
# Round trip — a sound mission is read back from its own line

A mission is written word by word. Each word says one thing
(`forall₂_reads_writtenTokens`), so what the line of the words says is known
without reading it (`writtenKinds`); and that is just what describes the
mission again (`describes_written`), and is acceptable as long as the mission
is sound (`acceptable_written`).
-/

namespace MissionText

open Text Token

variable {context : Context} {mission : Mission} {time : TimeToken} {count : Nat}
  {name other : SettingName} {value : String}

/-! ## What the words say -/

/-- What a written setting says. -/
def settingKind (name : SettingName) (value : Option String) : TokenKind :=
  .setting ⟨name, name.keyword, value⟩

/-- What a written strike limit says. -/
def strikesKind (count : Nat) : TokenKind :=
  if count ≤ fieldMax then .strikes count else settingKind .strikes (some (toString count))

/-- What a written pool says. -/
def poolKind (pool : Pool) : TokenKind := .pool ⟨some pool.count, pool.contents.written, 0⟩

theorem isBlank_of_mem_toString {c : Char} (hc : c ∈ (toString count).toList) :
    isBlank c = false :=
  isBlank_of_isDigit (isDigit_of_mem_toString hc)

theorem reads_writtenStrikes (count : Nat) : Reads (writtenStrikes count) (strikesKind count) := by
  rw [writtenStrikes, strikesKind]
  split
  · rename_i h
    exact reads_strikes h
  · exact reads_setting .strikes fun c hc => isBlank_of_mem_toString hc

theorem FactoryMode.isBlank_id (mode : FactoryMode) : ∀ c ∈ mode.id.toList, isBlank c = false := by
  have hall : mode.id.toList.all (fun c => !isBlank c) = true := by
    cases mode <;> decide
  simpa using hall

theorem FactoryMode.id_ne_empty (mode : FactoryMode) : mode.id ≠ "" := by
  cases mode <;> decide

theorem toString_ne_empty (count : Nat) : toString count ≠ "" := by
  intro h
  exact toList_toString_ne_nil count (by rw [h]; rfl)

theorem SettingToken.value?_mk (h : value ≠ "") :
    (SettingToken.mk name name.keyword (some value)).value? = some value := by
  rw [value?, Option.filter_some, if_pos (by simpa using h)]

namespace Mission

/-- What the words of a mission say, if its time limit is read as `time`. -/
def writtenKinds (mission : Mission) (time : TimeToken) : List TokenKind :=
  [.time time] ++ [strikesKind mission.strikeLimit] ++
    (mission.widgetCount.map fun count => settingKind .widgets (some (toString count))).toList ++
    (mission.needyActivationDelay.map fun delay =>
      settingKind .needyActivationTime (some (toString delay))).toList ++
    (if mission.pacing then [] else [settingKind .noPacing none]) ++
    (if mission.frontFaceOnly then [settingKind .frontOnly none] else []) ++
    (mission.factoryMode.map fun mode => settingKind .factory (some mode.id)).toList ++
    mission.pools.map poolKind

theorem forall₂_toList {α β γ : Type} {R : β → γ → Prop} {f : α → β} {g : α → γ} {o : Option α}
    (h : ∀ a, R (f a) (g a)) : List.Forall₂ R (o.map f).toList (o.map g).toList := by
  cases o with
  | none => exact .nil
  | some a => exact .cons (h a) .nil

theorem forall₂_ite {β γ : Type} {R : β → γ → Prop} {b : Bool} {bs bs' : List β} {cs cs' : List γ}
    (h : List.Forall₂ R bs cs) (h' : List.Forall₂ R bs' cs') :
    List.Forall₂ R (if b then bs else bs') (if b then cs else cs') := by
  cases b
  · exact h'
  · exact h

/-- Everything that a mission names is writable. -/
def IdsWritable (mission : Mission) : Prop := ∀ pool ∈ mission.pools, pool.contents.IdsWritable

/-- **Every word of a mission reads as what it says**, if what it names is
writable. -/
theorem Formed.forall₂_reads_writtenTokens (h : Formed context mission)
    (hids : mission.IdsWritable) :
    ∃ time, time.total = mission.timeLimit ∧
      List.Forall₂ Reads mission.writtenTokens (mission.writtenKinds time) := by
  obtain ⟨time, htotal, htime⟩ := reads_writtenTime h.time.2
  refine ⟨time, htotal, ?_⟩
  -- a pool is one word: it begins with its count, and its list is balanced
  have hpools : List.Forall₂ Reads (mission.pools.map Pool.written)
      (mission.pools.map poolKind) := by
    rw [List.forall₂_map_left_iff, List.forall₂_map_right_iff, List.forall₂_same]
    intro pool hpool
    obtain ⟨-, hcount, hcontents⟩ := h.pools pool hpool
    have hpool := hids pool hpool
    exact reads_pool hcount (hcontents.head_written hpool) (hcontents.balanced_written hpool)
  have hflag (name : SettingName) : List.Forall₂ Reads [name.keyword] [settingKind name none] :=
    .cons (reads_keyword name) .nil
  rw [writtenTokens, writtenKinds]
  refine List.rel_append (List.rel_append (List.rel_append (List.rel_append (List.rel_append
    (List.rel_append (.cons htime (.cons (reads_writtenStrikes _) .nil)) (forall₂_toList ?_))
    (forall₂_toList ?_)) (forall₂_ite .nil (hflag .noPacing)))
    (forall₂_ite (hflag .frontOnly) .nil)) (forall₂_toList ?_)) hpools
  · exact fun count => reads_setting .widgets fun c hc => isBlank_of_mem_toString hc
  · exact fun delay => reads_setting .needyActivationTime fun c hc => isBlank_of_mem_toString hc
  · exact fun mode => reads_setting .factory mode.isBlank_id

/-- The gists of a written line are what its words say. -/
theorem gists_of_forall₂_reads {words : List String} {kinds : List TokenKind}
    (h : List.Forall₂ Reads words kinds) :
    (Scan.ofText (" ".intercalate words)).tokens.map Token.gist = kinds := by
  have hwords : ∀ word ∈ words, IsWord word.toList := by
    intro word hword
    obtain ⟨kind, -, hreads⟩ := exists_mem_left h.flip word hword
    exact hreads.word
  rw [Scan.gists_ofText_intercalate hwords]
  clear hwords
  induction h with
  | nil => rfl
  | cons hreads _ ih => rw [List.map_cons, hreads.gist, ih]

/-! ## What the line says -/

/-- What a slot takes from the words of a mission. -/
theorem filterMap_writtenKinds {β : Type} (slot : TokenKind → Option β) (mission : Mission)
    (time : TimeToken) :
    (mission.writtenKinds time).filterMap slot =
      (slot (.time time)).toList ++ (slot (strikesKind mission.strikeLimit)).toList ++
        (mission.widgetCount.bind fun count =>
          slot (settingKind .widgets (some (toString count)))).toList ++
        (mission.needyActivationDelay.bind fun delay =>
          slot (settingKind .needyActivationTime (some (toString delay)))).toList ++
        (if mission.pacing then [] else (slot (settingKind .noPacing none)).toList) ++
        (if mission.frontFaceOnly then (slot (settingKind .frontOnly none)).toList else []) ++
        (mission.factoryMode.bind fun mode => slot (settingKind .factory (some mode.id))).toList ++
        mission.pools.filterMap fun pool => slot (poolKind pool) := by
  have hsingle (kind : TokenKind) : [kind].filterMap slot = (slot kind).toList := by
    rw [List.filterMap_cons]
    cases slot kind <;> rfl
  have hoption {α : Type} (o : Option α) (f : α → TokenKind) :
      (o.map f).toList.filterMap slot = (o.bind fun a => slot (f a)).toList := by
    cases o with
    | none => rfl
    | some a => exact hsingle (f a)
  simp only [writtenKinds, List.filterMap_append, hoption, List.filterMap_map, apply_ite, hsingle,
    List.filterMap_nil, Function.comp_def]

/-- What holds of all the words of a mission. -/
theorem forall_mem_writtenKinds {P : TokenKind → Prop} :
    (∀ kind ∈ mission.writtenKinds time, P kind) ↔
      P (.time time) ∧ P (strikesKind mission.strikeLimit) ∧
        (∀ count ∈ mission.widgetCount, P (settingKind .widgets (some (toString count)))) ∧
        (∀ delay ∈ mission.needyActivationDelay,
          P (settingKind .needyActivationTime (some (toString delay)))) ∧
        (mission.pacing = false → P (settingKind .noPacing none)) ∧
        (mission.frontFaceOnly = true → P (settingKind .frontOnly none)) ∧
        (∀ mode ∈ mission.factoryMode, P (settingKind .factory (some mode.id))) ∧
        ∀ pool ∈ mission.pools, P (poolKind pool) := by
  simp [writtenKinds, or_imp, forall_and]

/-- The tokens of a written line, without their places. -/
def writtenAtStart (mission : Mission) (time : TimeToken) : List Token :=
  (mission.writtenKinds time).map TokenKind.atStart

/-- The value of a written setting. -/
theorem valueOf?_settingKind (h : value ≠ "") :
    (settingKind name (some value)).atStart.valueOf? other =
      if name = other then some value else none := by
  rw [Token.valueOf?]
  simp only [TokenKind.atStart, settingKind, SettingToken.value?_mk h]

theorem times_written : Draft.times (mission.writtenAtStart time) = [time] := by
  have hstrikes : (strikesKind mission.strikeLimit).atStart.time? = none := by
    rw [strikesKind]
    split <;> rfl
  rw [Draft.times, writtenAtStart, List.filterMap_map, filterMap_writtenKinds]
  simp only [Function.comp_apply, hstrikes]
  simp [TokenKind.atStart, settingKind, poolKind, Token.time?]

theorem strikeSources_written (h : mission.strikeLimit < settingBound) :
    Draft.strikeSources (mission.writtenAtStart time) = [some mission.strikeLimit] := by
  have hstrikes : (strikesKind mission.strikeLimit).atStart.strikes? =
      some (some mission.strikeLimit) := by
    rw [strikesKind]
    split
    · rfl
    · have hvalue :
          (settingKind .strikes (some (toString mission.strikeLimit))).atStart.valueOf? .strikes =
            some (toString mission.strikeLimit) := by
        rw [valueOf?_settingKind (toString_ne_empty _), if_pos rfl]
      simp only [TokenKind.atStart, settingKind, Token.strikes?] at hvalue ⊢
      rw [hvalue, Option.map_some, settingNumber?_toString h]
  rw [Draft.strikeSources, writtenAtStart, List.filterMap_map, filterMap_writtenKinds]
  simp only [Function.comp_apply, hstrikes]
  simp [TokenKind.atStart, settingKind, poolKind, Token.strikes?, Token.valueOf?]

theorem valuesOf_widgets_written :
    Draft.valuesOf .widgets (mission.writtenAtStart time) =
      (mission.widgetCount.map toString).toList := by
  have hstrikes : (strikesKind mission.strikeLimit).atStart.valueOf? .widgets = none := by
    rw [strikesKind]
    split <;> rfl
  rw [Draft.valuesOf, writtenAtStart, List.filterMap_map, filterMap_writtenKinds]
  simp only [Function.comp_apply, hstrikes, valueOf?_settingKind (toString_ne_empty _),
    valueOf?_settingKind (FactoryMode.id_ne_empty _), reduceCtorEq, if_false, if_true]
  simp [TokenKind.atStart, settingKind, poolKind, Token.valueOf?, Option.map_eq_bind]

theorem valuesOf_delay_written :
    Draft.valuesOf .needyActivationTime (mission.writtenAtStart time) =
      (mission.needyActivationDelay.map toString).toList := by
  have hstrikes : (strikesKind mission.strikeLimit).atStart.valueOf? .needyActivationTime =
      none := by
    rw [strikesKind]
    split <;> rfl
  rw [Draft.valuesOf, writtenAtStart, List.filterMap_map, filterMap_writtenKinds]
  simp only [Function.comp_apply, hstrikes, valueOf?_settingKind (toString_ne_empty _),
    valueOf?_settingKind (FactoryMode.id_ne_empty _), reduceCtorEq, if_false, if_true]
  simp [TokenKind.atStart, settingKind, poolKind, Token.valueOf?, Option.map_eq_bind]

theorem factoryValues_written :
    Draft.factoryValues (mission.writtenAtStart time) =
      (mission.factoryMode.map FactoryMode.id).toList := by
  have hstrikes : (strikesKind mission.strikeLimit).atStart.factory? = none := by
    rw [strikesKind]
    split <;> rfl
  have hfactory (mode : FactoryMode) :
      (settingKind .factory (some mode.id)).atStart.factory? = some mode.id := by
    rw [Token.factory?, valueOf?_settingKind mode.id_ne_empty]
    rfl
  rw [Draft.factoryValues, writtenAtStart, List.filterMap_map, filterMap_writtenKinds]
  simp only [Function.comp_apply, hstrikes, hfactory]
  simp [TokenKind.atStart, settingKind, poolKind, Token.factory?, Token.sets, Option.map_eq_bind]

theorem poolTokens_written :
    Draft.poolTokens (mission.writtenAtStart time) =
      mission.pools.map fun pool => ⟨some pool.count, pool.contents.written, 0⟩ := by
  have hstrikes : (strikesKind mission.strikeLimit).atStart.pool? = none := by
    rw [strikesKind]
    split <;> rfl
  rw [Draft.poolTokens, writtenAtStart, List.filterMap_map, filterMap_writtenKinds]
  simp only [Function.comp_apply, hstrikes]
  simp [TokenKind.atStart, settingKind, poolKind, Token.pool?]

/-- Pacing is turned off by a written line if it is off. -/
theorem noPacing_written :
    mission.pacing = true ↔
      ∀ token ∈ mission.writtenAtStart time, token.sets .noPacing = false := by
  have hstrikes : (strikesKind mission.strikeLimit).atStart.sets .noPacing = false := by
    rw [strikesKind]
    split <;> rfl
  rw [writtenAtStart, List.forall_mem_map, forall_mem_writtenKinds, hstrikes]
  simp [TokenKind.atStart, settingKind, poolKind, Token.sets]

/-- The front face alone is asked for by a written line if it is used alone. -/
theorem frontOnly_written :
    mission.frontFaceOnly = true ↔
      ∃ token ∈ mission.writtenAtStart time, token.sets .frontOnly = true := by
  have hstrikes : (strikesKind mission.strikeLimit).atStart.sets .frontOnly = false := by
    rw [strikesKind]
    split <;> rfl
  have hnone : (∀ token ∈ mission.writtenAtStart time, token.sets .frontOnly = false) ↔
      mission.frontFaceOnly = false := by
    rw [writtenAtStart, List.forall_mem_map, forall_mem_writtenKinds, hstrikes]
    simp [TokenKind.atStart, settingKind, poolKind, Token.sets]
  rw [← not_iff_not]
  simpa using hnone.symm

/-! ## The round trip -/

theorem moduleTotal_written :
    Draft.moduleTotal (mission.writtenAtStart time) = mission.moduleCount := by
  rw [Draft.moduleTotal, poolTokens_written, List.foldr_map]
  rfl

/-- A number below the bound of the settings is one that a setting says. -/
theorem settingNumber?_of_mem {number : Option Nat} (h : ∀ count ∈ number, count < settingBound) :
    ∀ value ∈ (number.map toString).toList, ∃ count, Draft.settingNumber? value = some count := by
  intro value hvalue
  obtain ⟨count, hcount, rfl⟩ := Option.map_eq_some_iff.1 (Option.mem_toList.1 hvalue)
  exact ⟨count, settingNumber?_toString (h count hcount)⟩

/-- **Nothing is wrong with any word of a written line.** -/
theorem Formed.clean_written (h : Formed context mission) (hids : mission.IdsWritable)
    (htotal : time.total = mission.timeLimit) :
    Draft.Clean context (mission.writtenAtStart time) := by
  refine ⟨?_, ?_, ?_, ?_, ?_, ?_⟩
  · rw [times_written]
    exact ⟨Nat.le_refl 1, by simp [htotal, h.time.1]⟩
  · rw [strikeSources_written h.strikes.2]
    exact ⟨Nat.le_refl 1, by simp [h.strikes.1]⟩
  · rw [valuesOf_widgets_written]
    exact settingNumber?_of_mem h.widgets
  · rw [valuesOf_delay_written]
    exact settingNumber?_of_mem h.delay
  · rw [factoryValues_written]
    refine ⟨by cases mission.factoryMode <;> simp, fun value hvalue => ?_⟩
    obtain ⟨mode, hmode, rfl⟩ := Option.map_eq_some_iff.1 (Option.mem_toList.1 hvalue)
    exact ⟨h.factory (by simp [hmode]), mode, FactoryMode.ofKeyword?_id mode⟩
  · rw [poolTokens_written]
    intro token htoken
    obtain ⟨pool, hpool, rfl⟩ := List.mem_map.1 htoken
    obtain ⟨hpos, -, hcontents⟩ := h.pools pool hpool
    refine ⟨fun hzero => ?_, pool.contents, hcontents.draws_written (hids pool hpool) rfl⟩
    rw [Option.some.inj hzero] at hpos
    exact Nat.lt_irrefl 0 hpos

/-- A written line has a pool of modules to be solved if the mission has one. -/
theorem Formed.drawsSolvable_written_iff (h : Formed context mission)
    (hids : mission.IdsWritable) :
    (∃ token ∈ Draft.poolTokens (mission.writtenAtStart time), context.DrawsSolvable token.list) ↔
      ∃ pool ∈ mission.pools, pool.contents.AllSolvable context := by
  rw [poolTokens_written]
  have hpool : ∀ pool ∈ mission.pools,
      context.DrawsSolvable (PoolToken.list ⟨some pool.count, pool.contents.written, 0⟩) ↔
        pool.contents.AllSolvable context := fun pool hmem =>
    (h.pools pool hmem).2.2.drawsSolvable_written_iff (hids pool hmem) rfl
  constructor
  · rintro ⟨token, htoken, hdraws⟩
    obtain ⟨pool, hmem, rfl⟩ := List.mem_map.1 htoken
    exact ⟨pool, hmem, (hpool pool hmem).1 hdraws⟩
  · rintro ⟨pool, hmem, hsolvable⟩
    exact ⟨_, List.mem_map_of_mem hmem, (hpool pool hmem).2 hsolvable⟩

/-- **A written line is acceptable** if the mission is sound. -/
theorem Sound.acceptable_written (h : Sound context mission) (hids : mission.IdsWritable)
    (htotal : time.total = mission.timeLimit) :
    Draft.Acceptable context (mission.writtenAtStart time) := by
  refine ⟨h.clean_written hids htotal, ?_, (h.drawsSolvable_written_iff hids).2 h.solvable, ?_⟩
  · intro hnil
    have htimes : Draft.times (mission.writtenAtStart time) = [time] := times_written
    rw [hnil] at htimes
    cases htimes
  · rw [moduleTotal_written]
    exact h.capacity

/-- What a setting says of a number that was written. -/
theorem getLast?_bind_settingNumber? {number : Option Nat}
    (h : ∀ count ∈ number, count < settingBound) :
    number = (number.map toString).toList.getLast?.bind Draft.settingNumber? := by
  cases number with
  | none => rfl
  | some count => exact (settingNumber?_toString (h count rfl)).symm

/-- **A written line describes the mission.** -/
theorem Formed.describes_written (h : Formed context mission) (hids : mission.IdsWritable)
    (htotal : time.total = mission.timeLimit) :
    Draft.Describes context (mission.writtenAtStart time) mission := by
  refine ⟨?_, ?_, noPacing_written, frontOnly_written, ?_, ?_, ?_, ?_⟩
  · rw [times_written]
    exact htotal.symm
  · rw [strikeSources_written h.strikes.2]
    rfl
  · rw [valuesOf_widgets_written]
    exact getLast?_bind_settingNumber? h.widgets
  · rw [valuesOf_delay_written]
    exact getLast?_bind_settingNumber? h.delay
  · rw [factoryValues_written]
    cases mission.factoryMode with
    | none => rfl
    | some mode => exact (FactoryMode.ofKeyword?_id mode).symm
  · rw [poolTokens_written, List.forall₂_map_left_iff, List.forall₂_same]
    intro pool hpool
    obtain ⟨-, -, hcontents⟩ := h.pools pool hpool
    exact ⟨rfl, hcontents.draws_written (hids pool hpool) rfl⟩

/-- **A written line is read as its words say.** -/
theorem Formed.exists_parse_written (h : Formed context mission) (hids : mission.IdsWritable) :
    ∃ time, time.total = mission.timeLimit ∧ parse context mission.written =
      (Draft.ofTokens context (mission.writtenAtStart time)).finish context := by
  obtain ⟨time, htotal, hreads⟩ := h.forall₂_reads_writtenTokens hids
  have hgists : (Scan.ofText mission.written).tokens.map Token.gist = mission.writtenKinds time :=
    gists_of_forall₂_reads hreads
  have hblank : ¬ Blank mission.written.toList := by
    rw [← Scan.tokens_ofChars_eq_nil_iff]
    intro hnil
    rw [Scan.ofText, hnil] at hgists
    cases hgists
  -- a draft does not hang on where its tokens stand
  have htokens : (Scan.ofText mission.written).tokens.map (fun token => token.gist.atStart) =
      mission.writtenAtStart time := by
    rw [writtenAtStart, ← hgists, List.map_map]
    rfl
  refine ⟨time, htotal, ?_⟩
  rw [parse_eq_finish hblank, ← Draft.ofTokens_gist, htokens]

/-- **A sound mission is read back from its own line**, if what it names is
writable. -/
theorem Sound.parse_written_of_idsWritable (h : Sound context mission)
    (hids : mission.IdsWritable) : parse context mission.written = .ok mission := by
  obtain ⟨time, htotal, hparse⟩ := h.exists_parse_written hids
  rw [hparse, Draft.finish_ofTokens_eq_ok_iff]
  exact ⟨h.acceptable_written hids htotal, h.describes_written hids htotal⟩

/-- **All that can be lost in a written line are the modules to be solved.** -/
theorem Formed.parse_written_of_not_solvable (h : Formed context mission)
    (hids : mission.IdsWritable)
    (hneedy : ¬ ∃ pool ∈ mission.pools, pool.contents.AllSolvable context) :
    parse context mission.written = .error [.noSolvableModules] := by
  obtain ⟨time, htotal, hparse⟩ := h.exists_parse_written hids
  have hclean := Draft.problems_ofTokens_eq_nil_iff.2 (h.clean_written hids htotal)
  have hcapacity : ¬ context.maxModules < Draft.moduleTotal (mission.writtenAtStart time) := by
    rw [moduleTotal_written]
    exact Nat.not_lt.2 h.capacity
  rw [hparse, Draft.finish_eq_error_iff, hclean, Draft.totalProblems_ofTokens,
    if_neg (mt (h.drawsSolvable_written_iff hids).1 hneedy), if_neg hcapacity]
  exact ⟨rfl, List.cons_ne_nil _ _⟩

/-- In particular where all enabled modules have writable identifiers. -/
theorem Sound.parse_written (h : Sound context mission) (hids : context.IdsWritable) :
    parse context mission.written = .ok mission :=
  h.parse_written_of_idsWritable fun pool hpool => (h.pools pool hpool).2.2.idsWritable hids

/-- **Every mission that is read is read back from its own line**, where the
catalog was put together by insertions, the identifiers of its enabled modules
are writable, and components keep their kinds. -/
theorem parse_written_of_parse {added : List BombModule}
    (hcatalog : context.catalog = Catalog.ofModules added) (hids : context.IdsWritable)
    (hkinds : context.KeepsKinds) (hmax : context.maxModules < UInt32.size) {text : String}
    (h : parse context text = .ok mission) : parse context mission.written = .ok mission := by
  have hsorted : context.catalog.Sorted := hcatalog ▸ Catalog.sorted_ofModules added
  exact (sound_of_parse hsorted hkinds hmax h).parse_written hids

/-- A context with one module more than the base game, whose identifier holds a
blank. -/
def spaceContext : Context where
  catalog := .ofModules [⟨"Space Test", "Space Test", .solvable, true⟩]

/-- A line without limits and counts, and the line in which they are written
out. -/
theorem parse_written_of_parse_space :
    parse spaceContext "\"Space Test\"+Wires" =
        .ok ⟨120, 3, true, false, none, none, none, [⟨1, .named ["Space Test", "Wires"]⟩]⟩ ∧
      parse spaceContext "2:00 3X 1*\"Space Test\",Wires" =
        .ok ⟨120, 3, true, false, none, none, none, [⟨1, .named ["Space Test", "Wires"]⟩]⟩ := by
  have hread : parse spaceContext "\"Space Test\"+Wires" =
      .ok ⟨120, 3, true, false, none, none, none, [⟨1, .named ["Space Test", "Wires"]⟩]⟩ := by
    decide +kernel
  have hwritten : Mission.written
      ⟨120, 3, true, false, none, none, none, [⟨1, .named ["Space Test", "Wires"]⟩]⟩ =
        "2:00 3X 1*\"Space Test\",Wires" := by
    decide +kernel
  have hids : spaceContext.IdsWritable := by
    have hall : "Space Test".toList.all (fun c => !isQuote c && !isSeparator c) = true := by decide
    refine Context.idsWritable_of_catalog rfl (List.forall_mem_singleton.2 ?_)
    exact ⟨by decide, by decide, by simpa using hall, by rintro (_ | _) <;> decide, by decide⟩
  have hkinds : spaceContext.KeepsKinds := by
    refine Context.keepsKinds_of_catalog rfl (List.forall_mem_singleton.2 fun component hid => ?_)
    exact absurd hid (by cases component <;> decide)
  refine ⟨hread, ?_⟩
  rw [← hwritten]
  exact parse_written_of_parse rfl hids hkinds (by decide) hread

end Mission

end MissionText
