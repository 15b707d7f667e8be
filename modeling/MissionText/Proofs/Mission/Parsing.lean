import MissionText.Proofs.Draft.Problems
import MissionText.Proofs.Scan.Tiling
/-!
# Parsing — a line is read as a whole or not at all

The scan of a line always reaches its end, so the tokens account for the line
as soon as there are any. The one error of the line itself, the syntax error,
is therefore left for blank lines, and every other line stands or falls with
its draft (`parse_eq_finish`). A line that falls says **all** that is wrong with
its pools, whatever else is wrong with it (`blames_of_parse_eq_error`).
-/

namespace MissionText

open Text

variable {context : Context} {draft : Draft} {token : Token} {tokens : List Token}
  {text : String} {mission : Mission} {problems : List Diagnostic}

namespace Draft

/-- What a draft fails with. -/
theorem finish_eq_error_iff :
    draft.finish context = .error problems ↔
      problems = draft.problems ++ draft.totalProblems context ∧ problems ≠ [] := by
  rw [finish]
  split
  · rename_i hnone
    simp [hnone]
  · rename_i hsome
    rw [Except.error.injEq]
    constructor
    · rintro rfl
      exact ⟨rfl, hsome⟩
    · rintro ⟨rfl, -⟩
      rfl

/-- No token is a syntax error, and neither are all pools together. -/
theorem syntaxError_notMem_of_finish
    (h : (ofTokens context tokens).finish context = .error problems) : .syntaxError ∉ problems := by
  obtain ⟨rfl, -⟩ := finish_eq_error_iff.1 h
  intro hmem
  rcases List.mem_append.1 hmem with htokens | htotal
  · rcases scope_of_mem_problems htokens with hscope | hscope <;> cases hscope
  · cases scope_of_mem_totalProblems htotal

end Draft

namespace Mission

theorem parse_of_blank (h : Blank text.toList) : parse context text = .error [.syntaxError] := by
  have htokens : (Scan.ofText text).tokens = [] := Scan.tokens_ofChars_eq_nil_iff.2 h
  have hcovers : (Scan.ofText text).covers text = false := by
    rw [Scan.covers_ofText, htokens]
    rfl
  simp [parse, read, hcovers]

/-- **A line that is not blank is read as its tokens are.** -/
theorem parse_eq_finish (h : ¬ Blank text.toList) :
    parse context text = (Draft.ofTokens context (Scan.ofText text).tokens).finish context := by
  have htokens : (Scan.ofText text).tokens ≠ [] := fun hnil =>
    h (Scan.tokens_ofChars_eq_nil_iff.1 hnil)
  have hcovers : (Scan.ofText text).covers text = true := by
    rw [Scan.covers_ofText]
    simpa using htokens
  simp [parse, read, hcovers]

/-- A line is read as a mission exactly if its draft is finished to it. -/
theorem parse_eq_ok_iff_finish :
    parse context text = .ok mission ↔
      (Draft.ofTokens context (Scan.ofText text).tokens).finish context = .ok mission := by
  by_cases hblank : Blank text.toList
  · -- neither side holds: a draft of no tokens is not acceptable
    have htokens : (Scan.ofText text).tokens = [] := Scan.tokens_ofChars_eq_nil_iff.2 hblank
    rw [parse_of_blank hblank, htokens, Draft.finish_ofTokens_eq_ok_iff]
    exact ⟨nofun, fun h => absurd rfl h.1.nonempty⟩
  · rw [parse_eq_finish hblank]

/-- **A line is read as a mission exactly if its tokens are acceptable**, and
as the mission that they describe; otherwise something is wrong with it. -/
theorem parse_eq_ok_iff_acceptable (context : Context) (text : String) :
    ((∃ mission, parse context text = .ok mission) ↔
        Draft.Acceptable context (Scan.ofText text).tokens) ∧
      (∀ mission, parse context text = .ok mission →
        Draft.Describes context (Scan.ofText text).tokens mission) ∧
      ∀ problems, parse context text = .error problems → problems ≠ [] := by
  refine ⟨⟨?_, fun haccept => ?_⟩, fun mission hmission => ?_, fun problems hproblems => ?_⟩
  · rintro ⟨mission, hmission⟩
    exact (Draft.finish_ofTokens_eq_ok_iff.1 (parse_eq_ok_iff_finish.1 hmission)).1
  · obtain ⟨mission, hdescribes⟩ := haccept.exists_describes
    exact ⟨mission,
      parse_eq_ok_iff_finish.2 (Draft.finish_ofTokens_eq_ok_iff.2 ⟨haccept, hdescribes⟩)⟩
  · exact (Draft.finish_ofTokens_eq_ok_iff.1 (parse_eq_ok_iff_finish.1 hmission)).2
  · by_cases hblank : Blank text.toList
    · rw [parse_of_blank hblank] at hproblems
      cases hproblems
      simp
    · rw [parse_eq_finish hblank] at hproblems
      exact (Draft.finish_eq_error_iff.1 hproblems).2

/-- **A scan covers its text**: it stops at the end, its tokens leave out
nothing but blanks, and the syntax error stands for a blank line and for
nothing else. -/
theorem scan_covers_text (context : Context) (text : String) :
    (Scan.ofText text).stop = text.utf8ByteSize ∧
      Scan.Tiles 0 text.toList (Scan.ofText text).tokens ∧
      ((Scan.ofText text).tokens = [] ↔ Blank text.toList) ∧
      ((Scan.ofText text).covers text = true ↔ ∃ c ∈ text.toList, isBlank c = false) ∧
      (parse context text = .error [.syntaxError] ↔ Blank text.toList) ∧
      ∀ problems, parse context text = .error problems → .syntaxError ∈ problems →
        Blank text.toList := by
  have hsyntax (problems : List Diagnostic) (hproblems : parse context text = .error problems)
      (hmem : .syntaxError ∈ problems) : Blank text.toList := by
    by_cases hblank : Blank text.toList
    · exact hblank
    · rw [parse_eq_finish hblank] at hproblems
      exact absurd hmem (Draft.syntaxError_notMem_of_finish hproblems)
  have htokens : (Scan.ofText text).tokens = [] ↔ Blank text.toList :=
    Scan.tokens_ofChars_eq_nil_iff
  refine ⟨?_, Scan.tiles_ofChars text.toList, htokens, ?_, ⟨fun h => ?_, parse_of_blank⟩, hsyntax⟩
  · rw [Scan.ofText, Scan.ofChars_stop, width_toList]
  · rw [Scan.covers_ofText, Bool.not_eq_true', List.isEmpty_eq_false_iff, ne_eq, htokens]
    simp [Blank]
  · exact hsyntax _ h (by simp)

/-! ## What is wrong with a line -/

/-- **What is wrong with the pools of a line**, one by one and together, and
where this is said. -/
structure Blames (context : Context) (tokens : List Token) (problems : List Diagnostic) :
    Prop where
  /-- Each pool has faults of its own, which are reported pool by pool. -/
  pools : ∃ faults, List.Forall₂ context.PoolFaults (Draft.poolTokens tokens) faults ∧
    problems.filter (·.scope = .pool) = faults.flatten
  /-- It is said once if no pool is solvable, and once if the modules are too
  many, where those of rejected pools count as well. -/
  whole : problems.filter (·.scope = .whole) =
    (if ∃ pool ∈ Draft.poolTokens tokens, context.DrawsSolvable pool.list then []
      else [.noSolvableModules]) ++
    (if context.maxModules < Draft.moduleTotal tokens then
      [.tooManyModules (Draft.moduleTotal tokens) context.maxModules] else [])
  /-- What is wrong with all pools together comes last. -/
  last : problems = problems.filter (·.scope ≠ .whole) ++ problems.filter (·.scope = .whole)

/-- **A line that fails says all that is wrong with its pools.** No fault hides
another, and the faults of a pool hang on nothing but the pool and the
context. -/
theorem blames_of_parse_eq_error (hblank : ¬ Blank text.toList)
    (h : parse context text = .error problems) :
    Blames context (Scan.ofText text).tokens problems ∧
      ∀ pool, ∃! faults, context.PoolFaults pool faults := by
  rw [parse_eq_finish hblank] at h
  obtain ⟨rfl, -⟩ := Draft.finish_eq_error_iff.1 h
  generalize (Scan.ofText text).tokens = tokens
  have htotal : ∀ problem ∈ (Draft.ofTokens context tokens).totalProblems context,
      problem.scope = .whole := fun problem hmem => Draft.scope_of_mem_totalProblems hmem
  have htokens : ∀ problem ∈ (Draft.ofTokens context tokens).problems, problem.scope ≠ .whole := by
    intro problem hmem hwhole
    rcases Draft.scope_of_mem_problems hmem with hscope | hscope <;> simp [hscope] at hwhole
  -- so the scope tells which of the two parts a problem is in
  have hwhole : ((Draft.ofTokens context tokens).problems ++
      (Draft.ofTokens context tokens).totalProblems context).filter (·.scope = .whole) =
        (Draft.ofTokens context tokens).totalProblems context := by
    rw [List.filter_append, List.filter_eq_nil_iff.2 (by simpa using htokens),
      List.filter_eq_self.2 (by simpa using htotal), List.nil_append]
  have hrest : ((Draft.ofTokens context tokens).problems ++
      (Draft.ofTokens context tokens).totalProblems context).filter (·.scope ≠ .whole) =
        (Draft.ofTokens context tokens).problems := by
    rw [List.filter_append, List.filter_eq_self.2 (by simpa using htokens),
      List.filter_eq_nil_iff.2 (by simpa using htotal), List.append_nil]
  refine ⟨⟨⟨(Draft.poolTokens tokens).map (Draft.poolProblems context), ?_, ?_⟩, ?_, ?_⟩,
    fun pool => ⟨Draft.poolProblems context pool, Context.poolFaults_iff.2 rfl, ?_⟩⟩
  · rw [List.forall₂_map_right_iff, List.forall₂_same]
    exact fun pool _ => Context.poolFaults_iff.2 rfl
  · rw [List.filter_append, Draft.filter_pool_ofTokens, List.flatMap_def,
      List.filter_eq_nil_iff.2 fun problem hmem => by simp [htotal problem hmem], List.append_nil]
  · rw [hwhole, Draft.totalProblems_ofTokens]
  · rw [hwhole, hrest]
  · intro faults hfaults
    exact (Context.poolFaults_iff.1 hfaults).symm

/-- Three pools with a fault each, of which the first still counts as none and
the last as twelve. -/
theorem blames_of_parse_eq_error_three :
    parse {} "0*Bogus profile:Nope 12*NeedyKnob" = .error
        [.invalidPoolCount, .unknownModule "Bogus", .unknownProfile "Nope", .noSolvableModules,
          .tooManyModules 13 11] ∧
      Blames {} (Scan.ofText "0*Bogus profile:Nope 12*NeedyKnob").tokens
        [.invalidPoolCount, .unknownModule "Bogus", .unknownProfile "Nope", .noSolvableModules,
          .tooManyModules 13 11] := by
  have hblank : ¬ Blank "0*Bogus profile:Nope 12*NeedyKnob".toList := by
    intro hblank
    have hzero := hblank '0' (by decide)
    revert hzero
    decide
  have hparse : parse {} "0*Bogus profile:Nope 12*NeedyKnob" = .error
      [.invalidPoolCount, .unknownModule "Bogus", .unknownProfile "Nope", .noSolvableModules,
        .tooManyModules 13 11] := by
    decide +kernel
  exact ⟨hparse, (blames_of_parse_eq_error hblank hparse).1⟩

end Mission

end MissionText
