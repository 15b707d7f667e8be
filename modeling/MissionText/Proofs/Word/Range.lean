import MissionText.Proofs.Mission.RoundTrip
import MissionText.Word.Mission
/-!
# Words are wide enough

The fields of a time limit hold nine digits at most, and so does the count of a
pool. A line of fewer than 2³⁴ bytes has fewer pools than that, so a word holds
the seconds of every time limit and the modules of all pools together. The
limits that hold by default are only worked out for modules that fit into some
casing (`finish_eq`). So reading a line in words is reading it (`parse_eq`), and
so is writing a time limit (`timeFields_eq`).
-/

namespace MissionText

open Text

variable {context : Context} {draft : Draft} {token : Token} {tokens : List Token}
  {time : TimeToken} {pools : List Pool} {text : String} {kind : TokenKind}
  {start count n : Nat} {cs : List Char}

/-! ## One word of a line -/

/-- **A text that is one word** is scanned as the token that the word is. -/
theorem Reads.ofText_eq (h : Reads text kind) (hpool : ∀ pool, kind ≠ .pool pool) :
    Scan.ofText text = ⟨[⟨⟨0, text.utf8ByteSize⟩, kind⟩], text.utf8ByteSize⟩ := by
  have hpiece := h.word.toIsPiece
  have hlaid : Scan.Laid 0 ([] ++ (text.toList ++ [])) [Token.ofPiece (0 + width []) text.toList] :=
    .token nofun hpiece atBoundary_nil (.inl rfl) (.blank nofun)
  have htoken : Token.ofPiece 0 text.toList = ⟨⟨0, text.utf8ByteSize⟩, kind⟩ := by
    have hspan := hpiece.span_ofPiece 0
    have hgist := h.gist
    generalize Token.ofPiece 0 text.toList = token at hspan hgist
    obtain ⟨span, said⟩ := token
    cases said with
    | pool pool => exact absurd hgist.symm (hpool _)
    | _ =>
      rw [← width_toList, show span = ⟨0, width text.toList⟩ from hspan, ← hgist]
      rfl
  rw [List.nil_append, List.append_nil, width_nil, htoken] at hlaid
  rw [Scan.ofText, Scan.ofChars_eq_of_laid hlaid, width_toList]

/-- There are no more tokens than characters. -/
theorem Scan.Laid.length_le (h : Laid start cs tokens) : tokens.length ≤ cs.length := by
  induction h with
  | blank => exact Nat.zero_le _
  | token _ hpiece _ _ _ ih =>
    have := List.length_pos_iff.2 hpiece.ne_nil
    simp only [List.length_cons, List.length_append]
    omega

theorem Scan.length_tokens_ofText_le (text : String) :
    (ofText text).tokens.length ≤ text.utf8ByteSize := by
  have hchars := (laid_ofChars text.toList).length_le
  have hbytes := length_le_width text.toList
  rw [width_toList] at hbytes
  exact Nat.le_trans hchars hbytes

/-! ## What is written -/

/-- What a strike limit that fits into half a word is read as. -/
theorem strikesKind_eq_or (h : count < UInt32.size) :
    strikesKind count = .strikes count ∨ ∃ setting : SettingToken,
      strikesKind count = .setting setting ∧ setting.name = .strikes ∧
        setting.value?.bind Draft.settingNumber? = some count := by
  rw [strikesKind]
  split
  · exact .inl rfl
  · refine .inr ⟨_, rfl, rfl, ?_⟩
    rw [SettingToken.value?_mk (toString_ne_empty count), Option.bind_some]
    exact settingNumber?_toString h

namespace Word

/-- **A time limit that fields can express is written in fields**, and no step of
that leaves the range of a word. -/
theorem timeFields_eq (h : n ≤ fieldMax * 3661) : timeFields n = .ok (.ofTotal n) := by
  have hsize : UInt64.size = 18446744073709551616 := rfl
  have hmax : fieldMax = 999999999 := rfl
  rw [timeFields, TimeToken.ofTotal]
  generalize hhours : min (n / 3600) fieldMax = hours
  have hproduct : hours * 3600 ≤ n := by omega
  have hfits : hours * 3600 < UInt64.size := by omega
  simp only [product_of_lt hfits, difference_of_le hproduct, ok_bind]
  generalize n - hours * 3600 = rest
  generalize hminutes : min (rest / 60) fieldMax = minutes
  have hproduct' : minutes * 60 ≤ rest := by omega
  have hfits' : minutes * 60 < UInt64.size := by omega
  simp only [product_of_lt hfits', difference_of_le hproduct', ok_bind, pure_eq_ok]

/-! ## The seconds of a time limit -/

/-- The seconds of a time limit in fields fit. -/
theorem total_eq (h : time.InFields) : total time = .ok time.total := by
  have hhours := h.hours_le
  obtain ⟨-, hminutes, hseconds⟩ := h
  have hsize : UInt64.size = 18446744073709551616 := rfl
  have hmax : fieldMax = 999999999 := rfl
  rw [total, product_of_lt (by omega), ok_bind, product_of_lt (by omega), ok_bind,
    sum_of_lt (by omega), ok_bind, sum_of_lt (by omega), TimeToken.total]

/-- **Every token in fields is taken in.** -/
theorem add_eq (context : Context) (draft : Draft) (h : token.Bounded) :
    add context draft token = .ok (draft.add context token) := by
  obtain ⟨span, kind⟩ := token
  cases kind with
  | time time =>
    cases hlimit : draft.timeLimit with
    | none => simp only [add, hlimit, total_eq h, ok_bind, pure_eq_ok, Draft.add]
    | some limit => simp only [add, hlimit, pure_eq_ok, Draft.add, Draft.addTime]
  | _ => rfl

/-- **All tokens are taken in.** -/
theorem foldlM_add (context : Context) (draft : Draft) (h : ∀ token ∈ tokens, token.Bounded) :
    tokens.foldlM (add context) draft = .ok (tokens.foldl (Draft.add context) draft) := by
  induction tokens generalizing draft with
  | nil => rfl
  | cons token tokens ih =>
    obtain ⟨htoken, htokens⟩ := List.forall_mem_cons.1 h
    rw [List.foldlM_cons, add_eq context draft htoken, ok_bind, ih _ htokens, List.foldl_cons]

/-! ## The number of modules -/

/-- What is summed up from a start on fits if all of it does. -/
theorem foldlM_sum (h : start + Mission.countOf pools < UInt64.size) :
    pools.foldlM (fun total pool => sum total pool.count) start =
      .ok (start + Mission.countOf pools) := by
  induction pools generalizing start with
  | nil => rfl
  | cons pool pools ih =>
    have hcount : Mission.countOf (pool :: pools) = pool.count + Mission.countOf pools := rfl
    rw [hcount, ← Nat.add_assoc] at h ⊢
    rw [List.foldlM_cons, sum_of_lt (by omega), ok_bind, ih h]

theorem countOf_eq (h : Mission.countOf pools < UInt64.size) :
    countOf pools = .ok (Mission.countOf pools) := by
  rw [countOf, foldlM_sum (by rwa [Nat.zero_add]), Nat.zero_add]

end Word

/-- Pools in fields have nine digits of modules each. -/
theorem Draft.moduleTotal_le (h : ∀ token ∈ tokens, token.Bounded) :
    moduleTotal tokens ≤ tokens.length * fieldMax := by
  have hpools : ∀ pool ∈ poolTokens tokens, pool.count.getD 1 ≤ fieldMax :=
    fun pool hpool => poolCount_le h hpool
  have hlength : (poolTokens tokens).length ≤ tokens.length := List.length_filterMap_le ..
  refine Nat.le_trans ?_ (Nat.mul_le_mul_right _ hlength)
  rw [moduleTotal]
  generalize poolTokens tokens = pools at hpools
  induction pools with
  | nil => exact Nat.zero_le _
  | cons pool pools ih =>
    obtain ⟨hpool, hpools⟩ := List.forall_mem_cons.1 hpools
    have := ih hpools
    rw [List.foldr_cons, List.length_cons, Nat.succ_mul]
    omega

namespace Word

/-! ## Whole lines -/

/-- The strikes by default are one for every dozen of modules, if their number
fits into half a word. -/
theorem defaultStrikes_eq (h : count < UInt32.size) :
    Draft.defaultStrikes count = max 3 (count / 12) := by
  rw [Draft.defaultStrikes, settingBound, Nat.min_eq_left (by omega)]

/-- **A draft is finished** if the number of its modules fits. What holds by
default is only worked out for modules that fit into some casing. -/
theorem finish_eq (hcount : Mission.countOf draft.pools < UInt64.size)
    (hmax : context.maxModules < UInt32.size) :
    finish draft context = .ok (draft.finish context) := by
  rw [finish, countOf_eq hcount, ok_bind, Draft.finish, Draft.totalProblems]
  generalize Mission.countOf draft.pools = count
  extract_lets unsolvable tooMany
  generalize hproblems : draft.problems ++ (unsolvable ++ tooMany) = problems
  cases problems with
  | nil =>
    have hcapacity : count ≤ context.maxModules := by
      have htooMany := (List.append_eq_nil_iff.1 (List.append_eq_nil_iff.1 hproblems).2).2
      simpa [tooMany] using htooMany
    have hhalf : count < UInt32.size := Nat.lt_of_le_of_lt hcapacity hmax
    have hseconds : count * Draft.secondsPerModule < UInt64.size := by
      simp only [Draft.secondsPerModule, UInt32.size, UInt64.size] at *
      omega
    simp only [half_of_lt (show count / 12 < UInt32.size by omega), product_of_lt hseconds,
      ok_bind, pure_eq_ok]
    rw [← defaultStrikes_eq hhalf]
  | cons problem problems => rfl

/-- **A line that is not too long is read in words** as it is read otherwise. -/
theorem parse_eq (hbytes : text.utf8ByteSize < 2 ^ 34) (hmax : context.maxModules < UInt32.size) :
    parse context text = .ok (Mission.parse context text) := by
  have hbounded := Scan.bounded_ofText text
  have hcount : Mission.countOf (Draft.ofTokens context (Scan.ofText text).tokens).pools <
      UInt64.size := by
    have htotal := Draft.moduleTotal_le hbounded
    have hlength := Scan.length_tokens_ofText_le text
    rw [Draft.countOf_pools_ofTokens]
    simp only [fieldMax, UInt64.size] at htotal ⊢
    omega
  have htokens : (Scan.ofText text).tokens.foldlM (add context) {} =
      .ok (Draft.ofTokens context (Scan.ofText text).tokens) := foldlM_add context {} hbounded
  rw [parse, Mission.parse, Mission.read]
  simp only [htokens, ok_bind, finish_eq hcount hmax, pure_eq_ok]
  split <;> rfl

/-- **Nothing leaves its range.** Every time limit that fields can express is
written in fields without a step that overflows or goes below zero, and is read
back as one token of the same total. Every strike limit that half a word holds is
read back, as a field or as a setting. A line of fewer than 2³⁴ bytes is read
without a step that overflows, whatever is wrong with it, and if it is read as a
mission, then fields can express the time limit of that mission. A host says in
half a word how many modules there may be. -/
theorem arithmetic_in_range (hmax : context.maxModules < UInt32.size) :
    (∀ total ≤ fieldMax * 3661, ∃ time : TimeToken,
      timeFields total = .ok time ∧ time.InFields ∧ time.total = total ∧
      time.written = writtenTime total ∧
      Scan.ofText (writtenTime total) =
        ⟨[⟨⟨0, (writtenTime total).utf8ByteSize⟩, .time time⟩],
          (writtenTime total).utf8ByteSize⟩) ∧
    (∀ count < UInt32.size, ∃ kind,
      Scan.ofText (writtenStrikes count) =
        ⟨[⟨⟨0, (writtenStrikes count).utf8ByteSize⟩, kind⟩],
          (writtenStrikes count).utf8ByteSize⟩ ∧
      (kind = .strikes count ∨ ∃ setting : SettingToken, kind = .setting setting ∧
        setting.name = .strikes ∧ setting.value?.bind Draft.settingNumber? = some count)) ∧
    ∀ text : String, text.utf8ByteSize < 2 ^ 34 →
      parse context text = .ok (Mission.parse context text) ∧
      ∀ mission, Mission.parse context text = .ok mission →
        mission.timeLimit ≤ fieldMax * 3661 := by
  refine ⟨fun total htotal => ?_, fun count hcount => ?_, fun text hbytes => ⟨?_, ?_⟩⟩
  · have hin := TimeToken.inFields_ofTotal htotal
    have hwritten := TimeToken.written_ofTotal total
    exact ⟨.ofTotal total, timeFields_eq htotal, hin, TimeToken.total_ofTotal total, hwritten,
      (hwritten ▸ hin.reads).ofText_eq nofun⟩
  · have hkind := strikesKind_eq_or hcount
    have hpool : ∀ pool, strikesKind count ≠ .pool pool := by
      rcases hkind with hkind | ⟨setting, hkind, -⟩ <;> simp [hkind]
    exact ⟨strikesKind count, (reads_writtenStrikes count).ofText_eq hpool, hkind⟩
  · exact parse_eq hbytes hmax
  · intro mission hmission
    obtain ⟨haccept, hdescribes⟩ :=
      Draft.finish_ofTokens_eq_ok_iff.1 (Mission.parse_eq_ok_iff_finish.1 hmission)
    exact (Mission.timeLimit_of_describes (Scan.bounded_ofText text) haccept hdescribes
      hmax).2

/-- A time limit with as many hours as there can be, a strike limit that has to be
a setting, and a line in which both limits hold by default. -/
theorem arithmetic_in_range_vanilla :
    (∃ time : TimeToken, timeFields 3600000000060 = .ok time ∧ time.total = 3600000000060 ∧
      Scan.ofText "999999999:61:00" = ⟨[⟨⟨0, 15⟩, .time time⟩], 15⟩) ∧
    (∃ kind, Scan.ofText "strikes:4000000000" = ⟨[⟨⟨0, 18⟩, kind⟩], 18⟩ ∧
      (kind = .strikes 4000000000 ∨ ∃ setting : SettingToken, kind = .setting setting ∧
        setting.name = .strikes ∧
        setting.value?.bind Draft.settingNumber? = some 4000000000)) ∧
    parse {} "5*Wires" =
      .ok (.ok ⟨600, 3, true, false, none, none, none, [⟨5, .named ["Wires"]⟩]⟩) := by
  have hread : Mission.parse {} "5*Wires" =
      .ok ⟨600, 3, true, false, none, none, none, [⟨5, .named ["Wires"]⟩]⟩ := by decide +kernel
  have htime : writtenTime 3600000000060 = "999999999:61:00" := by decide +kernel
  have hstrikes : writtenStrikes 4000000000 = "strikes:4000000000" := by decide +kernel
  obtain ⟨htimes, hcounts, hlines⟩ :=
    arithmetic_in_range (show ({} : Context).maxModules < UInt32.size by decide)
  refine ⟨?_, ?_, ?_⟩
  · obtain ⟨time, hfields, -, htotal, -, hscan⟩ := htimes 3600000000060 (by decide)
    rw [htime] at hscan
    exact ⟨time, hfields, htotal, hscan⟩
  · obtain ⟨kind, hscan, hkind⟩ := hcounts 4000000000 (by decide)
    rw [hstrikes] at hscan
    exact ⟨kind, hscan, hkind⟩
  · rw [← hread]
    exact (hlines "5*Wires" (by decide)).1

end Word

end MissionText
