import MissionText.Completion.Suggestion
import MissionText.Proofs.Text.CommaList
/-!
# What is offered

Two facts about every candidate. Those for an identifier of a pool can all be
picked; the others mostly explain. And no identifier that is offered holds a
quote, unless one of the catalog or the name of a profile does (`Unquoted`),
since everything else that is put into it is made of letters, digits and signs.
-/

namespace MissionText

open Text

variable {context : Context} {candidate : Candidate} {pool : PoolToken} {setting : SettingToken}
  {entry : Entry} {typed : List Char} {token : Token} {before : List Char}

theorem isQuote_append {a b : String} (ha : ∀ c ∈ a.toList, isQuote c = false)
    (hb : ∀ c ∈ b.toList, isQuote c = false) : ∀ c ∈ (a ++ b).toList, isQuote c = false := by
  rw [String.toList_append]
  exact List.forall_mem_append.2 ⟨ha, hb⟩

namespace Context

/-- What is offered for a pool: what a number may become, or an entry. -/
theorem mem_suggestPool (h : candidate ∈ context.suggestPool pool) :
    candidate ∈ suggestNumber pool.stub ∨
      ∃ entry ∈ context.entries, candidateOf? pool.stub.toList entry = some candidate := by
  simp only [suggestPool, List.mem_append, List.mem_filterMap] at h
  rcases h with h | h
  · split at h
    · exact .inl h
    · cases h
  · exact .inr h

/-- The candidate for an entry has its identifier and can be picked. -/
theorem candidateOf?_spec (h : candidateOf? typed entry = some candidate) :
    candidate.id = entry.id ∧ candidate.selectable = true := by
  rw [candidateOf?] at h
  split at h
  · cases h
    exact ⟨rfl, rfl⟩
  · simp only [Option.map_eq_some_iff] at h
    obtain ⟨found, -, rfl⟩ := h
    exact ⟨rfl, rfl⟩

/-- **Every candidate for an identifier of a pool can be picked.** -/
theorem selectable_of_mem_suggestPool (h : candidate ∈ context.suggestPool pool) :
    candidate.selectable = true := by
  rcases mem_suggestPool h with hnumber | ⟨entry, -, hentry⟩
  · simp only [suggestNumber, List.mem_cons, List.not_mem_nil, or_false] at hnumber
    rcases hnumber with rfl | rfl | rfl <;> rfl
  · exact (candidateOf?_spec hentry).2

/-! ## Quotes -/

/-- **No identifier of the catalog and no name of a profile holds a quote.** -/
structure Unquoted (context : Context) : Prop where
  modules : ∀ known ∈ context.catalog.modules, ∀ c ∈ known.id.toList, isQuote c = false
  profiles : ∀ entry ∈ context.profiles.entries, ∀ c ∈ entry.1.toList, isQuote c = false

theorem unquoted_vanilla : ({} : Context).Unquoted := by
  have hall : Catalog.vanilla.modules.all (fun known => known.id.toList.all fun c => !isQuote c) =
      true := by
    decide +kernel
  exact ⟨fun known hknown => not_of_all (List.all_eq_true.1 hall known hknown), nofun⟩

/-- No entry for a category or a setting holds a quote. -/
theorem isQuote_fixed (factoryEnabled : Bool) :
    ∀ entry ∈ Category.all.map (fun category => ⟨category.id, category.displayName⟩) ++
      settingEntries factoryEnabled, ∀ c ∈ entry.id.toList, isQuote c = false := by
  have hall : (Category.all.map (fun category => (⟨category.id, category.displayName⟩ : Entry)) ++
      settingEntries factoryEnabled).all (fun entry => entry.id.toList.all fun c => !isQuote c) =
        true := by
    cases factoryEnabled <;> decide
  exact fun entry hentry => not_of_all (List.all_eq_true.1 hall entry hentry)

/-- The name of a profile gets a keyword before it. -/
theorem isQuote_profileEntry {name : String} (h : ∀ c ∈ name.toList, isQuote c = false)
    (kind : ModuleKind) : ∀ c ∈ (profileEntry name kind).id.toList, isQuote c = false := by
  cases kind with
  | solvable => exact isQuote_append (not_of_all (by decide)) h
  | needy => exact isQuote_append (not_of_all (by decide)) h

theorem Unquoted.entries (h : context.Unquoted) :
    ∀ entry ∈ context.entries, ∀ c ∈ entry.id.toList, isQuote c = false := by
  intro entry hentry
  have hmem := Ordered.mem_of_mem_ofList hentry
  rw [List.mem_append, List.append_assoc, List.mem_append, List.mem_map] at hmem
  rcases hmem with (⟨known, hknown, rfl⟩ | hfixed) | hprofile
  · exact h.modules known hknown
  · exact isQuote_fixed _ entry hfixed
  · simp only [profileEntries, List.mem_flatMap, List.mem_map] at hprofile
    obtain ⟨named, hnamed, kind, -, rfl⟩ := hprofile
    exact isQuote_profileEntry (h.profiles named hnamed) kind

/-- The stub of a pool has lost its quotes. -/
theorem isQuote_stub (pool : PoolToken) : ∀ c ∈ pool.stub.toList, isQuote c = false := by
  intro c hc
  rw [PoolToken.stub, String.toList_ofList, unquoted, List.mem_filter] at hc
  simpa using hc.2

theorem Unquoted.suggestPool (h : context.Unquoted) (hmem : candidate ∈ context.suggestPool pool) :
    ∀ c ∈ candidate.id.toList, isQuote c = false := by
  rcases mem_suggestPool hmem with hnumber | ⟨entry, hentry, hcandidate⟩
  · have hdigits := isQuote_stub pool
    simp only [suggestNumber, List.mem_cons, List.not_mem_nil, or_false] at hnumber
    rcases hnumber with rfl | rfl | rfl
    · exact isQuote_append hdigits (not_of_all (by decide))
    · exact isQuote_append hdigits (not_of_all (by decide))
    · exact isQuote_append hdigits (not_of_all (by decide))
  · rw [(candidateOf?_spec hcandidate).1]
    exact h.entries entry hentry

/-- What is offered for a setting and can be picked is a factory mode. -/
theorem isQuote_suggestSetting (hmem : candidate ∈ context.suggestSetting setting)
    (hpick : candidate.selectable = true) : ∀ c ∈ candidate.id.toList, isQuote c = false := by
  have hmode (mode : FactoryMode) : ∀ c ∈ ("factory:" ++ mode.id).toList, isQuote c = false := by
    cases mode <;> exact not_of_all (by decide)
  rw [suggestSetting] at hmem
  split at hmem
  · obtain rfl := List.mem_singleton.1 hmem
    cases hpick
  · split at hmem
    · obtain rfl := List.mem_singleton.1 hmem
      cases hpick
    · simp only [suggestModes, List.mem_filterMap, Option.map_eq_some_iff] at hmem
      obtain ⟨mode, -, found, -, rfl⟩ := hmem
      exact hmode mode

/-- **Nothing that can be picked holds a quote** where the catalog and the
profiles hold none. -/
theorem Unquoted.suggestAfter (h : context.Unquoted)
    (hmem : candidate ∈ context.suggestAfter before) (hpick : candidate.selectable = true) :
    ∀ c ∈ candidate.id.toList, isQuote c = false := by
  rw [Context.suggestAfter] at hmem
  split at hmem
  · cases hmem
  · split at hmem
    · obtain rfl := List.mem_singleton.1 hmem
      cases hpick
    · obtain rfl := List.mem_singleton.1 hmem
      cases hpick
    · exact isQuote_suggestSetting hmem hpick
    · exact h.suggestPool hmem

end Context

end MissionText
