import MissionText.Completion.Suggestion
import MissionText.Proofs.Completion.Offered
import MissionText.Proofs.Completion.Typed
import MissionText.Proofs.Text.Bytes
/-!
# What is listed for an identifier

Which entries the completion of an identifier lists, and in which order. What can
be completed at all is said without the order in which it is collected
(`Context.Offers`); an entry is listed exactly if it can be completed and its
identifier or its label begins with what is typed (`Begins`). Entries are kept
in the order of their bytes, which is how strings are compared (`bytes_lt_iff`),
and none of them is listed twice.
-/

namespace MissionText

open Text

variable {context : Context} {entry : Entry} {pool : PoolToken} {token : Token} {text : String}
  {cursor : Nat} {shown typed : List Char}

/-! ## What begins with what is typed -/

namespace Text

/-- **What is shown begins with what is typed**: it is no shorter, and its first
characters are the same in lowercase, one by one. -/
def Begins (shown typed : List Char) : Prop :=
  typed.length ≤ shown.length ∧ (shown.take typed.length).map lowercase = typed.map lowercase

/-- There is a match exactly if what is shown begins with what is typed. -/
theorem begins_iff : Begins shown typed ↔ ∃ found, matched? shown typed = some found := by
  simp only [matched?_eq_some_iff]
  constructor
  · rintro ⟨-, hlower⟩
    exact ⟨_, List.take_prefix _ _, hlower⟩
  · rintro ⟨found, hpre, hlower⟩
    have hlength : found.length = typed.length := by
      simpa using congrArg List.length hlower
    rw [Begins, ← hlength, ← List.prefix_iff_eq_take.1 hpre]
    exact ⟨hpre.length_le, hlower⟩

end Text

/-! ## The order of entries -/

namespace Entry

/-- An entry comes before another one in the order of bytes, first those of the
identifiers and then those of the labels. -/
def Before (a b : Entry) : Prop :=
  bytes a.id < bytes b.id ∨ a.id = b.id ∧ bytes a.label < bytes b.label

theorem order_eq_lt_iff {a b : Entry} : order a b = .lt ↔ Before a b := by
  simp only [order, compareLex, compareOn, Ordering.then_eq_lt, compare_lt_iff_lt,
    Std.compare_eq_iff_eq, Before, bytes_lt_iff]

instance : Std.TransCmp order :=
  inferInstanceAs (Std.TransCmp (compareLex (compareOn Entry.id) (compareOn Entry.label)))

/-- Only the same entry compares equal. -/
instance : Std.LawfulEqCmp order where
  eq_of_compare {a b} h := by
    simp only [order, compareLex, compareOn, Ordering.then_eq_eq, Std.compare_eq_iff_eq] at h
    cases a
    cases b
    cases h.1
    cases h.2
    rfl

end Entry

/-! ## What can be completed -/

/-- **What can be completed**: the modules of the catalog, whether they are
enabled or not, the categories, the settings, and each profile as far as it is
worth offering. A factory setting can be completed only where there is a
factory. A profile is worth offering for a kind of modules if it is an expert's,
or if it leaves out a module that the catalog knows to be of that kind. -/
inductive Context.Offers (context : Context) : Entry → Prop
  | known {known : BombModule} (h : known ∈ context.catalog.modules) :
    Offers context ⟨known.id, known.displayName⟩
  | category (category : Category) : Offers context ⟨category.id, category.displayName⟩
  | frontOnly : Offers context ⟨"frontonly", "[Front face only]"⟩
  | noPacing : Offers context ⟨"nopacing", "[Disable pacing events]"⟩
  | widgets : Offers context ⟨"widgets:", "[Set widget count]"⟩
  | delay : Offers context ⟨"needyactivationtime:", "[Set needy activation time in seconds]"⟩
  | factory (h : context.factoryEnabled = true) : Offers context ⟨"factory:", "[Set Factory mode]"⟩
  | expert {name : String} {profile : Profile} (h : (name, profile) ∈ context.profiles.entries)
    (hexpert : profile.kind = .expert) (kind : ModuleKind) : Offers context (profileEntry name kind)
  | defuser {name : String} {profile : Profile} (h : (name, profile) ∈ context.profiles.entries)
    {id : String} (hid : id ∈ profile.disabled) {known : BombModule}
    (hknown : context.catalog.get? id = some known) : Offers context (profileEntry name known.kind)

namespace Context

/-- The entries for profiles, each with what makes it worth offering. -/
theorem mem_profileEntries_iff : entry ∈ context.profileEntries ↔
    ∃ name profile kind, (name, profile) ∈ context.profiles.entries ∧
      (profile.kind = .expert ∨
        ∃ id ∈ profile.disabled, ∃ known, context.catalog.get? id = some known ∧
          known.kind = kind) ∧
      entry = profileEntry name kind := by
  have haffected {profile : Profile} {kind : ModuleKind} :
      context.catalog.isAffectedBy profile kind = true ↔ profile.kind = .expert ∨
        ∃ id ∈ profile.disabled, ∃ known, context.catalog.get? id = some known ∧
          known.kind = kind := by
    simp [Catalog.isAffectedBy, Option.any_eq_true]
  have hkind (kind : ModuleKind) : kind ∈ [ModuleKind.solvable, .needy] := by
    cases kind <;> decide
  simp only [profileEntries, List.mem_flatMap, List.mem_map, List.mem_filter, haffected]
  constructor
  · rintro ⟨⟨name, profile⟩, hmem, kind, ⟨-, haffects⟩, rfl⟩
    exact ⟨name, profile, kind, hmem, haffects, rfl⟩
  · rintro ⟨name, profile, kind, hmem, haffects, rfl⟩
    exact ⟨(name, profile), hmem, kind, ⟨hkind kind, haffects⟩, rfl⟩

/-- Every entry for a setting can be completed. -/
theorem offers_of_mem_settingEntries (h : entry ∈ settingEntries context.factoryEnabled) :
    context.Offers entry := by
  simp only [settingEntries, List.mem_append, List.mem_cons, List.not_mem_nil, or_false] at h
  rcases h with (rfl | rfl | rfl | rfl) | hfactory
  · exact .frontOnly
  · exact .noPacing
  · exact .widgets
  · exact .delay
  · split at hfactory
    · rename_i henabled
      obtain rfl := List.mem_singleton.1 hfactory
      exact .factory henabled
    · cases hfactory

/-- **The entries are what can be completed.** -/
theorem mem_entries_iff : entry ∈ context.entries ↔ context.Offers entry := by
  rw [entries, Ordered.mem_ofList]
  simp only [List.mem_append, List.mem_map, mem_profileEntries_iff]
  constructor
  · rintro (((⟨known, hknown, rfl⟩ | ⟨category, -, rfl⟩) | hsetting) |
      ⟨name, profile, kind, hprofile, hexpert | ⟨id, hid, known, hknown, rfl⟩, rfl⟩)
    · exact .known hknown
    · exact .category category
    · exact offers_of_mem_settingEntries hsetting
    · exact .expert hprofile hexpert kind
    · exact .defuser hprofile hid hknown
  · intro h
    cases h with
    | known hknown => exact .inl (.inl (.inl ⟨_, hknown, rfl⟩))
    | category category => exact .inl (.inl (.inr ⟨category, category.mem_all, rfl⟩))
    | frontOnly => exact .inl (.inr (by simp [settingEntries]))
    | noPacing => exact .inl (.inr (by simp [settingEntries]))
    | widgets => exact .inl (.inr (by simp [settingEntries]))
    | delay => exact .inl (.inr (by simp [settingEntries]))
    | factory henabled => exact .inl (.inr (by simp [settingEntries, henabled]))
    | expert hprofile hexpert kind => exact .inr ⟨_, _, kind, hprofile, .inl hexpert, rfl⟩
    | defuser hprofile hid hknown =>
      exact .inr ⟨_, _, _, hprofile, .inr ⟨_, hid, _, hknown, rfl⟩, rfl⟩

end Context

/-! ## The list -/

/-- The entry that a candidate stands for. -/
def Candidate.toEntry (candidate : Candidate) : Entry := ⟨candidate.id, candidate.label⟩

/-- A candidate stands for the entry it was made for. -/
theorem entry_of_candidateOf? {candidate : Candidate}
    (h : candidateOf? typed entry = some candidate) : candidate.toEntry = entry := by
  rw [candidateOf?] at h
  split at h
  · cases h
    rfl
  · simp only [Option.map_eq_some_iff] at h
    obtain ⟨found, -, rfl⟩ := h
    rfl

/-- There is a candidate for an entry exactly if its identifier or its label begins
with what is typed. -/
theorem exists_candidateOf?_iff : (∃ candidate, candidateOf? typed entry = some candidate) ↔
    Begins entry.id.toList typed ∨ Begins entry.label.toList typed := by
  rw [begins_iff, begins_iff, candidateOf?]
  cases matched? entry.id.toList typed <;> simp

/-- **An entry is listed** exactly if it can be completed and begins with what is
typed. -/
theorem mem_listed_iff :
    entry ∈ (context.entries.filterMap (candidateOf? typed)).map Candidate.toEntry ↔
      context.Offers entry ∧ (Begins entry.id.toList typed ∨ Begins entry.label.toList typed) := by
  simp only [List.mem_map, List.mem_filterMap, Context.mem_entries_iff, ← exists_candidateOf?_iff]
  constructor
  · rintro ⟨candidate, ⟨other, hoffers, hcandidate⟩, rfl⟩
    rw [entry_of_candidateOf? hcandidate]
    exact ⟨hoffers, candidate, hcandidate⟩
  · rintro ⟨hoffers, candidate, hcandidate⟩
    exact ⟨candidate, ⟨entry, hoffers, hcandidate⟩, entry_of_candidateOf? hcandidate⟩

/-- Entries are listed in strictly ascending order. -/
theorem pairwise_listed (context : Context) (typed : List Char) :
    ((context.entries.filterMap (candidateOf? typed)).map Candidate.toEntry).Pairwise
      Entry.Before := by
  have hascending : Ordered.Ascending Entry.order context.entries := Ordered.pairwise_ofList _
  rw [List.pairwise_map, List.pairwise_filterMap]
  refine hascending.imp fun {a b} hab candidate hcandidate other hother => ?_
  rw [entry_of_candidateOf? hcandidate, entry_of_candidateOf? hother]
  exact Entry.order_eq_lt_iff.1 hab

/-- **What is listed while an identifier is being typed.** If it is a number so
far, and has no count before it, what the number may become comes first. All
others can be picked and are in strictly ascending order. They stand for the
entries that can be completed and begin with what is typed, by identifier or by
label, and so an entry is listed for every beginning of its identifier, in
whatever case it is typed. -/
theorem identifier_suggestions (context : Context)
    (htoken : inProgress? (cut text.toList cursor).1 = some token)
    (hkind : token.kind = .pool pool) :
    ∃ listed : List Candidate,
      context.suggest text cursor =
        (if pool.count.isNone && pool.idList.toList.all Char.isDigit then
          suggestNumber pool.stub else []) ++ listed ∧
      (∀ candidate ∈ listed, candidate.selectable = true) ∧
      (listed.map Candidate.toEntry).Pairwise Entry.Before ∧
      (∀ entry, entry ∈ listed.map Candidate.toEntry ↔ context.Offers entry ∧
        (Begins entry.id.toList pool.stub.toList ∨ Begins entry.label.toList pool.stub.toList)) ∧
      ∀ entry, context.Offers entry → ∀ beginning, beginning <+: entry.id.toList →
        pool.stub.toList.map lowercase = beginning.map lowercase →
        entry ∈ listed.map Candidate.toEntry := by
  refine ⟨context.entries.filterMap (candidateOf? pool.stub.toList), ?_, ?_,
    pairwise_listed context _, fun entry => mem_listed_iff, ?_⟩
  · rw [Context.suggest, Context.suggestAfter, htoken]
    simp only [hkind, Context.suggestPool, isNumber_eq htoken hkind]
  · intro candidate hcandidate
    obtain ⟨entry, -, hentry⟩ := List.mem_filterMap.1 hcandidate
    exact (Context.candidateOf?_spec hentry).2
  · intro entry hoffers beginning hpre hlower
    refine mem_listed_iff.2 ⟨hoffers, .inl (begins_iff.2 ⟨beginning, ?_⟩)⟩
    exact matched?_eq_some_iff.2 ⟨hpre, hlower.symm⟩

/-- A context with a module whose identifier begins with a number. -/
def numberedContext : Context where
  catalog := .ofModules [⟨"12Wires", "Twelve Wires", .solvable, true⟩]

/-- The beginning of an identifier in another case, after a count, and a number
without one, which may become three things or the identifier of a module. -/
theorem identifier_suggestions_wires :
    inProgress? (cut "2*wIR 4X".toList 5).1 = some ⟨⟨0, 5⟩, .pool ⟨some 2, "wIR", 2⟩⟩ ∧
      ((({} : Context).suggest "2*wIR 4X" 5).map Candidate.toEntry).Pairwise Entry.Before ∧
      ⟨"Wires", "Wires"⟩ ∈ (({} : Context).suggest "2*wIR 4X" 5).map Candidate.toEntry ∧
      inProgress? (cut "12 4X".toList 2).1 = some ⟨⟨0, 2⟩, .pool ⟨none, "12", 0⟩⟩ ∧
      ∃ listed : List Candidate,
        numberedContext.suggest "12 4X" 2 =
          [.byId "12:00" "[Set time]" 2, .byId "12X" "[Set strike limit]" 2,
            .byId "12*" "[Set module pool count]" 2] ++ listed ∧
        (listed.map Candidate.toEntry).Pairwise Entry.Before ∧
        ⟨"12Wires", "Twelve Wires"⟩ ∈ listed.map Candidate.toEntry := by
  have htoken : inProgress? (cut "2*wIR 4X".toList 5).1 =
      some ⟨⟨0, 5⟩, .pool ⟨some 2, "wIR", 2⟩⟩ := by
    decide +kernel
  have hnumber : inProgress? (cut "12 4X".toList 2).1 =
      some ⟨⟨0, 2⟩, .pool ⟨none, "12", 0⟩⟩ := by
    decide +kernel
  have hoffers : ({} : Context).Offers ⟨"Wires", "Wires"⟩ := by
    rw [← Context.mem_entries_iff]
    decide +kernel
  have hnumbered : numberedContext.Offers ⟨"12Wires", "Twelve Wires"⟩ := by
    rw [← Context.mem_entries_iff]
    decide +kernel
  refine ⟨htoken, ?_⟩
  obtain ⟨listed, hsuggest, -, hordered, -, hbeginning⟩ := identifier_suggestions {} htoken rfl
  rw [if_neg (by simp), List.nil_append] at hsuggest
  rw [hsuggest]
  refine ⟨hordered, hbeginning _ hoffers "Wir".toList (by decide) (by decide), hnumber, ?_⟩
  obtain ⟨listed, hsuggest, -, hordered, -, hbeginning⟩ :=
    identifier_suggestions numberedContext hnumber rfl
  exact ⟨listed, hsuggest, hordered, hbeginning _ hnumbered "12".toList (by decide) (by decide)⟩

end MissionText
