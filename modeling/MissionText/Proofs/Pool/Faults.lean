import MissionText.Proofs.Pool.Resolution
/-!
# Faults — what is wrong with the list of a pool

The problems that the list of a pool causes, said without the functions that
find them. An identifier is rejected for one of two reasons (`Rejects`); a list
of identifiers is faulted once for each rejected one, in the order in which
they stand (`RejectsEach`); and any other list has one fault or none
(`Faults`). A list has the faults of its resolution and no others
(`faults_iff`), so it has them whatever stands around it.
-/

namespace MissionText

namespace Context

variable {context : Context} {list : List Char} {id : String} {ids : List String}
  {kind : ModuleKind} {problem : Diagnostic} {problems : List Diagnostic} {pool : PoolToken}

/-! ## Identifiers -/

/-- Why an identifier names no module. -/
inductive Rejects (context : Context) (id : String) : Diagnostic → Prop
  /-- There is no such component, nor such a module in the catalog. -/
  | unknown (hbase : ∀ component : Component, component.id ≠ id)
      (hknown : context.catalog.get? id = none) : Rejects context id (.unknownModule id)
  /-- There is no such component, and the module of the catalog is turned
  off. -/
  | disabled (known : BombModule) (hbase : ∀ component : Component, component.id ≠ id)
      (hknown : context.catalog.get? id = some known) (hdisabled : known.enabled = false) :
      Rejects context id (.disabledModule id)

/-- **An identifier is looked up in vain exactly if it is rejected.** -/
theorem lookUp_eq_error_iff : context.lookUp id = .error problem ↔ context.Rejects id problem := by
  rw [lookUp]
  constructor
  · intro h
    split at h
    · cases h
    · rename_i hbase
      have hbase := Component.ofId?_eq_none_iff.1 hbase
      split at h
      · rename_i hknown
        cases h
        exact .unknown hbase hknown
      · rename_i known hknown
        split at h
        · cases h
        · rename_i hdisabled
          cases h
          exact .disabled known hbase hknown (Bool.eq_false_iff.2 hdisabled)
  · rintro (⟨hbase, hknown⟩ | ⟨known, hbase, hknown, hdisabled⟩)
    · rw [Component.ofId?_eq_none_iff.2 hbase]
      simp [hknown]
    · rw [Component.ofId?_eq_none_iff.2 hbase]
      simp [hknown, hdisabled]

/-- What is wrong with some identifiers: the reason for each rejected one, in
the order in which they stand. -/
inductive RejectsEach (context : Context) : List String → List Diagnostic → Prop
  | nil : RejectsEach context [] []
  /-- A name causes nothing. -/
  | named {id : String} {ids : List String} {kind : ModuleKind} {problems : List Diagnostic}
      (hnames : context.Names id kind) (htail : RejectsEach context ids problems) :
      RejectsEach context (id :: ids) problems
  /-- An identifier that names nothing causes one problem, wherever it stands
  and however often. -/
  | rejected {id : String} {ids : List String} {problem : Diagnostic}
      {problems : List Diagnostic} (hrejects : context.Rejects id problem)
      (htail : RejectsEach context ids problems) :
      RejectsEach context (id :: ids) (problem :: problems)

theorem lookUpProblems_cons_ok (h : context.lookUp id = .ok kind) (ids : List String) :
    context.lookUpProblems (id :: ids) = context.lookUpProblems ids := by
  rw [lookUpProblems, List.filterMap_cons, h]
  rfl

theorem lookUpProblems_cons_error (h : context.lookUp id = .error problem) (ids : List String) :
    context.lookUpProblems (id :: ids) = problem :: context.lookUpProblems ids := by
  rw [lookUpProblems, List.filterMap_cons, h]
  rfl

/-- **The problems of some identifiers are those of the rejected ones.** -/
theorem rejectsEach_iff :
    context.RejectsEach ids problems ↔ context.lookUpProblems ids = problems := by
  constructor
  · intro h
    induction h with
    | nil => rfl
    | named hnames _ ih => rw [lookUpProblems_cons_ok (lookUp_eq_ok_iff.2 hnames), ih]
    | rejected hrejects _ ih =>
      rw [lookUpProblems_cons_error (lookUp_eq_error_iff.2 hrejects), ih]
  · rintro rfl
    induction ids with
    | nil => exact .nil
    | cons id ids ih =>
      cases hlook : context.lookUp id with
      | ok kind =>
        rw [lookUpProblems_cons_ok hlook]
        exact .named (lookUp_eq_ok_iff.1 hlook) ih
      | error problem =>
        rw [lookUpProblems_cons_error hlook]
        exact .rejected (lookUp_eq_error_iff.1 hlook) ih

/-! ## Lists -/

/-- What is wrong with a list. -/
inductive Faults (context : Context) (list : List Char) : List Diagnostic → Prop
  /-- Nothing, if it is the identifier of a category. -/
  | category (drawn : Category) (hlist : list = drawn.id.toList) : Faults context list []
  /-- Nothing, if it refers to a profile that leaves some modules enabled. -/
  | profile (kind : ModuleKind) (name : String) (profile : Profile)
      (hcategory : ∀ drawn : Category, list ≠ drawn.id.toList)
      (href : profileReference? list = some (kind, name))
      (hprofile : context.profiles.get? name = some profile)
      (hsome : context.catalog.resolve profile kind ≠ []) : Faults context list []
  /-- A profile that is not there, by the name in the reference. -/
  | unknownProfile (kind : ModuleKind) (name : String)
      (hcategory : ∀ drawn : Category, list ≠ drawn.id.toList)
      (href : profileReference? list = some (kind, name))
      (hprofile : context.profiles.get? name = none) : Faults context list [.unknownProfile name]
  /-- A profile that leaves no modules enabled, by the name in the
  reference. -/
  | emptyProfile (kind : ModuleKind) (name : String) (profile : Profile)
      (hcategory : ∀ drawn : Category, list ≠ drawn.id.toList)
      (href : profileReference? list = some (kind, name))
      (hprofile : context.profiles.get? name = some profile)
      (hnone : context.catalog.resolve profile kind = []) :
      Faults context list [.emptyProfile name]
  /-- The rejected identifiers, if it is a list of identifiers. -/
  | listed {problems : List Diagnostic} (hcategory : ∀ drawn : Category, list ≠ drawn.id.toList)
      (href : profileReference? list = none)
      (hrejects : context.RejectsEach (identifiersOf list) problems) :
      Faults context list problems

/-- What is wrong with a reference to a profile. -/
theorem faults_of_reference {name : String}
    (hcategory : ∀ drawn : Category, list ≠ drawn.id.toList)
    (href : profileReference? list = some (kind, name)) :
    context.Faults list (context.resolveProfile kind name).problems := by
  cases hprofile : context.profiles.get? name with
  | none =>
    rw [resolveProfile, hprofile]
    exact .unknownProfile kind name hcategory href hprofile
  | some profile =>
    rcases eq_or_ne (context.catalog.resolve profile kind) [] with hnone | hsome
    · simp only [resolveProfile, hprofile, hnone]
      exact .emptyProfile kind name profile hcategory href hprofile hnone
    · rw [resolveProfile_eq hprofile hsome]
      exact .profile kind name profile hcategory href hprofile hsome

/-- **A list has the faults of its resolution**, and no others. -/
theorem faults_iff :
    context.Faults list problems ↔ (context.resolveList list).problems = problems := by
  constructor
  · rintro (⟨drawn, rfl⟩ | ⟨kind, name, profile, hcategory, href, hprofile, hsome⟩ |
      ⟨kind, name, hcategory, href, hprofile⟩ |
      ⟨kind, name, profile, hcategory, href, hprofile, hnone⟩ | ⟨hcategory, href, hrejects⟩)
    · rw [resolveList_category]
    · rw [resolveList_reference hcategory href, resolveProfile_eq hprofile hsome]
    · rw [resolveList_reference hcategory href, resolveProfile, hprofile]
    · simp only [resolveList_reference hcategory href, resolveProfile, hprofile, hnone]
    · rw [resolveList_listed hcategory href, resolveIds_eq]
      exact rejectsEach_iff.1 hrejects
  · rintro rfl
    by_cases hcategory : ∀ drawn : Category, list ≠ drawn.id.toList
    · cases href : profileReference? list with
      | some reference =>
        obtain ⟨kind, name⟩ := reference
        rw [resolveList_reference hcategory href]
        exact faults_of_reference hcategory href
      | none =>
        rw [resolveList_listed hcategory href, resolveIds_eq]
        exact .listed hcategory href (rejectsEach_iff.2 rfl)
    · push Not at hcategory
      obtain ⟨drawn, rfl⟩ := hcategory
      rw [resolveList_category]
      exact .category drawn rfl

/-- **What is wrong with a pool**: a count of zero first, and then its list. -/
def PoolFaults (context : Context) (pool : PoolToken) (problems : List Diagnostic) : Prop :=
  ∃ faults, context.Faults pool.list faults ∧
    problems = (if pool.count = some 0 then [.invalidPoolCount] else []) ++ faults

theorem poolFaults_iff :
    context.PoolFaults pool problems ↔
      (if pool.count = some 0 then [.invalidPoolCount] else []) ++
        (context.resolvePool pool).problems = problems := by
  simp only [PoolFaults, faults_iff, resolvePool]
  constructor
  · rintro ⟨faults, rfl, rfl⟩
    rfl
  · rintro rfl
    exact ⟨_, rfl, rfl⟩

end Context

end MissionText
