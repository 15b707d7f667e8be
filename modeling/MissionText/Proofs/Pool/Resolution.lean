import Mathlib.Tactic.Push
import MissionText.Mission.Pool
/-!
# Resolutions — what the list of a pool stands for

The rules by which the list of a pool is resolved, said without the functions
that do it. A list that is the identifier of a category stands for the
category; a list that refers to a profile stands for what the profile leaves
enabled; any other list stands for the modules it names, all of which must be
there and enabled. `Draws` is the relation between a list and what it stands
for, and `DrawsSolvable` says of a list that only modules to be solved are
drawn from it. A resolution without problems is exactly what `Draws` says
(`draws_iff`), and its mark is exactly what `DrawsSolvable` says
(`drawsSolvable_iff`).
-/

namespace MissionText

/-! ## Identifiers -/

theorem Component.ofId?_eq_none_iff {id : String} :
    ofId? id = none ↔ ∀ component : Component, component.id ≠ id := by
  rw [ofId?, List.find?_eq_none]
  constructor
  · intro h component hid
    exact h component (mem_all component) (by simpa using hid)
  · intro h component _ hid
    exact h component (by simpa using hid)

theorem Category.ofId?_eq_none_iff {list : List Char} :
    ofId? (String.ofList list) = none ↔ ∀ drawn : Category, list ≠ drawn.id.toList := by
  rw [ofId?, List.find?_eq_none]
  constructor
  · rintro h drawn rfl
    exact h drawn (mem_all drawn) (by simp)
  · intro h drawn _ hid
    refine h drawn ?_
    rw [show drawn.id = String.ofList list by simpa using hid, String.toList_ofList]

namespace Context

variable {context : Context} {list : List Char} {id : String} {kind : ModuleKind}

/-- The kind of the module that an identifier names. -/
inductive Names (context : Context) (id : String) : ModuleKind → Prop
  /-- A component of the base game, whatever the catalog says about it. -/
  | component (component : Component) (hid : component.id = id) :
      Names context id component.kind
  /-- Any other module of the catalog, if it is enabled. -/
  | known (known : BombModule) (hbase : ∀ component : Component, component.id ≠ id)
      (hknown : context.catalog.get? id = some known) (henabled : known.enabled = true) :
      Names context id known.kind

/-- **A module is found exactly if it is named.** -/
theorem lookUp_eq_ok_iff : context.lookUp id = .ok kind ↔ context.Names id kind := by
  rw [lookUp]
  constructor
  · intro h
    split at h
    · rename_i component hid
      cases h
      exact .component component (Component.id_of_ofId? hid)
    · rename_i hbase
      split at h
      · cases h
      · rename_i known hknown
        split at h
        · rename_i henabled
          cases h
          exact .known known (Component.ofId?_eq_none_iff.1 hbase) hknown henabled
        · cases h
  · rintro (⟨component, rfl⟩ | ⟨known, hbase, hknown, henabled⟩)
    · rw [Component.ofId?_id]
    · simp [Component.ofId?_eq_none_iff.2 hbase, hknown, henabled]

/-! ## Lists -/

/-- What a list stands for. -/
inductive Draws (context : Context) (list : List Char) : Contents → Prop
  /-- The identifier of a category. -/
  | category (drawn : Category) (hlist : list = drawn.id.toList) :
      Draws context list (.category drawn)
  /-- A reference to a known profile that leaves some modules enabled. -/
  | profile (kind : ModuleKind) (name : String) (profile : Profile)
      (hcategory : ∀ drawn : Category, list ≠ drawn.id.toList)
      (href : profileReference? list = some (kind, name))
      (hprofile : context.profiles.get? name = some profile)
      (hsome : context.catalog.resolve profile kind ≠ []) :
      Draws context list (.named (context.catalog.resolve profile kind))
  /-- A list of identifiers, each of which names a module. -/
  | listed (hcategory : ∀ drawn : Category, list ≠ drawn.id.toList)
      (href : profileReference? list = none)
      (hnames : ∀ id ∈ identifiersOf list, ∃ kind, context.Names id kind) :
      Draws context list (.named (Ordered.ofList idOrder (identifiersOf list)))

/-- Whether only modules to be solved can be drawn from a list. -/
inductive DrawsSolvable (context : Context) (list : List Char) : Prop
  /-- A category of such modules. -/
  | category (drawn : Category) (hlist : list = drawn.id.toList)
      (hkind : drawn.kind = .solvable) : DrawsSolvable context list
  /-- A reference to a profile for such modules, if it leaves any enabled. -/
  | profile (name : String) (profile : Profile)
      (hcategory : ∀ drawn : Category, list ≠ drawn.id.toList)
      (href : profileReference? list = some (.solvable, name))
      (hprofile : context.profiles.get? name = some profile)
      (hsome : context.catalog.resolve profile .solvable ≠ []) : DrawsSolvable context list
  /-- A list of identifiers, some of which name modules and none of which
  names a needy one. -/
  | listed (hcategory : ∀ drawn : Category, list ≠ drawn.id.toList)
      (href : profileReference? list = none)
      (hsome : ∃ id ∈ identifiersOf list, ∃ kind, context.Names id kind)
      (hneedy : ∀ id ∈ identifiersOf list, ¬ context.Names id .needy) :
      DrawsSolvable context list

/-! ## The three ways to resolve a list -/

theorem resolveList_category (context : Context) (drawn : Category) :
    context.resolveList drawn.id.toList = ⟨.category drawn, [], drawn.kind == .solvable⟩ := by
  rw [resolveList, String.ofList_toList, Category.ofId?_id]

theorem resolveList_reference {name : String}
    (hcategory : ∀ drawn : Category, list ≠ drawn.id.toList)
    (href : profileReference? list = some (kind, name)) :
    context.resolveList list = context.resolveProfile kind name := by
  rw [resolveList, Category.ofId?_eq_none_iff.2 hcategory, href]

theorem resolveList_listed (hcategory : ∀ drawn : Category, list ≠ drawn.id.toList)
    (href : profileReference? list = none) :
    context.resolveList list = context.resolveIds (identifiersOf list) := by
  rw [resolveList, Category.ofId?_eq_none_iff.2 hcategory, href]

theorem resolveProfile_eq {name : String} {profile : Profile}
    (hprofile : context.profiles.get? name = some profile)
    (hsome : context.catalog.resolve profile kind ≠ []) :
    context.resolveProfile kind name =
      ⟨.named (context.catalog.resolve profile kind), [], kind == .solvable⟩ := by
  obtain ⟨id, ids, hids⟩ := List.exists_cons_of_ne_nil hsome
  simp [resolveProfile, hprofile, hids]

/-- A reference to a profile has no problems only if the profile is known and
leaves some modules enabled. -/
theorem exists_profile {name : String} (h : (context.resolveProfile kind name).problems = []) :
    ∃ profile, context.profiles.get? name = some profile ∧
      context.catalog.resolve profile kind ≠ [] := by
  rw [resolveProfile] at h
  split at h
  · cases h
  · rename_i profile hprofile
    refine ⟨profile, hprofile, fun hempty => ?_⟩
    rw [hempty] at h
    cases h

/-- A list with problems in its profile is not solvable. -/
theorem problems_of_solvable {name : String}
    (h : (context.resolveProfile kind name).solvable = true) :
    (context.resolveProfile kind name).problems = [] := by
  rw [resolveProfile] at h ⊢
  cases hprofile : context.profiles.get? name with
  | none => simp [hprofile] at h
  | some profile =>
    cases hids : context.catalog.resolve profile kind with
    | nil => simp [hprofile, hids] at h
    | cons id ids => simp [hids]

/-! ## Identifier by identifier -/

/-- The modules that are found by some identifiers. -/
def found (context : Context) (ids : List String) : List (String × ModuleKind) :=
  ids.filterMap fun id => (context.lookUp id).toOption.map fun kind => (id, kind)

/-- What is wrong with some identifiers. -/
def lookUpProblems (context : Context) (ids : List String) : List Diagnostic :=
  ids.filterMap fun id => match context.lookUp id with
    | .error problem => some problem
    | .ok _ => none

theorem resolveIds_eq (context : Context) (ids : List String) :
    context.resolveIds ids =
      { contents := .named (Ordered.ofList idOrder ((context.found ids).map (·.1)))
        problems := context.lookUpProblems ids
        solvable := !(context.found ids).isEmpty &&
          (context.found ids).all fun (_, kind) => kind == .solvable } := by
  simp only [resolveIds, found, lookUpProblems, List.filterMap_map]
  rfl

theorem mem_found {ids : List String} :
    (id, kind) ∈ context.found ids ↔ id ∈ ids ∧ context.Names id kind := by
  rw [← lookUp_eq_ok_iff, found, List.mem_filterMap]
  constructor
  · rintro ⟨other, hid, h⟩
    cases hlook : context.lookUp other with
    | ok kind' =>
      rw [hlook] at h
      cases h
      exact ⟨hid, hlook⟩
    | error problem =>
      rw [hlook] at h
      cases h
  · rintro ⟨hid, h⟩
    exact ⟨id, hid, by rw [h]; rfl⟩

/-- Where all identifiers name modules, all of them are found. -/
theorem found_map_fst {ids : List String}
    (h : ∀ id ∈ ids, ∃ kind, context.Names id kind) : (context.found ids).map (·.1) = ids := by
  induction ids with
  | nil => rfl
  | cons id ids ih =>
    obtain ⟨kind, hkind⟩ := h id List.mem_cons_self
    have htail := ih fun other hother => h other (List.mem_cons_of_mem _ hother)
    rw [found] at htail ⊢
    rw [List.filterMap_cons, lookUp_eq_ok_iff.2 hkind]
    simpa [Except.toOption] using htail

/-- **A list of identifiers has no problems if all of them name modules.** -/
theorem lookUpProblems_eq_nil_iff {ids : List String} :
    context.lookUpProblems ids = [] ↔ ∀ id ∈ ids, ∃ kind, context.Names id kind := by
  rw [lookUpProblems, List.filterMap_eq_nil_iff]
  refine forall₂_congr fun id _ => ?_
  cases h : context.lookUp id with
  | ok kind => simpa using ⟨kind, lookUp_eq_ok_iff.1 h⟩
  | error problem =>
    simp only [reduceCtorEq, false_iff, not_exists]
    intro kind hkind
    rw [lookUp_eq_ok_iff.2 hkind] at h
    cases h

/-- **A list of identifiers is solvable if it names modules and no needy
one.** -/
theorem resolveIds_solvable_iff {ids : List String} :
    (context.resolveIds ids).solvable = true ↔
      (∃ id ∈ ids, ∃ kind, context.Names id kind) ∧ ∀ id ∈ ids, ¬ context.Names id .needy := by
  rw [resolveIds_eq]
  simp only [Bool.and_eq_true, Bool.not_eq_true', List.isEmpty_eq_false_iff, List.all_eq_true,
    beq_iff_eq]
  refine and_congr ⟨fun hne => ?_, ?_⟩ ⟨fun hall id hid hneedy => ?_, fun hneedy found hfound => ?_⟩
  · obtain ⟨⟨id, kind⟩, hmem⟩ := List.exists_mem_of_ne_nil _ hne
    obtain ⟨hid, hkind⟩ := mem_found.1 hmem
    exact ⟨id, hid, kind, hkind⟩
  · rintro ⟨id, hid, kind, hkind⟩
    exact List.ne_nil_of_mem (mem_found.2 ⟨hid, hkind⟩)
  · cases hall (id, .needy) (mem_found.2 ⟨hid, hneedy⟩)
  · obtain ⟨id, kind⟩ := found
    obtain ⟨hid, hkind⟩ := mem_found.1 hfound
    cases kind with
    | solvable => rfl
    | needy => exact absurd hkind (hneedy id hid)

/-! ## The resolution of a list -/

/-- **A list is resolved without problems to what it stands for**, and only if
it stands for something. -/
theorem draws_iff {contents : Contents} :
    context.Draws list contents ↔
      (context.resolveList list).problems = [] ∧
        (context.resolveList list).contents = contents := by
  constructor
  · rintro (⟨drawn, rfl⟩ | ⟨kind, name, profile, hcategory, href, hprofile, hsome⟩ |
      ⟨hcategory, href, hnames⟩)
    · rw [resolveList_category]
      exact ⟨rfl, rfl⟩
    · rw [resolveList_reference hcategory href, resolveProfile_eq hprofile hsome]
      exact ⟨rfl, rfl⟩
    · rw [resolveList_listed hcategory href, resolveIds_eq, found_map_fst hnames]
      exact ⟨lookUpProblems_eq_nil_iff.2 hnames, rfl⟩
  · rintro ⟨hproblems, rfl⟩
    by_cases hcategory : ∀ drawn : Category, list ≠ drawn.id.toList
    · cases href : profileReference? list with
      | some reference =>
        obtain ⟨kind, name⟩ := reference
        rw [resolveList_reference hcategory href] at hproblems ⊢
        obtain ⟨profile, hprofile, hsome⟩ := exists_profile hproblems
        rw [resolveProfile_eq hprofile hsome]
        exact .profile kind name profile hcategory href hprofile hsome
      | none =>
        rw [resolveList_listed hcategory href, resolveIds_eq] at hproblems ⊢
        have hnames := lookUpProblems_eq_nil_iff.1 hproblems
        rw [found_map_fst hnames]
        exact .listed hcategory href hnames
    · push Not at hcategory
      obtain ⟨drawn, rfl⟩ := hcategory
      rw [resolveList_category]
      exact .category drawn rfl

theorem problems_eq_nil_iff :
    (context.resolveList list).problems = [] ↔ ∃ contents, context.Draws list contents := by
  simp [draws_iff]

/-- **A list is marked as solvable exactly if it is.** -/
theorem drawsSolvable_iff :
    context.DrawsSolvable list ↔ (context.resolveList list).solvable = true := by
  constructor
  · rintro (⟨drawn, rfl, hkind⟩ | ⟨name, profile, hcategory, href, hprofile, hsome⟩ |
      ⟨hcategory, href, hsome, hneedy⟩)
    · rw [resolveList_category, hkind]
      rfl
    · rw [resolveList_reference hcategory href, resolveProfile_eq hprofile hsome]
      rfl
    · rw [resolveList_listed hcategory href, resolveIds_solvable_iff]
      exact ⟨hsome, hneedy⟩
  · intro hsolvable
    by_cases hcategory : ∀ drawn : Category, list ≠ drawn.id.toList
    · cases href : profileReference? list with
      | some reference =>
        obtain ⟨kind, name⟩ := reference
        rw [resolveList_reference hcategory href] at hsolvable
        obtain ⟨profile, hprofile, hsome⟩ := exists_profile (problems_of_solvable hsolvable)
        rw [resolveProfile_eq hprofile hsome] at hsolvable
        obtain rfl : kind = .solvable := by simpa using hsolvable
        exact .profile name profile hcategory href hprofile hsome
      | none =>
        rw [resolveList_listed hcategory href, resolveIds_solvable_iff] at hsolvable
        exact .listed hcategory href hsolvable.1 hsolvable.2
    · push Not at hcategory
      obtain ⟨drawn, rfl⟩ := hcategory
      rw [resolveList_category] at hsolvable
      exact .category drawn rfl (by simpa using hsolvable)

end Context

end MissionText
