import MissionText.Proofs.Pool.Resolution
/-!
# Profiles — what a profile stands for in a catalog

A catalog that was put together by insertions holds one module to an
identifier, in order, so looking a member up by its identifier finds it
(`get?_of_mem`), and a profile stands for identifiers in order
(`ascending_resolve`). If the catalog leaves every component its kind, the
modules of a profile are named with the kind that was asked for
(`names_of_mem_resolve`).
-/

namespace MissionText

open Ordered

variable {catalog : Catalog} {known : BombModule} {profile : Profile} {kind : ModuleKind}
  {context : Context} {id : String}

theorem transCmp_idOrder : Std.TransCmp idOrder := inferInstanceAs (Std.TransCmp compare)

namespace Catalog

/-- The modules of a catalog are in order. -/
def Sorted (catalog : Catalog) : Prop := Ascending BombModule.order catalog.modules

theorem sorted_extend (h : Sorted catalog) (added : List BombModule) :
    Sorted (catalog.extend added) := by
  induction added generalizing catalog with
  | nil => exact h
  | cons known added ih => exact ih (ascending_insert h known)

/-- **A catalog that was put together by insertions is in order.** -/
theorem sorted_ofModules (added : List BombModule) : Sorted (ofModules added) :=
  sorted_extend (sorted_extend List.Pairwise.nil _) added

/-- The identifiers of a catalog are in order. -/
theorem Sorted.ids (h : Sorted catalog) : Ascending idOrder (catalog.modules.map (·.id)) :=
  List.pairwise_map.2 h

theorem find?_of_ascending {modules : List BombModule}
    (h : Ascending idOrder (modules.map (·.id))) (hmem : known ∈ modules) :
    modules.find? (·.id == known.id) = some known := by
  induction modules with
  | nil => cases hmem
  | cons first modules ih =>
    obtain ⟨hfirst, htail⟩ := List.pairwise_cons.1 h
    rcases List.mem_cons.1 hmem with rfl | hmem
    · simp
    · have hne : first.id ≠ known.id := by
        intro heq
        have hlt : idOrder first.id known.id = .lt := hfirst known.id (List.mem_map_of_mem hmem)
        have hself : compare known.id known.id = .eq := Std.ReflCmp.compare_self
        rw [heq, idOrder, hself] at hlt
        cases hlt
      rw [List.find?_cons_of_neg (by simpa using hne), ih htail hmem]

/-- **A member is found by its identifier.** -/
theorem get?_of_mem (h : Sorted catalog) (hmem : known ∈ catalog.modules) :
    catalog.get? known.id = some known :=
  find?_of_ascending h.ids hmem

theorem mem_of_get? (h : catalog.get? id = some known) :
    known ∈ catalog.modules ∧ known.id = id :=
  ⟨List.mem_of_find?_eq_some h, by simpa using List.find?_some h⟩

/-- A catalog knows nothing but what was inserted. -/
theorem mem_of_mem_extend {added : List BombModule} (h : known ∈ (catalog.extend added).modules) :
    known ∈ catalog.modules ∨ known ∈ added := by
  induction added generalizing catalog with
  | nil => exact .inl h
  | cons first added ih =>
    rcases ih h with hmem | hmem
    · rcases mem_of_mem_insert hmem with rfl | hmem
      · exact .inr List.mem_cons_self
      · exact .inl hmem
    · exact .inr (List.mem_cons_of_mem _ hmem)

theorem mem_of_mem_ofModules {added : List BombModule}
    (h : known ∈ (ofModules added).modules) :
    known ∈ added ∨ ∃ component : Component, component.asModule = known := by
  rcases mem_of_mem_extend h with hbase | hadded
  · rcases mem_of_mem_extend hbase with hnone | hcomponent
    · cases hnone
    · obtain ⟨component, -, heq⟩ := List.mem_map.1 hcomponent
      exact .inr ⟨component, heq⟩
  · exact .inl hadded

/-- What a profile stands for is enabled and of the kind that is asked for. -/
theorem exists_of_mem_resolve (h : id ∈ catalog.resolve profile kind) :
    ∃ known ∈ catalog.modules, known.id = id ∧ known.enabled = true ∧ known.kind = kind := by
  obtain ⟨hid, -⟩ := List.mem_filter.1 h
  obtain ⟨known, hknown, rfl⟩ := List.mem_map.1 hid
  obtain ⟨hmem, hfilter⟩ := List.mem_filter.1 hknown
  simp only [Bool.and_eq_true, beq_iff_eq] at hfilter
  exact ⟨known, hmem, rfl, hfilter.1, hfilter.2⟩

/-- **A profile stands for identifiers in order.** -/
theorem ascending_resolve (h : Sorted catalog) (profile : Profile) (kind : ModuleKind) :
    Ascending idOrder (catalog.resolve profile kind) := by
  have hsub : (catalog.resolve profile kind).Sublist (catalog.modules.map (·.id)) :=
    List.filter_sublist.trans (List.filter_sublist.map _)
  exact h.ids.sublist hsub

end Catalog

namespace Context

/-- An entry of the catalog for a component keeps the kind of the
component. -/
def KeepsKinds (context : Context) : Prop :=
  ∀ known ∈ context.catalog.modules, ∀ component : Component,
    component.id = known.id → known.kind = component.kind

/-- The kinds of components are kept if none of the added modules changes
one. -/
theorem keepsKinds_of_catalog {added : List BombModule}
    (hcatalog : context.catalog = Catalog.ofModules added)
    (h : ∀ known ∈ added, ∀ component : Component,
      component.id = known.id → known.kind = component.kind) : context.KeepsKinds := by
  intro known hknown component hid
  rw [hcatalog] at hknown
  rcases Catalog.mem_of_mem_ofModules hknown with hadded | ⟨other, rfl⟩
  · exact h known hadded component hid
  · have hfound : Component.ofId? component.id = some other := by
      rw [hid]
      exact Component.ofId?_id other
    rw [Component.ofId?_id, Option.some.injEq] at hfound
    rw [hfound]
    rfl

/-- **A module of a profile is named**, and with the kind that is asked for
where components keep their kinds. -/
theorem exists_names_of_mem_resolve (hsorted : context.catalog.Sorted)
    (h : id ∈ context.catalog.resolve profile kind) :
    ∃ named, context.Names id named ∧ (context.KeepsKinds → named = kind) := by
  obtain ⟨known, hmem, rfl, henabled, rfl⟩ := Catalog.exists_of_mem_resolve h
  by_cases hbase : ∀ component : Component, component.id ≠ known.id
  · have hknown := Catalog.get?_of_mem hsorted hmem
    exact ⟨known.kind, .known known hbase hknown henabled, fun _ => rfl⟩
  · push Not at hbase
    obtain ⟨component, hcomponent⟩ := hbase
    exact ⟨component.kind, .component component hcomponent,
      fun hkinds => (hkinds known hmem component hcomponent).symm⟩

theorem names_of_mem_resolve (hsorted : context.catalog.Sorted) (hkinds : context.KeepsKinds)
    (h : id ∈ context.catalog.resolve profile kind) : context.Names id kind := by
  obtain ⟨named, hnames, hkind⟩ := exists_names_of_mem_resolve hsorted h
  exact hkind hkinds ▸ hnames

/-- An identifier names a module of one kind only. -/
theorem Names.unique {other : ModuleKind} (h : context.Names id kind)
    (hother : context.Names id other) : kind = other := by
  have hkind := lookUp_eq_ok_iff.2 h
  rw [lookUp_eq_ok_iff.2 hother] at hkind
  exact (Except.ok.inj hkind).symm

end Context

end MissionText
