import MissionText.Proofs.Ordered.Keyed
import MissionText.Proofs.Pool.Profile
import MissionText.Proofs.Text.Bytes
/-!
# The store of modules

A catalog is what was inserted into the vanilla one, whatever the order of the
identifiers and however often one of them was inserted: the last module with an
identifier is the one that is known by it (`get?_extend`), and a component of
the base game is known at least as the vanilla catalog knows it. A profile then
splits what is known, enabled and not left out by what each module is now, into
modules to be solved and modules to be kept quiet (`mem_resolve_iff`).
-/

namespace MissionText

open Ordered Text

variable {catalog : Catalog} {profile other : Profile} {kind : ModuleKind} {id : String}

/-- The order of identifiers is that of their bytes. -/
theorem idOrder_eq_lt_iff {a b : String} : idOrder a b = .lt ↔ bytes a < bytes b := by
  rw [idOrder, compare_lt_iff_lt, bytes_lt_iff]

namespace Catalog

/-! ## What is known -/

/-- **The last module inserted with an identifier** is known by it. -/
theorem get?_extend (catalog : Catalog) (added : List BombModule) (id : String) :
    (catalog.extend added).get? id =
      (added.reverse.find? (·.id == id)).or (catalog.get? id) := by
  have hmodules : (catalog.extend added).modules =
      added.foldl (fun held known => Ordered.insert BombModule.order known held)
        catalog.modules :=
    (List.foldl_hom modules fun _ _ => rfl).symm
  rw [get?, hmodules]
  exact find?_foldl_insert BombModule.id added catalog.modules id

/-- **The vanilla catalog** knows the components, each by its identifier. -/
theorem get?_vanilla (id : String) :
    vanilla.get? id = (Component.ofId? id).map Component.asModule := by
  cases hid : Component.ofId? id with
  | some component =>
    rw [← Component.id_of_ofId? hid]
    cases component <;> decide
  | none =>
    have hnone : ∀ component ∈ Component.all, component.id ≠ id := by
      simpa [Component.ofId?] using hid
    rw [vanilla, get?_extend, Option.map_none, Option.or_eq_none_iff]
    refine ⟨List.find?_eq_none.2 fun known hknown => ?_, rfl⟩
    obtain ⟨component, hcomponent, rfl⟩ := List.mem_map.1 (List.mem_reverse.1 hknown)
    simpa [Component.asModule] using hnone component hcomponent

/-! ## What a profile stands for -/

/-- **An identifier that a profile stands for** is that of a known module which
is enabled and not left out, and of the kind that is asked for. -/
theorem mem_resolve_iff (h : Sorted catalog) : id ∈ catalog.resolve profile kind ↔
    ∃ known, catalog.get? id = some known ∧ known.enabled = true ∧ known.kind = kind ∧
      id ∉ profile.disabled := by
  constructor
  · intro hid
    obtain ⟨known, hknown, rfl, henabled, hkind⟩ := exists_of_mem_resolve hid
    have hkept := (List.mem_filter.1 hid).2
    exact ⟨known, get?_of_mem h hknown, henabled, hkind, by simpa using hkept⟩
  · rintro ⟨known, hknown, henabled, rfl, hkept⟩
    obtain ⟨hmem, rfl⟩ := mem_of_get? hknown
    have hlisted : known ∈ catalog.modules.filter
        fun other => other.enabled && other.kind == known.kind := by
      simp [hmem, henabled]
    exact List.mem_filter.2 ⟨List.mem_map_of_mem hlisted, by simpa using hkept⟩

/-- **Only known modules can be left out**: profiles that leave out the same of
them stand for the same. -/
theorem resolve_congr (hsorted : Sorted catalog) (h : ∀ id, (catalog.get? id).isSome →
    (id ∈ profile.disabled ↔ id ∈ other.disabled)) (kind : ModuleKind) :
    catalog.resolve profile kind = catalog.resolve other kind := by
  refine List.filter_congr fun id hid => ?_
  obtain ⟨known, hknown, rfl⟩ := List.mem_map.1 hid
  have hfound := get?_of_mem hsorted (List.mem_filter.1 hknown).1
  have hiff := h known.id (by rw [hfound]; rfl)
  rw [Bool.not_inj_iff, Bool.eq_iff_iff, List.contains_iff_mem, List.contains_iff_mem, hiff]

/-- **A profile splits what it stands for by kind.** -/
theorem disjoint_resolve (hsorted : Sorted catalog) (profile : Profile) :
    (catalog.resolve profile .solvable).Disjoint (catalog.resolve profile .needy) := by
  intro id hsolvable hneedy
  obtain ⟨known, hknown, -, hkind, -⟩ := (mem_resolve_iff hsorted).1 hsolvable
  obtain ⟨again, hagain, -, hkind', -⟩ := (mem_resolve_iff hsorted).1 hneedy
  obtain rfl : known = again := Option.some.inj (hknown.symm.trans hagain)
  rw [hkind] at hkind'
  cases hkind'

/-- **The store of modules and its split by a profile**, after any run of
insertions into the vanilla catalog. The modules are listed once each, in the
order of the bytes of their identifiers. Under an identifier the module inserted
last is known, or else the component of the base game, and it is the module of
that identifier; no component is ever lost. A profile stands for two lists in
the same order with nothing in common: what is known, enabled and not left out
stands in that of its present kind. What it leaves out beyond the known modules
makes no difference. -/
theorem store_and_split {added : List BombModule} (hcatalog : catalog = vanilla.extend added) :
    catalog.modules.Pairwise (fun a b => bytes a.id < bytes b.id) ∧
    (∀ id, catalog.get? id =
      (added.reverse.find? (·.id == id)).or ((Component.ofId? id).map Component.asModule)) ∧
    (∀ id known, catalog.get? id = some known → known.id = id) ∧
    (∀ component : Component, (catalog.get? component.id).isSome) ∧
    ∀ profile : Profile,
      (∀ kind, (catalog.resolve profile kind).Pairwise fun a b => bytes a < bytes b) ∧
      (catalog.resolve profile .solvable).Disjoint (catalog.resolve profile .needy) ∧
      (∀ kind id, id ∈ catalog.resolve profile kind ↔
        ∃ known, catalog.get? id = some known ∧ known.enabled = true ∧ known.kind = kind ∧
          id ∉ profile.disabled) ∧
      ∀ other : Profile, (∀ id, (catalog.get? id).isSome →
          (id ∈ profile.disabled ↔ id ∈ other.disabled)) →
        ∀ kind, catalog.resolve profile kind = catalog.resolve other kind := by
  have hsorted : Sorted catalog := hcatalog ▸ sorted_ofModules added
  have hget (id : String) : catalog.get? id =
      (added.reverse.find? (·.id == id)).or ((Component.ofId? id).map Component.asModule) := by
    rw [hcatalog, get?_extend, get?_vanilla]
  refine ⟨hsorted.imp fun {a b} hab => idOrder_eq_lt_iff.1 hab, hget,
    fun id known hknown => (mem_of_get? hknown).2, fun component => ?_, fun profile =>
      ⟨fun kind => (ascending_resolve hsorted profile kind).imp fun {a b} hab =>
        idOrder_eq_lt_iff.1 hab, disjoint_resolve hsorted profile,
        fun kind id => mem_resolve_iff hsorted, fun other h => resolve_congr hsorted h⟩⟩
  rw [hget, Component.ofId?_id, Option.isSome_or]
  simp

/-- A component that is made needy, and a module that is inserted twice and is
disabled at last. -/
def replacedCatalog : Catalog := vanilla.extend
  [⟨"Wires", "Wires", .needy, true⟩, ⟨"Ärger", "Ärger", .solvable, true⟩,
    ⟨"Ärger", "Ärger", .solvable, false⟩]

/-- The component is among the modules to be kept quiet, the disabled module is
among none, and an unknown name that is left out makes no difference. -/
theorem store_and_split_replaced :
    replacedCatalog.get? "Wires" = some ⟨"Wires", "Wires", .needy, true⟩ ∧
      replacedCatalog.get? "Ärger" = some ⟨"Ärger", "Ärger", .solvable, false⟩ ∧
      "Wires" ∈ replacedCatalog.resolve ⟨.expert, ["Maze"]⟩ .needy ∧
      "Wires" ∉ replacedCatalog.resolve ⟨.expert, ["Maze"]⟩ .solvable ∧
      replacedCatalog.resolve ⟨.expert, ["Maze"]⟩ .solvable =
        replacedCatalog.resolve ⟨.defuser, ["Maze", "Nowhere"]⟩ .solvable := by
  obtain ⟨-, hget, -, -, hsplit⟩ := @store_and_split replacedCatalog _ rfl
  obtain ⟨-, hdisjoint, hmem, hcongr⟩ := hsplit ⟨.expert, ["Maze"]⟩
  have hwires : replacedCatalog.get? "Wires" = some ⟨"Wires", "Wires", .needy, true⟩ :=
    (hget "Wires").trans (by decide)
  have hneedy := (hmem .needy "Wires").2 ⟨_, hwires, rfl, rfl, by decide⟩
  have hnowhere : replacedCatalog.get? "Nowhere" = none := (hget "Nowhere").trans (by decide)
  refine ⟨hwires, (hget "Ärger").trans (by decide), hneedy,
    fun hsolvable => hdisjoint hsolvable hneedy, hcongr _ (fun id hid => ?_) _⟩
  have hne : id ≠ "Nowhere" := by
    rintro rfl
    rw [hnowhere] at hid
    cases hid
  simp [hne]

end Catalog

end MissionText
