import Mathlib.Logic.Basic
import MissionText.Proofs.Mission.Filling
import MissionText.Proofs.Mission.Sound
/-!
# The form of pools — what every pool of a mission looks like

A pool is filled in one of three ways, and each of them can stop halfway. No
pool that was left empty or half filled makes it into a mission: what its list
stands for is there (`Draws.sound`). So either the parts of one of the six
categories were put into it and nothing else, or it draws from no category, and
identifiers of modules that there are were put in, which keeps the components
in step with them. Every pool of a mission has exactly one of these forms, and
they are the pools of the tokens, one by one (`pools_of_parse`).
-/

namespace MissionText

open Text Ordered

variable {context : Context} {pool : FilledPool} {contents : Contents} {drawn : Category}
  {text : String} {mission : FilledMission} {ids : List String} {count : Nat}

namespace FilledPool

/-- **The form of a pool that draws from a category.** The category is known by
its parts, and nothing else is in the pool. -/
structure DrawsCategory (pool : FilledPool) (drawn : Category) : Prop where
  kind : pool.categoryKind = some drawn.kind
  sources : pool.sources = drawn.sources
  /-- The parts that the pool holds are enough to find the category. -/
  found : pool.categoryKind.bind (Category.ofParts? · pool.sources) = some drawn
  ids : pool.ids = []
  components : pool.components = []

/-- **The form of a pool that names modules.** -/
structure NamesModules (context : Context) (pool : FilledPool) : Prop where
  kind : pool.categoryKind = none
  sources : pool.sources = .none
  nonempty : pool.ids ≠ []
  /-- The components are those whose identifiers are named, and both are kept in
  order. -/
  inStep : pool.InStep
  /-- What is named is a component of the base game, or a module that the
  catalog knows as enabled. -/
  known : ∀ id ∈ pool.ids, (∃ component : Component, component.id = id) ∨
    ∃ known, context.catalog.get? id = some known ∧ known.enabled = true
  /-- The rest is not of the base game. -/
  mods : ∀ id, id ∈ pool.modIds ↔ id ∈ pool.ids ∧ ∀ component : Component, component.id ≠ id
  /-- And it is in order, too. -/
  modsAscending : Ascending idOrder pool.modIds

theorem mem_modIds {id : String} :
    id ∈ pool.modIds ↔ id ∈ pool.ids ∧ ∀ component : Component, component.id ≠ id := by
  rw [modIds, List.mem_filter, Option.isNone_iff_eq_none, Component.ofId?_eq_none_iff]

theorem drawsCategory_drawFrom (drawn : Category) (count : Nat) :
    ((empty count).drawFrom drawn).DrawsCategory drawn where
  kind := rfl
  sources := rfl
  found := Category.ofParts?_parts drawn
  ids := rfl
  components := rfl

/-- **A run of identifiers makes a pool that names modules**, if there are some and
each of them is the identifier of one. -/
theorem namesModules_foldl_addId (hne : ids ≠ [])
    (hnames : ∀ id ∈ ids, ∃ kind, context.Names id kind) (count : Nat) :
    (ids.foldl addId (empty count)).NamesModules context := by
  have := transCmp_idOrder
  have := lawfulEqCmp_idOrder
  have hstep := (inStep_empty count).foldl_addId ids
  have hrest := foldl_addId_rest ids (empty count)
  have hids := foldl_addId_empty_ids ids count
  refine {
    kind := by rw [hrest]; rfl
    sources := by rw [hrest]; rfl
    nonempty := hids ▸ ofList_ne_nil hne
    inStep := hstep
    known := fun id hid => ?_
    mods := fun _ => mem_modIds
    modsAscending := List.Pairwise.filter _ hstep.ids }
  rw [hids, mem_ofList] at hid
  obtain ⟨kind, hkind⟩ := hnames id hid
  cases hkind with
  | component component hcomponent => exact .inl ⟨component, hcomponent⟩
  | known known _ hknown henabled => exact .inr ⟨known, hknown, henabled⟩

/-- **A pool has one form only**, and has it if it was filled with what there is. -/
theorem xor_form (h : contents.Sound context) (count : Nat) :
    Xor (∃ drawn, (Pool.filled ⟨count, contents⟩).DrawsCategory drawn)
      ((Pool.filled ⟨count, contents⟩).NamesModules context) := by
  cases contents with
  | category drawn =>
    have hform := drawsCategory_drawFrom drawn count
    rw [drawFrom_empty] at hform
    exact .inl ⟨⟨drawn, hform⟩, fun hnames => hnames.nonempty hform.ids⟩
  | named ids =>
    have := transCmp_idOrder
    obtain ⟨hne, hascending, hnames⟩ := h
    have hform := namesModules_foldl_addId hne hnames count
    rw [foldl_addId_empty, ofList_of_ascending hascending] at hform
    exact .inr ⟨hform, fun ⟨drawn, hdraws⟩ => hform.nonempty hdraws.ids⟩

end FilledPool

/-- **What a list stands for is what a pool is filled with**, and then nothing is
wrong with the list. -/
theorem Context.Draws.fillList {list : List Char} (h : context.Draws list contents)
    (hsorted : context.catalog.Sorted) (problems : List Diagnostic) (count : Nat) :
    (context.fillList ⟨problems, .empty count⟩ list).1 =
      ⟨problems, Pool.filled ⟨count, contents⟩⟩ := by
  obtain ⟨hproblems, hcontents⟩ := draws_iff.1 h
  rw [fillList_eq hsorted, Resolution.filling, hproblems, hcontents, List.append_nil]

namespace FilledMission

/-- **The pools of a mission are those of its line**: there are some, one for
each pool token and in their order. Each was empty, but for the count that the
token gives, and was filled with what the list of the token stands for, without
a problem. Every count is at least one and fits in a field, and every pool draws
from a category or names modules that there are, but not both. The mission is
the one that is read with pools that are resolved, field by field. -/
theorem pools_of_parse {added : List BombModule}
    (hcatalog : context.catalog = Catalog.ofModules added) (h : parse context text = .ok mission) :
    (∃ read, Mission.parse context text = .ok read ∧ read.filled = mission) ∧
      mission.pools ≠ [] ∧
      List.Forall₂ (fun token pool => pool.count = token.count.getD 1 ∧
          (context.fillList ⟨[], .empty (token.count.getD 1)⟩ token.list).1 = ⟨[], pool⟩ ∧
          ∃ contents, context.Draws token.list contents ∧
            pool = Pool.filled ⟨token.count.getD 1, contents⟩)
        (Draft.poolTokens (Scan.ofText text).tokens) mission.pools ∧
      ∀ pool ∈ mission.pools, 1 ≤ pool.count ∧ pool.count ≤ 999999999 ∧
        Xor (∃ drawn, pool.DrawsCategory drawn) (pool.NamesModules context) := by
  have hsorted : context.catalog.Sorted := hcatalog ▸ Catalog.sorted_ofModules added
  rw [parse_eq hsorted] at h
  obtain ⟨read, hread, rfl⟩ : ∃ read, Mission.parse context text = .ok read ∧
      read.filled = mission := by
    cases hread : Mission.parse context text with
    | error problems => rw [hread] at h; cases h
    | ok read => rw [hread] at h; exact ⟨read, rfl, Except.ok.inj h⟩
  obtain ⟨haccept, hdescribes⟩ :=
    Draft.finish_ofTokens_eq_ok_iff.1 (Mission.parse_eq_ok_iff_finish.1 hread)
  refine ⟨⟨read, hread, rfl⟩, ?_, ?_, ?_⟩
  · -- some token is a pool of modules to be solved, and it has a pool of its own
    obtain ⟨token, htoken, -⟩ := haccept.solvable
    obtain ⟨pool, hpool, -⟩ := Mission.exists_mem_left hdescribes.pools.flip token htoken
    exact List.ne_nil_of_mem (List.mem_map_of_mem hpool)
  · refine List.forall₂_map_right_iff.2 (hdescribes.pools.imp fun token pool hpool => ?_)
    obtain ⟨count, contents⟩ := pool
    obtain ⟨rfl, hdraws⟩ := hpool
    exact ⟨rfl, hdraws.fillList hsorted [] _, contents, hdraws, rfl⟩
  · intro pool hpool
    obtain ⟨⟨count, contents⟩, hmem, rfl⟩ := List.mem_map.1 hpool
    obtain ⟨token, htoken, hcount, hdraws⟩ := Mission.exists_mem_left hdescribes.pools _ hmem
    obtain rfl : count = token.count.getD 1 := hcount
    have hpos := Mission.getD_pos (haccept.pools token htoken).1
    have hle := Draft.poolCount_le (Scan.bounded_ofText text) htoken
    exact ⟨hpos, hle, FilledPool.xor_form (hdraws.sound hsorted) _⟩

end FilledMission

namespace Mission

/-- A profile that leaves out the components of the base game that are to be
solved. -/
def modsOnly : Profile :=
  .leavingOut .expert ((Component.all.filter (·.kind = .solvable)).map Component.id)

/-- A context in which a needy component has become a module to be solved, and
with one more. -/
def oddContext : Context where
  catalog := .ofModules
    [⟨"NeedyKnob", "Knob", .solvable, true⟩, ⟨"Odd Mod", "Odd Mod", .solvable, true⟩]
  profiles := .ofList [("Mods", modsOnly)]

end Mission

namespace FilledMission

/-- A profile, a category and a list. The first pool names a component whose
kind the catalog has changed. -/
theorem pools_of_parse_odd :
    parse Mission.oddContext "profile:Mods ALL_MODS 2*\"Odd Mod\",Wires" =
        .ok ⟨480, 3, true, false, none, none, none,
          [⟨1, .none, none, ["NeedyKnob", "Odd Mod"], [.needyKnob]⟩,
            ⟨1, ⟨false, true⟩, some .solvable, [], []⟩,
            ⟨2, .none, none, ["Odd Mod", "Wires"], [.wires]⟩]⟩ ∧
      ∀ pool ∈ ([⟨1, .none, none, ["NeedyKnob", "Odd Mod"], [.needyKnob]⟩,
          ⟨1, ⟨false, true⟩, some .solvable, [], []⟩,
          ⟨2, .none, none, ["Odd Mod", "Wires"], [.wires]⟩] : List FilledPool),
        1 ≤ pool.count ∧ pool.count ≤ 999999999 ∧
          Xor (∃ drawn, pool.DrawsCategory drawn) (pool.NamesModules Mission.oddContext) := by
  have hread : parse Mission.oddContext "profile:Mods ALL_MODS 2*\"Odd Mod\",Wires" =
      .ok ⟨480, 3, true, false, none, none, none,
        [⟨1, .none, none, ["NeedyKnob", "Odd Mod"], [.needyKnob]⟩,
          ⟨1, ⟨false, true⟩, some .solvable, [], []⟩,
          ⟨2, .none, none, ["Odd Mod", "Wires"], [.wires]⟩]⟩ := by
    decide +kernel
  exact ⟨hread, (pools_of_parse rfl hread).2.2.2⟩

end FilledMission

end MissionText
