import MissionText.Mission.Filling
import MissionText.Proofs.Draft.Step
import MissionText.Proofs.Ordered.Keyed
import MissionText.Proofs.Pool.Profile
/-!
# Filled pools — components stay in step with identifiers

A pool keeps the components of the base game beside the identifiers that name
them. An identifier that is put in keeps the two in step (`InStep.addId`), and so
does a run of them (`InStep.foldl_addId`), whether it comes from a profile or from
a list in which some identifiers cannot be found (`InStep.fillList`). A pool that
was filled has the fields of what its list is resolved to (`fillList_eq`), so a
line is read as the same mission in both ways (`parse_eq`).
-/

namespace MissionText

open Ordered

variable {context : Context} {pool : FilledPool} {component : Component} {id : String}
  {token : Token} {draft : Draft}

/-! ## Two orders -/

theorem lawfulEqCmp_idOrder : Std.LawfulEqCmp idOrder :=
  inferInstanceAs (Std.LawfulEqCmp (compare : String → String → Ordering))

theorem transCmp_componentOrder : Std.TransCmp componentOrder :=
  inferInstanceAs (Std.TransCmp (compareOn Component.ctorIdx))

theorem lawfulEqCmp_componentOrder : Std.LawfulEqCmp componentOrder where
  compare_self {component} := Nat.compare_eq_eq.2 (Eq.refl component.ctorIdx)
  eq_of_compare {component other} h := by
    rw [componentOrder, compareOn, Nat.compare_eq_eq] at h
    cases component <;> cases other <;> first | rfl | cases h

/-- The components are listed in their order. -/
theorem ascending_all : Ascending componentOrder Component.all := by
  unfold Ascending
  decide

theorem Component.id_inj {other : Component} : component.id = other.id ↔ component = other := by
  constructor
  · intro h
    rw [← Option.some_inj, ← ofId?_id, h, ofId?_id]
  · intro h
    rw [h]

/-! ## One identifier -/

namespace FilledPool

/-- **The components of a pool are in step** with its identifiers: they are those
whose identifiers are named. Both are in order. -/
structure InStep (pool : FilledPool) : Prop where
  ids : Ascending idOrder pool.ids
  components : Ascending componentOrder pool.components
  mirrored : ∀ component, component ∈ pool.components ↔ component.id ∈ pool.ids

theorem inStep_empty (count : Nat) : (empty count).InStep where
  ids := List.Pairwise.nil
  components := List.Pairwise.nil
  mirrored _ := by simp [empty]

/-- What does not name a component is put in by itself. -/
theorem addId_of_none (h : Component.ofId? id = none) (pool : FilledPool) :
    pool.addId id = { pool with ids := insert idOrder id pool.ids } := by
  unfold addId
  rw [h]

/-- What names a component is put in with it. -/
theorem addId_of_some (h : Component.ofId? id = some component) (pool : FilledPool) :
    pool.addId id = { pool with
      ids := insert idOrder id pool.ids
      components := insert componentOrder component pool.components } := by
  unfold addId
  rw [h]

theorem addId_ids (pool : FilledPool) (id : String) :
    (pool.addId id).ids = insert idOrder id pool.ids := by
  cases h : Component.ofId? id with
  | none => rw [addId_of_none h]
  | some component => rw [addId_of_some h]

/-- **An identifier that is put in keeps the components in step.** -/
theorem InStep.addId (h : pool.InStep) (id : String) : (pool.addId id).InStep := by
  have := transCmp_idOrder
  have := lawfulEqCmp_idOrder
  have := transCmp_componentOrder
  have := lawfulEqCmp_componentOrder
  have hids := pairwise_insert h.ids id
  cases hid : Component.ofId? id with
  | none =>
    have hother := Component.ofId?_eq_none_iff.1 hid
    rw [addId_of_none hid]
    refine ⟨hids, h.components, fun component => ?_⟩
    rw [mem_insert_of_lawful h.ids, h.mirrored, or_iff_right (hother component)]
  | some named =>
    have hnamed := Component.id_of_ofId? hid
    rw [addId_of_some hid]
    refine ⟨hids, pairwise_insert h.components named, fun component => ?_⟩
    rw [mem_insert_of_lawful h.components, mem_insert_of_lawful h.ids, h.mirrored, ← hnamed,
      Component.id_inj]

/-! ## A run of identifiers -/

/-- **A run of identifiers keeps the components in step.** -/
theorem InStep.foldl_addId (h : pool.InStep) (ids : List String) :
    (ids.foldl FilledPool.addId pool).InStep := by
  induction ids generalizing pool with
  | nil => exact h
  | cons id ids ih => exact ih (h.addId id)

/-- The identifiers of a run are put in order. -/
theorem foldl_addId_ids (ids : List String) (pool : FilledPool) :
    (ids.foldl addId pool).ids = ids.foldl (fun held id => insert idOrder id held) pool.ids := by
  induction ids generalizing pool with
  | nil => rfl
  | cons id ids ih => rw [List.foldl_cons, ih, addId_ids, List.foldl_cons]

/-- An empty pool comes to name them in order, each of them once. -/
theorem foldl_addId_empty_ids (ids : List String) (count : Nat) :
    (ids.foldl addId (empty count)).ids = ofList idOrder ids :=
  foldl_addId_ids ids (empty count)

/-- Identifiers leave the rest of a pool as it is. -/
theorem foldl_addId_rest (ids : List String) (pool : FilledPool) :
    ids.foldl addId pool = { pool with
      ids := (ids.foldl addId pool).ids
      components := (ids.foldl addId pool).components } := by
  induction ids generalizing pool with
  | nil => rfl
  | cons id ids ih =>
    rw [List.foldl_cons, ih]
    cases h : Component.ofId? id with
    | none => rw [addId_of_none h]
    | some component => rw [addId_of_some h]

/-- **A run of identifiers fills a pool that names them.** -/
theorem foldl_addId_empty (ids : List String) (count : Nat) :
    ids.foldl addId (empty count) = Pool.filled ⟨count, .named (ofList idOrder ids)⟩ := by
  have := transCmp_componentOrder
  have hstep := (inStep_empty count).foldl_addId ids
  have hcomponents : (ids.foldl addId (empty count)).components =
      Component.all.filter fun component => (ofList idOrder ids).contains component.id := by
    refine eq_of_ascending hstep.components (ascending_all.filter _) fun component => ?_
    rw [hstep.mirrored, foldl_addId_empty_ids, List.mem_filter, List.contains_iff_mem]
    exact (and_iff_right component.mem_all).symm
  rw [foldl_addId_rest, foldl_addId_empty_ids, hcomponents]
  rfl

/-- The parts of a category fill a pool that draws from it. -/
theorem drawFrom_empty (drawn : Category) (count : Nat) :
    (empty count).drawFrom drawn = Pool.filled ⟨count, .category drawn⟩ := by
  simp [drawFrom, empty, Pool.filled, Pool.sources, Pool.categoryKind?, Pool.ids, Pool.components]

end FilledPool

/-! ## The three ways to fill a pool -/

/-- **What a run over the identifiers of a list does.** Those that are found are
put in, one after the other, and the others are reported. -/
theorem Naming.foldl_add (context : Context) (ids : List String) (naming : Naming) :
    ids.foldl (Naming.add context) naming = {
      problems := naming.problems ++ context.lookUpProblems ids
      pool := ((context.found ids).map (·.1)).foldl .addId naming.pool
      resolved := naming.resolved || !(context.found ids).isEmpty
      needy := naming.needy || (context.found ids).any fun (_, kind) => kind == .needy } := by
  induction ids generalizing naming with
  | nil => simp [Context.found, Context.lookUpProblems]
  | cons id ids ih =>
    rw [List.foldl_cons, ih, Naming.add]
    cases hid : context.lookUp id with
    | error problem =>
      simp [Filling.report, Context.found, Context.lookUpProblems, hid, Except.toOption]
    | ok kind =>
      simp [Context.found, Context.lookUpProblems, hid, Except.toOption, Bool.or_assoc]

/-- **However a pool is filled, its components stay in step**, also where something
is wrong with its list and the pool is left empty or half filled. -/
theorem FilledPool.InStep.fillList {filling : Filling} (h : filling.pool.InStep)
    (list : List Char) : (context.fillList filling list).1.pool.InStep := by
  unfold Context.fillList
  split
  · exact ⟨h.ids, h.components, h.mirrored⟩
  · split
    · unfold Context.fillProfile
      split
      · exact h
      · split
        · exact h
        · exact h.foldl_addId _
    · unfold Context.fillIds
      rw [Naming.foldl_add]
      exact h.foldl_addId _

/-- What a pool is filled with, and what is wrong with the line then, where its
list is resolved so. -/
def Resolution.filling (resolution : Resolution) (problems : List Diagnostic) (count : Nat) :
    Filling × Bool :=
  (⟨problems ++ resolution.problems, Pool.filled ⟨count, resolution.contents⟩⟩,
    resolution.solvable)

namespace Context

variable {problems : List Diagnostic} {count : Nat}

theorem fillIds_eq (context : Context) (ids : List String) :
    context.fillIds ⟨problems, .empty count⟩ ids =
      (context.resolveIds ids).filling problems count := by
  rw [fillIds, Naming.foldl_add, resolveIds_eq, Resolution.filling,
    FilledPool.foldl_addId_empty]
  -- nothing that was found is needy if and only if all of it is to be solved
  have hkinds : (!(context.found ids).any fun (_, kind) => kind == .needy) =
      (context.found ids).all fun (_, kind) => kind == .solvable := by
    rw [List.not_any_eq_all_not]
    congr 1
    funext ⟨_, kind⟩
    cases kind <;> rfl
  simp [hkinds]

theorem fillProfile_eq (hsorted : context.catalog.Sorted) (kind : ModuleKind) (name : String) :
    context.fillProfile ⟨problems, .empty count⟩ kind name =
      (context.resolveProfile kind name).filling problems count := by
  have := transCmp_idOrder
  unfold fillProfile resolveProfile
  cases context.profiles.get? name with
  | none => rfl
  | some profile =>
    have hascending := Catalog.ascending_resolve hsorted profile kind
    dsimp only
    generalize context.catalog.resolve profile kind = ids at hascending
    cases ids with
    | nil => rfl
    | cons id ids =>
      dsimp only
      rw [FilledPool.foldl_addId_empty, ofList_of_ascending hascending, Resolution.filling,
        List.append_nil]

/-- **A pool is filled with what its list is resolved to.** -/
theorem fillList_eq (hsorted : context.catalog.Sorted) (list : List Char) :
    context.fillList ⟨problems, .empty count⟩ list =
      (context.resolveList list).filling problems count := by
  unfold fillList resolveList
  cases Category.ofId? (String.ofList list) with
  | some drawn =>
    dsimp only
    rw [FilledPool.drawFrom_empty, Resolution.filling, List.append_nil]
  | none =>
    cases profileReference? list with
    | none => exact fillIds_eq context _
    | some reference => exact fillProfile_eq hsorted _ _

end Context

/-! ## Whole lines -/

namespace Draft

/-- A draft with its pools field by field. -/
def filled (draft : Draft) : FilledDraft where
  draft := { draft with pools := [] }
  pools := draft.pools.map Pool.filled

/-- What is no pool does not touch the pools. -/
theorem add_of_not_pool (h : token.pool? = none) (pools : List Pool) :
    Draft.add context { draft with pools } token = { draft.add context token with pools } := by
  rw [add_eq, add_eq]
  simp only [fill, h, Option.map_none, Option.toList_none, List.append_nil]
  rfl

theorem pools_add_of_not_pool (h : token.pool? = none) :
    (draft.add context token).pools = draft.pools := by
  rw [add_eq]
  simp only [fill, h, Option.map_none, Option.toList_none, List.append_nil]

/-- **A token does the same to a draft whose pools are filled.** -/
theorem add_filled (hsorted : context.catalog.Sorted) (draft : Draft) (token : Token) :
    draft.filled.add context token = (draft.add context token).filled := by
  unfold FilledDraft.add
  cases hkind : token.kind with
  | pool pool =>
    dsimp only
    unfold FilledDraft.addPool
    rw [Draft.add, hkind]
    dsimp only
    rw [addPool, Context.fillList_eq hsorted]
    unfold Resolution.filling
    simp only [filled, reportIf_eq, List.map_append, List.map_cons, List.map_nil]
    rfl
  | _ =>
    have hpool : token.pool? = none := by rw [Token.pool?, hkind]
    dsimp only
    rw [filled, filled, add_of_not_pool hpool, pools_add_of_not_pool hpool]

theorem foldl_add_filled (hsorted : context.catalog.Sorted) (tokens : List Token) (draft : Draft) :
    tokens.foldl (FilledDraft.add context) draft.filled =
      (tokens.foldl (Draft.add context) draft).filled := by
  induction tokens generalizing draft with
  | nil => rfl
  | cons token tokens ih => rw [List.foldl_cons, add_filled hsorted, ih, List.foldl_cons]

theorem finish_filled (draft : Draft) (context : Context) :
    draft.filled.finish context = (draft.finish context).map Mission.filled := by
  have hcount : draft.filled.pools.foldr (fun pool total => pool.count + total) 0 =
      Mission.countOf draft.pools := by
    rw [filled, Mission.countOf, List.foldr_map]
    rfl
  unfold FilledDraft.finish Draft.finish totalProblems
  rw [hcount]
  dsimp only [filled]
  generalize draft.problems ++ (_ ++ _) = problems
  cases problems with
  | nil => rfl
  | cons problem problems => rfl

end Draft

/-- **A line is read as the same mission** whether its pools are filled or
resolved. -/
theorem FilledMission.parse_eq (hsorted : context.catalog.Sorted) (text : String) :
    parse context text = (Mission.parse context text).map Mission.filled := by
  have htokens : (Scan.ofText text).tokens.foldl (FilledDraft.add context) {} =
      (Draft.ofTokens context (Scan.ofText text).tokens).filled :=
    Draft.foldl_add_filled hsorted (Scan.ofText text).tokens {}
  unfold parse Mission.parse Mission.read
  dsimp only
  rw [htokens, Draft.finish_filled]
  split <;> rfl

end MissionText
