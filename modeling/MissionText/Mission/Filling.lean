import MissionText.Mission.Draft

/-!
# Filling pools

While a line is read, its pools are filled. A pool is empty at first; the parts
of a category are put into it one after the other, and identifiers one by one,
each together with the component that it is the identifier of. What was put in
is not taken out again when something turns out to be wrong later on: the pool
stays as it is, and the problem is what keeps it out of a mission.
-/

namespace MissionText

/-- The order in which components are kept: that in which they are listed. -/
def componentOrder : Component → Component → Ordering := compareOn Component.ctorIdx

/-- A pool with a field for each thing that can be put into it. -/
structure FilledPool where
  count : Nat
  /-- Where a category draws its modules from. -/
  sources : Sources
  /-- The kind of the modules that a category draws. -/
  categoryKind : Option ModuleKind
  /-- The identifiers that were named, ascending. -/
  ids : List String
  /-- The components of the base game among them, in order. -/
  components : List Component
  deriving DecidableEq, Repr

namespace FilledPool

/-- A pool before anything is put into it. -/
def empty (count : Nat) : FilledPool := ⟨count, .none, none, [], []⟩

/-- Put in the parts of a category. -/
def drawFrom (pool : FilledPool) (drawn : Category) : FilledPool :=
  let sourced := { pool with sources := drawn.sources }
  { sourced with categoryKind := some drawn.kind }

/-- Put in an identifier, and the component that it is the identifier of. -/
def addId (pool : FilledPool) (id : String) : FilledPool :=
  let mirrored :=
    match Component.ofId? id with
    | some component =>
      { pool with components := Ordered.insert componentOrder component pool.components }
    | none => pool
  { mirrored with ids := Ordered.insert idOrder id mirrored.ids }

/-- The identifiers that were named and are not of the base game. -/
def modIds (pool : FilledPool) : List String :=
  pool.ids.filter fun id => (Component.ofId? id).isNone

end FilledPool

/-- A pool that is being filled, and what is wrong with the line so far. -/
structure Filling where
  problems : List Diagnostic
  pool : FilledPool
  deriving DecidableEq, Repr

/-- Add a problem. The pool stays as it is. -/
def Filling.report (filling : Filling) (problem : Diagnostic) : Filling :=
  { filling with problems := filling.problems ++ [problem] }

/-- What has come of a list of identifiers so far. -/
structure Naming extends Filling where
  /-- Whether a module was found. -/
  resolved : Bool := false
  /-- Whether one of those that were found is needy. -/
  needy : Bool := false
  deriving DecidableEq, Repr

/-- Take in an identifier. One that cannot be found is passed over. -/
def Naming.add (context : Context) (naming : Naming) (id : String) : Naming :=
  match context.lookUp id with
  | .error problem => { naming with toFilling := naming.report problem }
  | .ok kind =>
    { naming with
      pool := naming.pool.addId id
      resolved := true
      needy := naming.needy || kind == .needy }

namespace Context

/-- Fill a pool with the identifiers of a list, and tell whether only modules
to be solved are drawn from it. -/
def fillIds (context : Context) (filling : Filling) (ids : List String) : Filling × Bool :=
  let naming := ids.foldl (Naming.add context) { filling with }
  (naming.toFilling, naming.resolved && !naming.needy)

/-- Fill a pool with what a reference to a profile stands for. -/
def fillProfile (context : Context) (filling : Filling) (kind : ModuleKind) (name : String) :
    Filling × Bool :=
  match context.profiles.get? name with
  | none => (filling.report (.unknownProfile name), false)
  | some profile =>
    match context.catalog.resolve profile kind with
    | [] => (filling.report (.emptyProfile name), false)
    | ids => ({ filling with pool := ids.foldl .addId filling.pool }, kind == .solvable)

/-- Fill a pool with what its list stands for. -/
def fillList (context : Context) (filling : Filling) (list : List Char) : Filling × Bool :=
  match Category.ofId? (String.ofList list) with
  | some drawn => ({ filling with pool := filling.pool.drawFrom drawn }, drawn.kind == .solvable)
  | none =>
    match profileReference? list with
    | some (kind, name) => context.fillProfile filling kind name
    | none => context.fillIds filling (identifiersOf list)

end Context

/-- A mission with its pools as they were filled. -/
structure FilledMission where
  timeLimit : Nat
  strikeLimit : Nat
  pacing : Bool
  frontFaceOnly : Bool
  widgetCount : Option Nat
  needyActivationDelay : Option Nat
  factoryMode : Option FactoryMode
  pools : List FilledPool
  deriving DecidableEq, Repr

/-- What the tokens read so far have said, with the pools as they were
filled. -/
structure FilledDraft where
  /-- All but the pools. -/
  draft : Draft := {}
  pools : List FilledPool := []
  deriving DecidableEq, Repr

namespace FilledDraft

/-- Take in a pool, of one module if it has no count. It is kept as far as it
was filled. -/
def addPool (filled : FilledDraft) (context : Context) (token : PoolToken) : FilledDraft :=
  let count := token.count.getD 1
  let counted := filled.draft.reportIf (count == 0) .invalidPoolCount
  let (filling, solvable) := context.fillList ⟨counted.problems, .empty count⟩ token.list
  { draft := { counted with
      problems := filling.problems
      anySolvable := counted.anySolvable || solvable }
    pools := filled.pools ++ [filling.pool] }

/-- Take in a token. -/
def add (context : Context) (filled : FilledDraft) (token : Token) : FilledDraft :=
  match token.kind with
  | .pool pool => filled.addPool context pool
  | _ => { filled with draft := filled.draft.add context token }

/-- The mission of a finished draft, or all that is wrong with it. -/
def finish (filled : FilledDraft) (context : Context) :
    Except (List Diagnostic) FilledMission :=
  let draft := filled.draft
  let count := filled.pools.foldr (fun pool total => pool.count + total) 0
  let unsolvable := if draft.anySolvable then [] else [.noSolvableModules]
  let tooMany :=
    if count > context.maxModules then [.tooManyModules count context.maxModules] else []
  match draft.problems ++ (unsolvable ++ tooMany) with
  | [] =>
    .ok {
      timeLimit := draft.timeLimit.getD (count * Draft.secondsPerModule)
      strikeLimit := draft.strikeLimit.getD (Draft.defaultStrikes count)
      pacing := draft.pacing
      frontFaceOnly := draft.frontFaceOnly
      widgetCount := draft.widgetCount
      needyActivationDelay := draft.needyActivationDelay
      factoryMode := draft.factory.join
      pools := filled.pools }
  | problems => .error problems

end FilledDraft

/-- The mission that a line describes, with its pools as they were filled, or all
that is wrong with the line. -/
def FilledMission.parse (context : Context) (text : String) :
    Except (List Diagnostic) FilledMission :=
  let scan := Scan.ofText text
  if scan.covers text then
    (scan.tokens.foldl (FilledDraft.add context) {}).finish context
  else .error [.syntaxError]

/-- A pool field by field. -/
def Pool.filled (pool : Pool) : FilledPool :=
  ⟨pool.count, pool.sources, pool.categoryKind?, pool.ids, pool.components⟩

/-- The identifiers that a pool names and that are not of the base game. -/
def Pool.modIds (pool : Pool) : List String := pool.filled.modIds

/-- A mission with its pools field by field. -/
def Mission.filled (mission : Mission) : FilledMission where
  timeLimit := mission.timeLimit
  strikeLimit := mission.strikeLimit
  pacing := mission.pacing
  frontFaceOnly := mission.frontFaceOnly
  widgetCount := mission.widgetCount
  needyActivationDelay := mission.needyActivationDelay
  factoryMode := mission.factoryMode
  pools := mission.pools.map Pool.filled

end MissionText
