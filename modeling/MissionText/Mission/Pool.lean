import MissionText.Category
import MissionText.Context
import MissionText.Diagnostic
import MissionText.Token

/-!
# Pools

A pool is a number of modules to draw, and what to draw them from: a category,
or modules that are named one by one. The list of a pool token is read without
its quotes and the blanks around it. It is the identifier of a category, or a
reference to a profile, which names the modules the profile stands for, or a
list of identifiers, each with the blanks around it taken off.
-/

namespace MissionText

/-- What a pool draws modules from. -/
inductive Contents where
  /-- Any module of a category. -/
  | category (category : Category)
  /-- The named modules, in order and each of them once. -/
  | named (ids : List String)
  deriving DecidableEq, Repr

/-- A group of modules and how many of them to draw. -/
structure Pool where
  count : Nat
  contents : Contents
  deriving DecidableEq, Repr

namespace Pool

/-- Where a pool may draw from by category. A pool of named modules does
not. -/
def sources (pool : Pool) : Sources :=
  match pool.contents with
  | .category category => category.sources
  | .named _ => .none

/-- The kind of the category that a pool draws from, if it draws from one. -/
def categoryKind? (pool : Pool) : Option ModuleKind :=
  match pool.contents with
  | .category category => some category.kind
  | .named _ => none

/-- The identifiers that a pool names, ascending. -/
def ids (pool : Pool) : List String :=
  match pool.contents with
  | .category _ => []
  | .named ids => ids

/-- The components of the base game among the modules that a pool names. -/
def components (pool : Pool) : List Component :=
  Component.all.filter fun component => pool.ids.contains component.id

end Pool

/-- What the list of a pool token stands for. -/
structure Resolution where
  contents : Contents
  /-- What is wrong with the list. -/
  problems : List Diagnostic
  /-- Whether the pool can only yield modules that are to be solved. -/
  solvable : Bool
  deriving DecidableEq, Repr

/-- The text after a keyword, if the text begins with it in any ASCII case. -/
def afterKeyword? (keyword : String) (cs : List Char) : Option (List Char) :=
  let typed := keyword.toList
  if Text.sameKeyword typed (cs.take typed.length) then some (cs.drop typed.length) else none

/-- The keyword before the name of a profile, by the kind of modules that it
asks for. -/
def ModuleKind.profileKeyword : ModuleKind → String
  | .solvable => "profile:"
  | .needy => "needyprofile:"

/-- The kind and the name in a reference to a profile. -/
def profileReference? (list : List Char) : Option (ModuleKind × String) :=
  let named (kind : ModuleKind) :=
    (afterKeyword? kind.profileKeyword list).map fun name => (kind, String.ofList name)
  (named .solvable).or (named .needy)

/-- The identifiers of a list, each without the blanks around it. -/
def identifiersOf (list : List Char) : List String :=
  (list.splitOnP Text.isSeparator).map fun piece => String.ofList (Text.trim piece)

/-- The list of a pool token without its quotes and the blanks around it. -/
def PoolToken.list (pool : PoolToken) : List Char :=
  Text.trim (Text.unquoted pool.idList.toList)

namespace Context

/-- The kind of the module with an identifier, or what is wrong with it.
Components of the base game are accepted whatever the catalog says. -/
def lookUp (context : Context) (id : String) : Except Diagnostic ModuleKind :=
  match Component.ofId? id with
  | some component => .ok component.kind
  | none =>
    match context.catalog.get? id with
    | none => .error (.unknownModule id)
    | some found => if found.enabled then .ok found.kind else .error (.disabledModule id)

/-- What a reference to a profile stands for. -/
def resolveProfile (context : Context) (kind : ModuleKind) (name : String) : Resolution :=
  match context.profiles.get? name with
  | none => ⟨.named [], [.unknownProfile name], false⟩
  | some profile =>
    match context.catalog.resolve profile kind with
    | [] => ⟨.named [], [.emptyProfile name], false⟩
    | ids => ⟨.named ids, [], kind == .solvable⟩

/-- What a list of identifiers stands for: the modules among them that can be
found. It yields only modules to be solved if there are any and none of them
is needy. -/
def resolveIds (context : Context) (ids : List String) : Resolution :=
  let looked := ids.map fun id => (id, context.lookUp id)
  let found := looked.filterMap fun (id, kind) => kind.toOption.map fun kind => (id, kind)
  { contents := .named (Ordered.ofList idOrder (found.map (·.1)))
    problems := looked.filterMap fun (_, kind) =>
      match kind with
      | .error problem => some problem
      | .ok _ => none
    solvable := !found.isEmpty && found.all fun (_, kind) => kind == .solvable }

/-- What the list of a pool stands for, once its quotes and the blanks around
it are taken off. -/
def resolveList (context : Context) (list : List Char) : Resolution :=
  match Category.ofId? (String.ofList list) with
  | some category => ⟨.category category, [], category.kind == .solvable⟩
  | none =>
    match profileReference? list with
    | some (kind, name) => context.resolveProfile kind name
    | none => context.resolveIds (identifiersOf list)

/-- What a pool token stands for. -/
def resolvePool (context : Context) (pool : PoolToken) : Resolution :=
  context.resolveList pool.list

end Context

end MissionText
