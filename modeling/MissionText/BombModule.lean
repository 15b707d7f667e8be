/-!
# Bomb modules

What a bomb is made of. A module is known by its identifier, which is
case-sensitive, and is either solved once or has to be looked after for as
long as the bomb is armed. The modules of the base game are its components;
their identifiers are always accepted, whatever a catalog says about them.
-/

namespace MissionText

/-- What a module asks for: to be solved once, or to be kept quiet. -/
inductive ModuleKind where
  | solvable
  | needy
  deriving DecidableEq, Repr

/-- A module the host knows about. -/
structure BombModule where
  /-- The identifier by which pools name the module. -/
  id : String
  /-- The name under which the module is shown. -/
  displayName : String
  kind : ModuleKind
  /-- Whether missions may ask for the module. -/
  enabled : Bool := true
  deriving DecidableEq, Repr

/-- A component of the base game. -/
inductive Component where
  | wires
  | keypad
  | memory
  | maze
  | password
  | bigButton
  | simon
  | whosOnFirst
  | morse
  | venn
  | wireSequence
  | needyVentGas
  | needyCapacitor
  | needyKnob
  deriving DecidableEq, Repr

namespace Component

/-- The components in the order in which they are listed. -/
def all : List Component :=
  [wires, keypad, memory, maze, password, bigButton, simon, whosOnFirst, morse, venn,
    wireSequence, needyVentGas, needyCapacitor, needyKnob]

/-- The identifier of a component. -/
def id : Component → String
  | wires => "Wires"
  | keypad => "Keypad"
  | memory => "Memory"
  | maze => "Maze"
  | password => "Password"
  | bigButton => "BigButton"
  | simon => "Simon"
  | whosOnFirst => "WhosOnFirst"
  | morse => "Morse"
  | venn => "Venn"
  | wireSequence => "WireSequence"
  | needyVentGas => "NeedyVentGas"
  | needyCapacitor => "NeedyCapacitor"
  | needyKnob => "NeedyKnob"

/-- The name under which a component is shown: its identifier, unless the
manual calls it something else. -/
def displayName : Component → String
  | bigButton => "The Button"
  | simon => "Simon Says"
  | whosOnFirst => "Who's On First"
  | morse => "Morse Code"
  | venn => "Complicated Wires"
  | wireSequence => "Wire Sequence"
  | needyVentGas => "Venting Gas"
  | needyCapacitor => "Capacitor Discharge"
  | needyKnob => "Knob"
  | component => component.id

/-- What a component asks for. -/
def kind : Component → ModuleKind
  | needyVentGas | needyCapacitor | needyKnob => .needy
  | _ => .solvable

/-- The component with an identifier, matched exactly. -/
def ofId? (id : String) : Option Component := all.find? (·.id == id)

/-- A component as a module that every catalog starts with. -/
def asModule (component : Component) : BombModule :=
  ⟨component.id, component.displayName, component.kind, true⟩

theorem mem_all (component : Component) : component ∈ all := by
  cases component <;> decide

/-- Every component is found by its identifier. -/
@[simp] theorem ofId?_id (component : Component) : ofId? component.id = some component := by
  cases component <;> decide

theorem id_of_ofId? {id : String} {component : Component} (h : ofId? id = some component) :
    component.id = id := by
  simpa using List.find?_some h

end Component

end MissionText
