import AudioPatch.Compile.GlobalCode

/-!
# Implementations

An implementation says what code the nodes of a type have. A registry holds one for each
type.
-/

namespace AudioPatch

/-- What an implementation can see of a node. -/
structure NodeContext where
  node : Node
  names : NodeNames
  globals : Globals
  settings : Settings

/-- The code of the nodes of one type. -/
structure Implementation where
  /-- The fields of the state, if there is one. -/
  stateFields : Option (List String) := none
  /-- Whether the signals that go out depend on nothing but those that come in. -/
  isPure : Bool := false
  /-- The code of the first values of the state fields. -/
  state : NodeContext → Except CompileError (Table String Code) := fun _ => .ok .empty
  /-- The code that is run once. -/
  initialization : NodeContext → Except CompileError Code := fun _ => .ok .empty
  /-- The code that is run in every frame. -/
  loop : NodeContext → Except CompileError Code := fun _ => .ok .empty
  /-- The code that is run when the signal at an inlet is new. -/
  inletLoops : NodeContext → Except CompileError (Table PortletId Code) := fun _ => .ok .empty
  /-- The code that is run when a message arrives at an inlet. -/
  receivers : NodeContext → Except CompileError (Table PortletId Code) := fun _ => .ok .empty
  /-- The global code that the nodes need. -/
  dependencies : List Definition := []

/-- The implementations of node types. -/
abbrev Registry := Table String Implementation

/-- The implementation of a node type. -/
def Registry.get (r : Registry) (type : String) : Except CompileError Implementation :=
  match r.find? type with
  | some i => .ok i
  | none => .error (.unknownType type)

end AudioPatch
