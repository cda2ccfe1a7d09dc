import AudioPatch.Compile.Wiring

/-!
# Assembly

The code of the nodes, and how it is put together: the loop of the hot nodes, and for every
cold group a function. Code that depends on the signal at an inlet stands before the loop of
its node, unless a cold group feeds the inlet; then it ends the function of that group.
-/

namespace AudioPatch

namespace Plan

variable {γ : Type}

/-- The state object of a node: its fields must be those of the type of the node. -/
def stateObject (context : NodeContext) (fields : Table String Code) :
    Except CompileError (Option StateObject) :=
  match context.names.stateName with
  | none =>
      if fields.isEmpty then .ok none
      else .error (.missingState context.node.id context.node.type)
  | some name =>
      match fields.keys.find? fun f => !context.names.state.contains f with
      | some field => .error (.unknownField context.node.id field)
      | none => .ok (some ⟨name, fields⟩)

/-- The state of a node. -/
def stateOf (implementation : Implementation) (context : NodeContext) :
    Except CompileError (Option StateObject) := do
  stateObject context (← implementation.state context)

/-- What the implementation of a node can see. -/
def contextOf (plan : Plan γ) (names : Names) (n : Node) : Except CompileError NodeContext := do
  return ⟨n, ← names.node n.id, names.globals, plan.settings⟩

/-- Gives a node its code. Code for messages at an inlet without receiver is not used. -/
def generate (plan : Plan γ) (d : Draft) (n : Node) : Except CompileError Draft := do
  let implementation ← plan.registry.get n.type
  let context ← plan.contextOf d.names n
  let state ← stateOf implementation context
  let initialization ← implementation.initialization context
  let loop ← implementation.loop context
  let inletLoops ← implementation.inletLoops context
  inletLoops.keys.forM fun inlet => do
    let _ ← n.inlet inlet
  let bodies ← implementation.receivers context
  return { d with nodes := ← reviseProgram d.nodes n.id fun program =>
    { program with
      state := state
      initialization := initialization
      loop := loop
      inletLoops := inletLoops
      receivers := program.receivers.map fun inlet receiver =>
        { receiver with body := bodies.find? inlet } } }

/-- The code of a node in the order of computation. -/
def nodeCode (plan : Plan γ) (nodes : Table NodeId NodeProgram) (id : NodeId) :
    Except CompileError Code := do
  let program ← programOf nodes id
  let own := program.inletLoops.entries.filter fun e => !plan.schedule.feeds ⟨id, e.1⟩
  return (Code.concat (own.map (·.2))).append program.loop

/-- The code at the inlet where an edge ends. -/
def sinkCode (nodes : Table NodeId NodeProgram) (e : Edge) : Except CompileError Code := do
  let program ← programOf nodes e.sink.node
  return (program.inletLoops.find? e.sink.portlet).getD .empty

/-- The loop of the hot nodes. -/
def hotLoop (plan : Plan γ) (nodes : Table NodeId NodeProgram) : Except CompileError Code := do
  return .concat (← plan.schedule.hot.nodes.mapM (plan.nodeCode nodes))

/-- The function of a cold group. -/
def coldFunction (plan : Plan γ) (d : Draft) (index : Nat) (g : ColdGroup) :
    Except CompileError ColdFunction := do
  let name ← d.names.coldGroups.get (toString index)
  let loops ← g.group.nodes.mapM (plan.nodeCode d.nodes)
  let sinks ← g.sinkEdges.mapM (sinkCode d.nodes)
  let function := Function.ofMessage name d.names.globals.message (.concat (loops ++ sinks))
  return ⟨g.group, name, g.sinkEdges, function⟩

/-- The functions of the cold groups. -/
def coldFunctionsOf (plan : Plan γ) (d : Draft) : Except CompileError (List ColdFunction) :=
  (plan.schedule.cold.zipIdx).mapM fun (g, i) => plan.coldFunction d i g

end Plan

end AudioPatch
