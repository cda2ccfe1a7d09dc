import AudioPatch.Compile.Program
import AudioPatch.Patch.Basic

/-!
# Wiring

The passes that give every node its symbols and connect them: a signal inlet refers to the
variable of the outlet that feeds it, and a message outlet calls the receivers of the inlets
that it feeds, its listener, and the cold groups that a message may have changed.

What a pass assigns to a name of a node it also puts into the node's program.
-/

namespace AudioPatch

/-- The names and the programs of the nodes while they are being made. -/
structure Draft where
  names : Names
  nodes : Table NodeId NodeProgram := .empty

namespace Draft

/-- Names what `Names` names, or stops. -/
def declare (d : Draft) (result : Except SymbolError String × Names) :
    Except CompileError (String × Draft) := do
  return (← result.1, { d with names := result.2 })

/-- Assigns a symbol at a portlet of a node, in the names and in the node's program. -/
def wire (d : Draft) (id : NodeId) (kind : SymbolKind) (p : PortletId) (symbol : String)
    (change : NodeProgram → NodeProgram) : Except CompileError Draft := do
  let names ← d.names.declareSymbol id kind (toString p) symbol
  return ⟨names, ← reviseProgram d.nodes id change⟩

/-- Looks up the names and the program of a node, which must be there. -/
def lookUp (d : Draft) (id : NodeId) : Except CompileError Unit := do
  let _ ← d.names.node id
  let _ ← programOf d.nodes id

end Draft

/-- A pass that gives portlets of the nodes their symbols of one kind. -/
structure Pass (σ : Type) where
  kind : SymbolKind
  /-- Whether the names and the program of a node are looked up ahead of its portlets, and so
  also if no portlet gets a symbol. -/
  ahead : Bool
  /-- The portlets that get a symbol. -/
  portlets : Node → List Portlet
  /-- What a portlet gets, by what is named before. -/
  find : Names → Node → PortletId → Except CompileError σ
  symbol : σ → String
  /-- Puts what a portlet gets into the program of its node. -/
  put : PortletId → σ → NodeProgram → NodeProgram

/-- What the pass looks up at a node ahead of the portlets. -/
def Pass.lookAhead {σ : Type} (pass : Pass σ) (d : Draft) (n : Node) : Except CompileError Unit :=
  if pass.ahead then d.lookUp n.id else .ok ()

/-- Runs the pass at a node. -/
def Pass.run {σ : Type} (pass : Pass σ) (d : Draft) (n : Node) : Except CompileError Draft := do
  pass.lookAhead d n
  (pass.portlets n).foldlM
    (fun d portlet => do
      let found ← pass.find d.names n portlet.id
      d.wire n.id pass.kind portlet.id (pass.symbol found) (pass.put portlet.id found))
    d

/-- What the passes go by: the patch without what takes no part, the nodes in the order in
which they are declared, and the hooks. -/
structure Plan (γ : Type) where
  patch : γ
  registry : Registry
  settings : Settings
  order : List NodeId
  schedule : Schedule
  callers : Hooks
  listeners : Hooks

namespace Plan

variable {γ κ : Type} [Graph γ κ]

/-- Runs a pass at one node. -/
def atNode (plan : Plan γ) (pass : Draft → Node → Except CompileError Draft) (d : Draft)
    (id : NodeId) : Except CompileError Draft := do
  pass d (← Store.node plan.patch id)

/-- Runs a pass at every node. -/
def forNodes (plan : Plan γ) (d : Draft) (pass : Draft → Node → Except CompileError Draft) :
    Except CompileError Draft :=
  plan.order.foldlM (plan.atNode pass) d

/-! ### Names -/

/-- Registers a node. -/
def declareNode (plan : Plan γ) (d : Draft) (n : Node) : Except CompileError Draft := do
  let implementation ← plan.registry.get n.type
  let (_, d) ← d.declare (d.names.declareNode n.id n.type implementation.stateFields)
  return { d with nodes := d.nodes.insert n.id { type := n.type } }

/-- Names the cold groups. -/
def declareColdGroups (plan : Plan γ) (d : Draft) : Except CompileError Draft :=
  (List.range plan.schedule.cold.length).foldlM
    (fun d i => do return (← d.declare (d.names.declareColdGroup i)).2) d

/-- The hooks on one side of the nodes that take part. All nodes with callers do. -/
def hooks (plan : Plan γ) : Side → List (NodeId × PortletId)
  | .inlet => plan.callers.pairs
  | .outlet => plan.listeners.pairs.filter fun e => Store.contains plan.patch e.1

/-- Names the hooks on one side, and lists them with their names. -/
def declareHooks (plan : Plan γ) (side : Side) (d : Draft) :
    Except CompileError (List (Endpoint × String) × Draft) :=
  (plan.hooks side).foldlM
    (fun (named, d) (id, q) => do
      let (name, d) ← d.declare (d.names.declareHook side id q)
      return (named ++ [(⟨id, q⟩, name)], d))
    ([], d)

/-- Names everything but the portlets, and lists the listeners. -/
def named (plan : Plan γ) : Except CompileError (List Listener × Draft) := do
  let d ← plan.forNodes { names := { debug := plan.settings.debug } } plan.declareNode
  let d ← plan.declareColdGroups d
  let (listeners, d) ← plan.declareHooks .outlet d
  let (_, d) ← plan.declareHooks .inlet d
  return (listeners.map fun e => ⟨e.1, e.2⟩, d)

/-! ### Signals -/

/-- Gives every signal outlet its variable. -/
def signalOuts : Pass String where
  kind := .signalOut
  ahead := true
  portlets n := n.outletsOf .signal
  find names n outlet := do return (← names.node n.id).signalOutSymbol outlet
  symbol := id
  put outlet symbol program :=
    { program with signalOuts := program.signalOuts.insert outlet symbol }

/-- The variable that feeds a signal inlet. -/
def signalAt (names : Names) (n : Node) (inlet : PortletId) : Except CompileError String := do
  match n.sourcesAt inlet with
  | [] => return names.globals.nullSignal
  | source :: _ => (← names.node source.node).signalOuts.get (toString source.portlet)

/-- Gives every signal inlet the variable that feeds it. -/
def signalIns : Pass String where
  kind := .signalIn
  ahead := false
  portlets n := n.inletsOf .signal
  find := signalAt
  symbol := id
  put inlet symbol program :=
    { program with signalIns := program.signalIns.insert inlet symbol }

/-! ### Messages -/

/-- Whether messages can arrive at an inlet. -/
def isReached (plan : Plan γ) (n : Node) (inlet : Portlet) : Bool :=
  n.sourcesAt inlet.id ≠ [] || plan.callers.contains n.id inlet.id

/-- Gives a receiver to every message inlet at which messages can arrive. -/
def receivers (plan : Plan γ) : Pass String where
  kind := .receiver
  ahead := true
  portlets n := (n.inletsOf .message).filter (plan.isReached n)
  find names n inlet := do return (← names.node n.id).receiverSymbol inlet
  symbol := id
  put inlet symbol program :=
    { program with receivers := program.receivers.insert inlet { name := symbol } }

/-- The name of the receiver at an endpoint. -/
def receiverAt (names : Names) (e : Endpoint) : Except CompileError String := do
  (← names.node e.node).receivers.get (toString e.portlet)

/-- The functions of the cold groups with some of the given nodes, each once. -/
def coldFunctions (plan : Plan γ) (names : Names) (ids : List NodeId) :
    Except CompileError (List String) :=
  let groups := ids.filterMap plan.schedule.groupIndex?
  ((List.range plan.schedule.cold.length).filter groups.contains).mapM fun i =>
    liftM (names.coldGroups.get (toString i))

/-- The functions that a message from an outlet goes to: the receivers that it feeds, the
listener, and the cold groups of the nodes that it reaches. -/
def targetsOf (plan : Plan γ) (names : Names) (n : Node) (outlet : PortletId) :
    Except CompileError (List String) := do
  let sinks := n.sinksAt outlet
  let receivers ← sinks.mapM (receiverAt names)
  let listener ←
    if plan.listeners.contains n.id outlet then do pure [← names.hook .outlet n.id outlet]
    else pure []
  return receivers ++ listener ++ (← plan.coldFunctions names (sinks.map (·.node)))

/-- The sender of an outlet. -/
def senderOf (plan : Plan γ) (names : Names) (n : Node) (outlet : PortletId) :
    Except CompileError Sender := do
  let targets ← plan.targetsOf names n outlet
  if plan.listeners.contains n.id outlet then
    return ⟨(← names.node n.id).senderSymbol outlet, targets, .synthesized⟩
  match targets with
  | [] => return ⟨names.globals.nullReceiver, targets, .null⟩
  | [only] => return ⟨only, targets, .direct⟩
  | _ => return ⟨(← names.node n.id).senderSymbol outlet, targets, .synthesized⟩

/-- Gives every message outlet its sender. -/
def senders (plan : Plan γ) : Pass Sender where
  kind := .sender
  ahead := false
  portlets n := n.outletsOf .message
  find := plan.senderOf
  symbol := Sender.name
  put outlet sender program :=
    { program with senders := program.senders.insert outlet sender }

/-- The caller of an inlet. -/
def callerOf (plan : Plan γ) (names : Names) (id : NodeId) (inlet : PortletId) :
    Except CompileError Caller := do
  let name ← names.hook .inlet id inlet
  let receiver ← receiverAt names ⟨id, inlet⟩
  let targets := receiver :: (← plan.coldFunctions names [id])
  return ⟨⟨id, inlet⟩, name, targets, forwarding name targets names.globals.message⟩

/-- The callers of all hooked inlets. -/
def callersOf (plan : Plan γ) (names : Names) : Except CompileError (List Caller) :=
  plan.callers.pairs.mapM fun (id, inlet) => plan.callerOf names id inlet

/-! ### All passes -/

/-- Gives the portlets of the nodes their symbols. -/
def connected (plan : Plan γ) (d : Draft) : Except CompileError Draft := do
  let d ← plan.forNodes d signalOuts.run
  let d ← plan.forNodes d signalIns.run
  let d ← plan.forNodes d plan.receivers.run
  plan.forNodes d plan.senders.run

/-- Names everything and connects the portlets. -/
def wired (plan : Plan γ) : Except CompileError (List Listener × Draft) := do
  let (listeners, d) ← plan.named
  return (listeners, ← plan.connected d)

end Plan

end AudioPatch
