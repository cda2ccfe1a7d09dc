import AudioPatch.Compile.Schedule

/-!
# Programs

What a patch is compiled to: for every node its symbols and code, the order in which the
nodes are computed, and the functions that tie them together.
-/

namespace AudioPatch

/-- The function that receives the messages at an inlet. -/
structure Receiver where
  name : String
  body : Option Code := none
deriving DecidableEq

/-- The function of a receiver. A message that its body does not deal with is an error. -/
def Receiver.function (r : Receiver) (node : NodeId) (inlet : PortletId) (g : Globals)
    (debug : Bool) : Function :=
  let body := (r.body.getD .empty).pushText
    s!"throw new Error('Node \"{node}\", inlet \"{inlet}\", unsupported message : ' + {g.messageText}({g.message})"
  let body :=
    if debug then
      body.pushText " + '\\nDEBUG : remember, you must return from message receiver'"
    else body
  .ofMessage r.name g.message (body.pushText ")\n")

/-- How the messages of an outlet are sent. -/
inductive SenderKind where
  /-- By a function of its own, which calls others. -/
  | synthesized
  /-- By the one function that receives them. -/
  | direct
  /-- Not at all. -/
  | null
deriving DecidableEq, Repr

/-- The function that sends the messages of an outlet. -/
structure Sender where
  name : String
  /-- The functions that are called. -/
  targets : List String
  kind : SenderKind
deriving DecidableEq, Repr

/-- A function that calls others with its message. -/
def forwarding (name : String) (targets : List String) (argument : String) : Function :=
  .ofMessage name argument (.concat (targets.map fun t => .ofText s!"{t}({argument})\n"))

/-- The function of a sender, if it has one of its own. -/
def Sender.function? (s : Sender) (g : Globals) : Option Function :=
  if s.kind = .synthesized then some (forwarding s.name s.targets g.message) else none

/-- The state of a node, with the code of the first values of its fields. -/
structure StateObject where
  name : String
  fields : Table String Code
deriving DecidableEq

/-- What a node is compiled to. -/
structure NodeProgram where
  type : String
  signalIns : Table PortletId String := .empty
  signalOuts : Table PortletId String := .empty
  receivers : Table PortletId Receiver := .empty
  senders : Table PortletId Sender := .empty
  state : Option StateObject := none
  loop : Code := .empty
  inletLoops : Table PortletId Code := .empty
  initialization : Code := .empty
deriving DecidableEq

/-- The program of a node, which must be there. -/
def programOf (nodes : Table NodeId NodeProgram) (id : NodeId) : Except CompileError NodeProgram :=
  match nodes.find? id with
  | some program => .ok program
  | none => .error (.patch (.unknownNode id))

/-- The programs with that of a node changed, which must be there. -/
def reviseProgram (nodes : Table NodeId NodeProgram) (id : NodeId)
    (change : NodeProgram → NodeProgram) : Except CompileError (Table NodeId NodeProgram) := do
  let _ ← programOf nodes id
  return nodes.modify id change

/-- A cold group with the function that computes it. -/
structure ColdFunction where
  group : Group
  name : String
  sinkEdges : List Edge
  function : Function
deriving DecidableEq

/-- The function by which the host sends messages to an inlet. -/
structure Caller where
  inlet : Endpoint
  name : String
  targets : List String
  function : Function
deriving DecidableEq

/-- The function by which the host hears the messages of an outlet. -/
structure Listener where
  outlet : Endpoint
  name : String
deriving DecidableEq, Repr

/-- The global code of a program. -/
structure GlobalProgram where
  code : Code
  imports : List Import
  exports : List Export
deriving DecidableEq

/-- What a patch is compiled to. -/
structure Program where
  nodes : Table NodeId NodeProgram
  /-- All nodes, in the order in which they are declared. -/
  order : List NodeId
  hot : Group
  cold : List ColdFunction
  hotLoop : Code
  coldInitialization : Code
  callers : List Caller
  listeners : List Listener
  globalCode : GlobalProgram
deriving DecidableEq

/-- The cold group that feeds an inlet of a hot node. -/
def Program.coldGroupFeeding? (p : Program) (sink : Endpoint) : Option ColdFunction :=
  p.cold.find? fun g => g.sinkEdges.any fun e => e.sink = sink

end AudioPatch
