import AudioPatch.Patch.Error
import AudioPatch.Symbol.Scope

/-!
# Names

Every symbol that generated code uses. The symbols of a node start with its stem: the
node's id, with its type before it when names are to be readable, and `n_` before a digit.
No two nodes have one stem.

A declaration that fails may already have recorded a stem, so every declaration answers
with the names that are there afterwards.
-/

namespace AudioPatch

/-- The names that all generated code shares. -/
structure Globals where
  /-- The message a receiver is called with. -/
  message : String := "m"
  /-- The frame counter of the block loop. -/
  blockFrame : String := "F"
  /-- The absolute frame count. -/
  frame : String := "FRAME"
  blockSize : String := "BLOCK_SIZE"
  sampleRate : String := "SAMPLE_RATE"
  input : String := "INPUT"
  output : String := "OUTPUT"
  /-- The receiver that does nothing. -/
  nullReceiver : String := "SND_TO_NULL"
  /-- The signal of an inlet without source. -/
  nullSignal : String := "NULL_SIGNAL"
  emptyMessage : String := "EMPTY_MESSAGE"
  /-- The function that shows a message. -/
  messageText : String := "msg_display"
deriving DecidableEq, Repr

/-- The five kinds of symbols that a node has. -/
inductive SymbolKind where
  | signalOut
  | signalIn
  | receiver
  | sender
  | state
deriving DecidableEq, Repr

/-- The symbols of one node. -/
structure NodeNames where
  /-- What all the symbols of the node start with. -/
  stem : String
  signalOuts : Scope String
  signalIns : Scope String
  receivers : Scope String
  senders : Scope String
  state : Scope String
  /-- The name of the state object, if the type of the node has a state. -/
  stateName : Option String
deriving DecidableEq

namespace NodeNames

/-- A node without symbols. -/
def empty (id stem : String) : NodeNames where
  stem := stem
  signalOuts := .empty s!"nodes.{id}.signalOuts"
  signalIns := .empty s!"nodes.{id}.signalIns"
  receivers := .empty s!"nodes.{id}.messageReceivers"
  senders := .empty s!"nodes.{id}.messageSenders"
  state := .empty s!"nodes.{id}.state"
  stateName := none

/-- The variable of a signal outlet. -/
def signalOutSymbol (n : NodeNames) (outlet : UInt32) : String := s!"{n.stem}_OUTS_{outlet}"

/-- The function that receives messages at an inlet. -/
def receiverSymbol (n : NodeNames) (inlet : UInt32) : String := s!"{n.stem}_RCVS_{inlet}"

/-- The function that sends messages from an outlet. -/
def senderSymbol (n : NodeNames) (outlet : UInt32) : String := s!"{n.stem}_SNDS_{outlet}"

/-- The scope of one kind of symbols. -/
def scope (n : NodeNames) : SymbolKind → Scope String
  | .signalOut => n.signalOuts
  | .signalIn => n.signalIns
  | .receiver => n.receivers
  | .sender => n.senders
  | .state => n.state

/-- The names with another scope for one kind of symbols. -/
def withScope (n : NodeNames) (s : Scope String) : SymbolKind → NodeNames
  | .signalOut => { n with signalOuts := s }
  | .signalIn => { n with signalIns := s }
  | .receiver => { n with receivers := s }
  | .sender => { n with senders := s }
  | .state => { n with state := s }

/-- Assigns a symbol of one kind. -/
def declare (n : NodeNames) (kind : SymbolKind) (key value : String) :
    Except SymbolError NodeNames :=
  ((n.scope kind).declare key value).map (n.withScope · kind)

/-- Assigns the accessor of a field of a state object. -/
def declareField (object : String) (n : NodeNames) (field : String) :
    Except SymbolError NodeNames :=
  n.declare .state field s!"{object}.{field}"

/-- A node with the accessors of its state fields. Without a list of fields there is no
state object. -/
def ofFields (id stem : String) : Option (List String) → Except SymbolError NodeNames
  | none => .ok (empty id stem)
  | some fields =>
      let object := s!"{stem}_STATE"
      (fields.foldlM (declareField object) (empty id stem)).map fun n =>
        { n with stateName := some object }

end NodeNames

/-- All the names of a compilation. -/
structure Names where
  globals : Globals := {}
  /-- The symbols of the nodes, by their ids. -/
  nodes : Scope NodeNames := .empty "nodes"
  /-- The listeners of message outlets, by node and outlet. -/
  listeners : Scope (Scope String) := .empty "outletListeners"
  /-- The callers of message inlets, by node and inlet. -/
  callers : Scope (Scope String) := .empty "inletCallers"
  /-- The functions of the cold groups, by position. -/
  coldGroups : Scope String := .empty "coldDspGroups"
  /-- The symbols of global code, by its namespace and a key. -/
  globalCode : Scope (Scope String) := .empty "globalCode"
  /-- Whether the symbols of a node show its type. -/
  debug : Bool
  /-- The stems in use. -/
  stems : List String := []
deriving DecidableEq

/-- A node type as a part of a name: `~` is written `_t`, and what cannot be in a name
is left out. -/
def typeStem (type : String) : String :=
  String.ofList (type.toList.flatMap fun c =>
    if c = '~' then ['_', 't'] else if c.isAlphanum || c = '_' then [c] else [])

/-- The stem of a node. -/
def nodeStem (debug : Bool) (id type : String) : Except SymbolError String := do
  checkNamePart id
  let shown := typeStem type
  let stem := if debug ∧ shown ≠ "" then s!"{shown}_{id}" else id
  return if stem.toList.head?.any Char.isDigit then s!"n_{stem}" else stem

/-- What the symbols of hooks on one side start with. -/
def hookStem : Side → String
  | .inlet => "inletCaller"
  | .outlet => "outletListener"

namespace Names

/-- Registers a node, with its state fields if its type has a state, and answers its stem.
The stem stays in use even if the rest fails. -/
def declareNode (names : Names) (id type : String) (fields : Option (List String)) :
    Except SymbolError String × Names :=
  match nodeStem names.debug id type with
  | .error e => (.error e, names)
  | .ok stem =>
      if stem ∈ names.stems then (.error (.alreadyAssigned "nodes" stem), names)
      else
        let taken := { names with stems := stem :: names.stems }
        match NodeNames.ofFields id stem fields with
        | .error e => (.error e, taken)
        | .ok node =>
            match names.nodes.declare id node with
            | .error e => (.error e, taken)
            | .ok nodes => (.ok stem, { taken with nodes := nodes })

/-- The symbols of a node. -/
def node (names : Names) (id : String) : Except SymbolError NodeNames :=
  names.nodes.get id

/-- Assigns a symbol of a node. -/
def declareSymbol (names : Names) (id : String) (kind : SymbolKind) (key value : String) :
    Except SymbolError Names := do
  let node ← names.nodes.get id
  let nodes ← names.nodes.set id (← node.declare kind key value)
  return { names with nodes := nodes }

/-- Names the function of a cold group. -/
def declareColdGroup (names : Names) (index : Nat) : Except SymbolError String × Names :=
  let symbol := s!"COLD_{index}"
  match names.coldGroups.declare (toString index) symbol with
  | .error e => (.error e, names)
  | .ok groups => (.ok symbol, { names with coldGroups := groups })

/-- A key assigned in the inner scope of a node, which is made if it is missing. The inner
scope stays even if the key is taken. -/
def declareInner (outer : Scope (Scope String)) (id key value : String) :
    Except SymbolError String × Scope (Scope String) :=
  let (inner, outer) := outer.getOrDeclare id (.empty s!"{outer.name}.{id}")
  match inner.declare key value with
  | .error e => (.error e, outer)
  | .ok inner => (.ok value, outer.put id inner)

/-- The symbols of the hooks on one side of the nodes. -/
def hooks (names : Names) : Side → Scope (Scope String)
  | .inlet => names.callers
  | .outlet => names.listeners

/-- The names with other symbols of the hooks on one side. -/
def withHooks (names : Names) (hooks : Scope (Scope String)) : Side → Names
  | .inlet => { names with callers := hooks }
  | .outlet => { names with listeners := hooks }

/-- Names the hook of a message portlet. -/
def declareHook (names : Names) (side : Side) (id : String) (q : UInt32) :
    Except SymbolError String × Names :=
  match checkNamePart id with
  | .error e => (.error e, names)
  | .ok () =>
      let symbol := s!"{hookStem side}_{id}_{q}"
      let (result, hooks) := declareInner (names.hooks side) id (toString q) symbol
      (result, names.withHooks hooks side)

/-- Names the listener of a message outlet. -/
def declareListener (names : Names) : String → UInt32 → Except SymbolError String × Names :=
  names.declareHook .outlet

/-- Names the caller of a message inlet. -/
def declareCaller (names : Names) : String → UInt32 → Except SymbolError String × Names :=
  names.declareHook .inlet

/-- The symbol of the hook of a message portlet. -/
def hook (names : Names) (side : Side) (id : String) (q : UInt32) : Except SymbolError String := do
  (← (names.hooks side).get id).get (toString q)

/-- The symbol of a key of global code, named on its first use. -/
def globalSymbol (names : Names) (space key : String) : Except SymbolError String × Names :=
  match (do checkNamePart space; checkNamePart key) with
  | .error e => (.error e, names)
  | .ok () =>
      let (inner, outer) := names.globalCode.getOrDeclare space (.empty s!"globalCode.{space}")
      let (symbol, inner) := inner.getOrDeclare key s!"{space}_{key}"
      (.ok symbol, { names with globalCode := outer.put space inner })

end Names

end AudioPatch
