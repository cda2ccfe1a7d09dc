import AudioPatch.Numeral.Binary
import AudioPatch.Table

/-!
# Nodes

A node is a unit of a patch. It has inlets and outlets, each for a signal or for messages,
and lists the connections at them from its own side.
-/

namespace AudioPatch

/-- The name of a node in its patch. -/
abbrev NodeId := String

/-- The number of an inlet or outlet at its node. -/
abbrev PortletId := UInt32

/-- The two sides of a node. -/
inductive Side where
  | inlet
  | outlet
deriving DecidableEq, Repr

/-- The side in words. -/
def Side.name : Side → String
  | .inlet => "inlet"
  | .outlet => "outlet"

/-- What flows through an inlet or outlet. -/
inductive PortletKind where
  /-- A value for every frame. -/
  | signal
  /-- Messages, now and then. -/
  | message
deriving DecidableEq, Repr

/-- The kind in words. -/
def PortletKind.name : PortletKind → String
  | .signal => "signal"
  | .message => "message"

/-- An inlet or outlet. -/
structure Portlet where
  id : PortletId
  kind : PortletKind
deriving DecidableEq, Repr

/-- One end of a connection. -/
structure Endpoint where
  node : NodeId
  portlet : PortletId
deriving DecidableEq, Repr

/-- An endpoint as it is written. -/
def Endpoint.print (e : Endpoint) : String := s!"{e.node}:{e.portlet}"

/-- A connection from an outlet to an inlet. -/
structure Edge where
  source : Endpoint
  sink : Endpoint
deriving DecidableEq, Repr

/-- An argument that a node is made with. -/
inductive Argument where
  | number (x : Binary .double)
  | symbol (s : String)
deriving DecidableEq

/-- The portlets of a node on one side, by their numbers. -/
abbrev Portlets := Table PortletId Portlet

/-- The far ends of the connections at the portlets of one side. -/
abbrev Links := Table PortletId (List Endpoint)

namespace Links

/-- The far ends at a portlet. -/
def ends (links : Links) (p : PortletId) : List Endpoint := (links.find? p).getD []

/-- All the connections, portlet by portlet. -/
def flatten (links : Links) : List (PortletId × Endpoint) :=
  links.entries.flatMap fun e => e.2.map (e.1, ·)

/-- One more far end at a portlet, after the others. -/
def add (links : Links) (p : PortletId) (e : Endpoint) : Links :=
  links.insert p (links.ends p ++ [e])

/-- A far end taken away from a portlet. A portlet that it leaves without connections is
no longer listed. -/
def remove (links : Links) (p : PortletId) (e : Endpoint) : Links :=
  match links.find? p with
  | none => links
  | some ends =>
      let rest := ends.filter (· ≠ e)
      if rest = [] then links.erase p else links.insert p rest

/-- The connections to some nodes. A portlet without any is not listed. -/
def restrict (links : Links) (keep : NodeId → Bool) : Links :=
  (links.map fun _ ends => ends.filter fun e => keep e.node).filter fun _ ends => ends ≠ []

end Links

/-- A node of a patch. -/
structure Node where
  id : NodeId
  type : String
  args : List Argument := []
  inlets : Portlets := .empty
  outlets : Portlets := .empty
  /-- The outlets that feed each inlet. -/
  sources : Links := .empty
  /-- The inlets that each outlet feeds. -/
  sinks : Links := .empty
  /-- Whether the node has to be computed in every frame, as an audio output has. -/
  pulls : Bool := false
  /-- Whether messages start at the node. -/
  pushes : Bool := false
deriving DecidableEq

namespace Node

/-- The node with an inlet, in place of one with that number. -/
def withInlet (n : Node) (p : Portlet) : Node := { n with inlets := n.inlets.insert p.id p }

/-- The node with an outlet, in place of one with that number. -/
def withOutlet (n : Node) (p : Portlet) : Node := { n with outlets := n.outlets.insert p.id p }

/-- The outlets that feed an inlet. -/
def sourcesAt (n : Node) (inlet : PortletId) : List Endpoint := n.sources.ends inlet

/-- The inlets that an outlet feeds. -/
def sinksAt (n : Node) (outlet : PortletId) : List Endpoint := n.sinks.ends outlet

/-- The inlets of a kind. -/
def inletsOf (n : Node) (kind : PortletKind) : List Portlet :=
  n.inlets.values.filter (·.kind = kind)

/-- The outlets of a kind. -/
def outletsOf (n : Node) (kind : PortletKind) : List Portlet :=
  n.outlets.values.filter (·.kind = kind)

/-- The nodes that feed the signal inlets, inlet by inlet. -/
def signalSources (n : Node) : List NodeId :=
  (n.inletsOf .signal).flatMap fun p => (n.sourcesAt p.id).map (·.node)

/-- The nodes that the signal outlets feed, outlet by outlet. -/
def signalSinks (n : Node) : List NodeId :=
  (n.outletsOf .signal).flatMap fun p => (n.sinksAt p.id).map (·.node)

/-- The nodes that the message outlets feed, outlet by outlet. -/
def messageSinks (n : Node) : List NodeId :=
  (n.outletsOf .message).flatMap fun p => (n.sinksAt p.id).map (·.node)

/-- The connections that arrive at the node. -/
def incoming (n : Node) : List Edge :=
  n.sources.flatten.map fun e => ⟨e.2, n.id, e.1⟩

/-- The connections that leave the node. -/
def outgoing (n : Node) : List Edge :=
  n.sinks.flatten.map fun e => ⟨⟨n.id, e.1⟩, e.2⟩

/-- The node without its connections. -/
def bare (n : Node) : Node := { n with sources := .empty, sinks := .empty }

/-- The node with other connections on one side. -/
def relink (n : Node) (side : Side) (f : Links → Links) : Node :=
  match side with
  | .inlet => { n with sources := f n.sources }
  | .outlet => { n with sinks := f n.sinks }

theorem id_relink {n : Node} {side : Side} {f : Links → Links} :
  (n.relink side f).id = n.id
  := by
  cases side <;> rfl

/-- The node with the connections to some nodes only. -/
def restrict (n : Node) (keep : NodeId → Bool) : Node :=
  { n with sources := n.sources.restrict keep, sinks := n.sinks.restrict keep }

end Node

end AudioPatch
