import AudioPatch.Patch.Node

/-!
# Faults of a patch

What can be wrong with a patch, or with what is asked of it.
-/

namespace AudioPatch

/-- A contradiction inside a patch. -/
inductive Flaw where
  /-- A portlet is listed under a number that is not its own. -/
  | misplaced (node : NodeId) (side : Side) (key own : PortletId)
  /-- A connection leads to a node that is not there. -/
  | unknownSink (edge : Edge)
  /-- A connection joins a signal with messages. -/
  | kindsDiffer (edge : Edge)
  /-- A connection is listed at its source only. -/
  | missingSource (edge : Edge)
  /-- A signal inlet has several sources. -/
  | crowded (sink : Endpoint) (count : Nat)
  /-- A connection comes from a node that is not there. -/
  | unknownSource (edge : Edge)
  /-- A connection is listed at its sink only. -/
  | missingSink (edge : Edge)
  /-- There is no node where a handle leads. -/
  | dangling (handle : Nat)
deriving DecidableEq, Repr

/-- A connection as it is written. -/
def Edge.print (e : Edge) : String := e.source.print ++ " → " ++ e.sink.print

/-- The contradiction in words. -/
def Flaw.message : Flaw → String
  | .misplaced node side key own => s!"node '{node}' {side.name} {key} declares id {own}"
  | .unknownSink edge => s!"{edge.print}: unknown sink node"
  | .kindsDiffer edge => s!"{edge.print}: portlet kinds differ"
  | .missingSource edge => s!"{edge.print}: missing mirrored source"
  | .crowded sink count => s!"signal inlet {sink.print} has {count} sources"
  | .unknownSource edge => s!"{edge.print}: unknown source node"
  | .missingSink edge => s!"{edge.print}: missing mirrored sink"
  | .dangling handle => s!"dangling handle {handle}"

/-- Why something cannot be done with a patch. -/
inductive PatchError where
  | unknownNode (id : NodeId)
  | unknownInlet (node : NodeId) (portlet : PortletId)
  | unknownOutlet (node : NodeId) (portlet : PortletId)
  | duplicateNode (id : NodeId)
  /-- A connection would join a signal with messages. -/
  | kindMismatch (edge : Edge) (sourceKind sinkKind : PortletKind)
  /-- A signal inlet has a source already. -/
  | inletTaken (sink existing : Endpoint)
  | flawed (flaw : Flaw)
deriving DecidableEq, Repr

/-- The error in words. -/
def PatchError.message : PatchError → String
  | .unknownNode id => s!"node '{id}' not found"
  | .unknownInlet node portlet => s!"node '{node}' has no inlet {portlet}"
  | .unknownOutlet node portlet => s!"node '{node}' has no outlet {portlet}"
  | .duplicateNode id => s!"node '{id}' already exists"
  | .kindMismatch edge sourceKind sinkKind =>
      s!"cannot connect {sourceKind.name} outlet {edge.source.print} to {sinkKind.name} inlet {edge.sink.print}"
  | .inletTaken sink existing =>
      s!"signal inlet {sink.print} already has a source ({existing.print})"
  | .flawed flaw => s!"graph integrity violated: {flaw.message}"

namespace Node

/-- The inlet with a number. -/
def inlet (n : Node) (p : PortletId) : Except PatchError Portlet :=
  match n.inlets.find? p with
  | some portlet => .ok portlet
  | none => .error (.unknownInlet n.id p)

/-- The outlet with a number. -/
def outlet (n : Node) (p : PortletId) : Except PatchError Portlet :=
  match n.outlets.find? p with
  | some portlet => .ok portlet
  | none => .error (.unknownOutlet n.id p)

end Node

end AudioPatch
