import AudioPatch.Patch.Basic

/-!
# Integrity

Nodes that come with their connections are checked before they make a patch: portlets are
listed under their own numbers, and each connection is listed at both ends, between
declared portlets of one kind.
-/

namespace AudioPatch

namespace Store

variable {σ κ : Type} [Store σ κ]

/-- The portlets of one side are listed under their own numbers. -/
def checkPortlets (id : NodeId) (side : Side) (portlets : Portlets) : Except PatchError Unit :=
  portlets.entries.forM fun (key, portlet) =>
    if key = portlet.id then .ok () else .error (.flawed (.misplaced id side key portlet.id))

/-- A connection that is listed at its source leads to an inlet of the same kind, which
lists it too. -/
def checkSink (s : σ) (kind : PortletKind) (e : Edge) : Except PatchError Unit := do
  match find? s e.sink.node with
  | none => .error (.flawed (.unknownSink e))
  | some sink =>
      let inlet ← sink.inlet e.sink.portlet
      if inlet.kind ≠ kind then .error (.flawed (.kindsDiffer e))
      else if e.source ∉ sink.sourcesAt e.sink.portlet then .error (.flawed (.missingSource e))
      else .ok ()

/-- A connection that is listed at its sink comes from a node that lists it too. -/
def checkSource (s : σ) (e : Edge) : Except PatchError Unit :=
  match find? s e.source.node with
  | none => .error (.flawed (.unknownSource e))
  | some source =>
      if e.sink ∉ source.sinksAt e.source.portlet then .error (.flawed (.missingSink e)) else .ok ()

/-- The connections that leave a node leave from outlets of it and fit in the store. -/
def checkSinks (s : σ) (n : Node) : Except PatchError Unit :=
  n.sinks.entries.forM fun (key, ends) => do
    let outlet ← n.outlet key
    ends.forM fun sink => checkSink s outlet.kind ⟨⟨n.id, key⟩, sink⟩

/-- The connections that arrive at a node arrive at inlets of it and fit in the store. -/
def checkSources (s : σ) (n : Node) : Except PatchError Unit :=
  n.sources.entries.forM fun (key, ends) => do
    let inlet ← n.inlet key
    if inlet.kind = .signal ∧ 1 < ends.length then
      .error (.flawed (.crowded ⟨n.id, key⟩ ends.length))
    else ends.forM fun source => checkSource s ⟨source, n.id, key⟩

/-- A node fits in the store. -/
def checkNode (s : σ) (n : Node) : Except PatchError Unit := do
  checkPortlets n.id .inlet n.inlets
  checkPortlets n.id .outlet n.outlets
  checkSinks s n
  checkSources s n

/-- All nodes fit in the store; the first that does not is reported. -/
def validate (s : σ) : Except PatchError Unit :=
  (nodes s).forM (checkNode s)

/-- Adds a node with the connections that it lists. -/
def place (s : σ) (n : Node) : Except PatchError σ := (insert s n).map (·.2)

/-- The store of nodes that come with their connections. -/
def ofNodes (nodes : List Node) : Except PatchError σ := do
  let s ← nodes.foldlM place (empty : σ)
  validate s
  return s

end Store

namespace Patch

/-- All nodes fit in the patch. -/
def validate (p : Patch) : Except PatchError Unit := Store.validate p

/-- The patch of nodes that come with their connections. -/
def ofNodes (nodes : List Node) : Except PatchError Patch := Store.ofNodes nodes

end Patch

end AudioPatch
