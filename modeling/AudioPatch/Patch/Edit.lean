import AudioPatch.Patch.Basic

/-!
# Editing a patch

Every edit keeps the two ends of a connection in step: an edge is listed among the sinks of its
source exactly if it is listed among the sources of its sink.

An edit is a program that changes a store in place. It can be refused, and then leaves the store as
it is at that point.
-/

namespace AudioPatch

namespace Store

variable {σ κ α : Type} [Store σ κ]

/-! ### Programs -/

/-- Asks a store something, and leaves it as it is. -/
def ask (question : σ → Except PatchError α) : EStateM PatchError σ α := fun s =>
  match question s with
  | .ok a => .ok a s
  | .error e => .error e s

/-- What a program answers and the store that it leaves, unless it is refused. -/
def outcome (program : EStateM PatchError σ α) (s : σ) : Except PatchError (α × σ) :=
  match program s with
  | .ok a s => .ok (a, s)
  | .error e _ => .error e

/-- The store that a program leaves, whether it is refused or not. -/
def left (program : EStateM PatchError σ α) (s : σ) : σ :=
  match program s with
  | .ok _ s => s
  | .error _ s => s

/-! ### Edits -/

/-- Adds a node, without the connections that it lists, and answers its place. -/
def add (n : Node) : EStateM PatchError σ κ := do
  let (k, s) ← ask (insert · n.bare)
  set s
  return k

/-- Changes the connections on one side of the node at a place, which must be there. -/
def rewire (k : κ) (side : Side) (change : Links → Links) : EStateM PatchError σ Unit := do
  let _ ← ask fun s : σ => read s k
  modify fun s => relink s k side change

/-- Lists an edge at the places of its nodes, given the kinds of its portlets and the sources that
its inlet has. A signal inlet takes one source, and an edge that is there already is left alone. -/
def join (e : Edge) (source sink : κ) (outlet inlet : PortletKind) (existing : List Endpoint) :
    EStateM PatchError σ Unit :=
  if outlet ≠ inlet then throw (.kindMismatch e outlet inlet)
  else if e.source ∈ existing then pure ()
  else match inlet, existing with
    | .signal, first :: _ => throw (.inletTaken e.sink first)
    | _, _ => do
        rewire source .outlet (·.add e.source.portlet e.sink)
        rewire sink .inlet (·.add e.sink.portlet e.source)

/-- Connects an outlet to an inlet of the same kind. -/
def connect (e : Edge) : EStateM PatchError σ Unit := do
  let source ← ask fun s : σ => locate s e.source.node
  let sink ← ask fun s : σ => locate s e.sink.node
  let n ← ask fun s : σ => read s source
  let outlet ← ask fun _ : σ => n.outlet e.source.portlet
  let m ← ask fun s : σ => read s sink
  let inlet ← ask fun _ : σ => m.inlet e.sink.portlet
  join e source sink outlet.kind inlet.kind (m.sourcesAt e.sink.portlet)

/-- Takes an edge away, if it is there. -/
def disconnect (e : Edge) : EStateM PatchError σ Unit := do
  let source ← ask fun s : σ => locate s e.source.node
  let sink ← ask fun s : σ => locate s e.sink.node
  rewire source .outlet (·.remove e.source.portlet e.sink)
  rewire sink .inlet (·.remove e.sink.portlet e.source)

/-- Takes away all the edges from one node to another. -/
def disconnectNodes (source sink : NodeId) : EStateM PatchError σ Unit := do
  let _ ← ask fun s : σ => locate s sink
  let n ← ask fun s : σ => node s source
  (n.outgoing.filter fun e => e.sink.node = sink).forM disconnect

/-- Takes the node with an id out of its place, which is then empty. -/
def take (id : NodeId) (k : κ) : EStateM PatchError σ Node := fun s =>
  match at? s k with
  | some n => .ok n (vacate s id k)
  | none => .error (.unknownNode id) (vacate s id k)

/-- Takes away a node with all its edges, and answers the node as it is without them. -/
def delete (id : NodeId) : EStateM PatchError σ Node := do
  let k ← ask fun s : σ => locate s id
  let n ← ask fun s : σ => read s k
  (n.incoming ++ n.outgoing).forM disconnect
  take id k

end Store

/-- A change of a patch. -/
inductive Edit where
  | add (n : Node)
  | connect (e : Edge)
  | disconnect (e : Edge)
  | disconnectNodes (source sink : NodeId)
  | delete (id : NodeId)
  | trim (ids : List NodeId)

namespace Edit

variable {σ κ : Type} [Store σ κ]

/-- The program of an edit. -/
def perform : Edit → EStateM PatchError σ Unit
  | .add n => do
      let _ ← Store.add n
  | .connect e => Store.connect e
  | .disconnect e => Store.disconnect e
  | .disconnectNodes source sink => Store.disconnectNodes source sink
  | .delete id => do
      let _ ← Store.delete id
  | .trim ids => modify fun s => Store.trim s ids

end Edit

namespace Store

variable {σ κ : Type} [Store σ κ]

/-- The store after an edit. -/
def after (s : σ) (edit : Edit) : σ := left edit.perform s

/-- The store after a run of edits. -/
def afterAll (s : σ) (edits : List Edit) : σ := edits.foldl after s

/-- The place and the node of an edit that adds one. -/
def addition? (s : σ) : Edit → Option (κ × Node)
  | .add n => (outcome (add n) s).toOption.map fun r => (r.1, n)
  | _ => none

/-- The places that a run of edits gives out, with the nodes that are added. -/
def additions (s : σ) : List Edit → List (κ × Node)
  | [] => []
  | edit :: rest => (addition? s edit).toList ++ additions (after s edit) rest

end Store

/-! ### Edits of patches -/

namespace Patch

open Store (outcome)

/-- Adds a node, and answers its slot. -/
def add (p : Patch) (n : Node) : Except PatchError (Nat × Patch) := outcome (Store.add n) p

/-- Connects an outlet to an inlet. -/
def connect (p : Patch) (e : Edge) : Except PatchError Patch :=
  (outcome (Store.connect e) p).map (·.2)

/-- Takes an edge away, if it is there. -/
def disconnect (p : Patch) (e : Edge) : Except PatchError Patch :=
  (outcome (Store.disconnect e) p).map (·.2)

/-- Takes away all the edges from one node to another. -/
def disconnectNodes (p : Patch) (source sink : NodeId) : Except PatchError Patch :=
  (outcome (Store.disconnectNodes source sink) p).map (·.2)

/-- Takes away a node with all its edges, and answers it. -/
def delete (p : Patch) (id : NodeId) : Except PatchError (Node × Patch) :=
  outcome (Store.delete id) p

/-- The patch that an edit makes, unless the edit is refused. -/
def edit (p : Patch) (edit : Edit) : Except PatchError Patch := (outcome edit.perform p).map (·.2)

/-- The patch after an edit, which may have been refused. -/
def after (p : Patch) (edit : Edit) : Patch := Store.after p edit

/-- The patch after a run of edits. -/
def afterAll (p : Patch) (edits : List Edit) : Patch := Store.afterAll p edits

/-- The slot and the node of an edit that adds one. -/
def addition? (p : Patch) (edit : Edit) : Option (Nat × Node) := Store.addition? p edit

/-- The slots that a run of edits gives out, with the nodes that are added. -/
def additions (p : Patch) (edits : List Edit) : List (Nat × Node) := Store.additions p edits

end Patch

end AudioPatch
