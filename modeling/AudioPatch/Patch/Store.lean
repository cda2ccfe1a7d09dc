import AudioPatch.Patch.Error

/-!
# Stores of nodes

A store keeps nodes at places, and knows the place of the node with an id. What patches are for is
written once for all stores: how they are edited and checked, and what they are compiled to.
-/

namespace AudioPatch

/-- Something that keeps nodes at places. -/
class Store (σ : Type) (κ : outParam Type) where
  empty : σ
  /-- The nodes, in the order of their places. -/
  nodes : σ → List Node
  /-- Whether the place of an id is known. -/
  contains : σ → NodeId → Bool
  /-- The place of the node with an id. -/
  place? : σ → NodeId → Option κ
  /-- The node at a place. -/
  at? : σ → κ → Option Node
  /-- The node with an id. -/
  find? : σ → NodeId → Option Node := fun s id => (place? s id).bind (at? s)
  /-- The number of a place. -/
  index : σ → κ → Nat
  /-- A node with a new id at a place of its own. -/
  push : (s : σ) → (n : Node) → ¬ contains s n.id → κ × σ
  /-- The node at a place with other connections on one side. -/
  relink : σ → κ → Side → (Links → Links) → σ
  /-- A place without its node, and the id of the node no longer known. -/
  vacate : σ → NodeId → κ → σ
  /-- The nodes with some ids, and the edges between them. -/
  trim : σ → List NodeId → σ

namespace Store

variable {σ κ : Type} [Store σ κ]

/-- The node with an id, which must be there. -/
def node (s : σ) (id : NodeId) : Except PatchError Node :=
  match find? s id with
  | some n => .ok n
  | none => .error (.unknownNode id)

/-- The place of an id must be known. -/
def require (s : σ) (id : NodeId) : Except PatchError Unit :=
  if contains s id then .ok () else .error (.unknownNode id)

/-- The place of an id, which must be known. -/
def locate (s : σ) (id : NodeId) : Except PatchError κ :=
  match place? s id with
  | some k => .ok k
  | none => .error (.unknownNode id)

/-- The node at a place, which must be there. -/
def read (s : σ) (k : κ) : Except PatchError Node :=
  match at? s k with
  | some n => .ok n
  | none => .error (.flawed (.dangling (index s k)))

/-- The nodes with some ids, in the order of the ids. -/
def select (s : σ) (ids : List NodeId) : Except PatchError (List Node) := ids.mapM (node s)

/-- The nodes that have to be computed in every frame. -/
def pulling (s : σ) : List NodeId := ((nodes s).filter (·.pulls)).map (·.id)

/-- The nodes at which messages start. -/
def pushing (s : σ) : List NodeId := ((nodes s).filter (·.pushes)).map (·.id)

/-- All the connections, by source node, outlet, and age. -/
def edges (s : σ) : List Edge := (nodes s).flatMap Node.outgoing

/-- Puts a node with the connections that it lists at a place of its own. -/
def insert (s : σ) (n : Node) : Except PatchError (κ × σ) :=
  if h : contains s n.id then .error (.duplicateNode n.id) else .ok (push s n h)

end Store

end AudioPatch
