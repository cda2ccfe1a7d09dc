import AudioPatch.Patch.Store

/-!
# Patches

A patch keeps its nodes in slots. A new node takes a new slot at the end, and the slot of a
node that is removed stays empty, so the number of a slot is a handle that never comes to
mean another node. No two nodes of a patch have one id.
-/

namespace AudioPatch

/-- Nodes in the order in which they were added, with the slots of removed ones empty. -/
structure Patch where
  slots : List (Option Node)
  /-- No two nodes have one id. -/
  distinct : ((slots.filterMap id).map Node.id).Nodup
deriving DecidableEq

namespace Patch

/-- The patch without nodes. -/
def empty : Patch := ⟨[], .nil⟩

/-- The nodes, in the order of their slots. -/
def nodes (p : Patch) : List Node := p.slots.filterMap id

/-- The ids of the nodes. -/
def ids (p : Patch) : List NodeId := p.nodes.map (·.id)

/-- The node with an id. -/
def find? (p : Patch) (id : NodeId) : Option Node := p.nodes.find? (·.id = id)

/-- Whether there is a node with an id. -/
def contains (p : Patch) (id : NodeId) : Bool := p.nodes.any (·.id = id)

/-- The slot of the node with an id. -/
def slot? (p : Patch) (id : NodeId) : Option Nat :=
  p.slots.findIdx? fun s => s.any (·.id = id)

/-- The node in a slot. -/
def at? (p : Patch) (slot : Nat) : Option Node := (p.slots[slot]?).join

/-- The number of nodes. -/
def size (p : Patch) : Nat := p.nodes.length

/-! ### Changing slots -/

/-- A node with a new id leaves the ids distinct. -/
theorem distinct_append {p : Patch} {n : Node} (hn : ¬ p.contains n.id) :
  (((p.slots ++ [some n]).filterMap id).map Node.id).Nodup
  := by
  rw [List.filterMap_append, List.map_append]
  apply List.nodup_append.mpr
  refine ⟨p.distinct, by simp, ?_⟩
  intro a ha b hb
  obtain ⟨m, hm, rfl⟩ := List.mem_map.mp ha
  obtain rfl : b = n.id := by simpa using hb
  intro heq
  apply hn
  apply List.any_eq_true.mpr
  exact ⟨m, hm, by simpa using heq⟩

/-- Nodes that are changed without their ids, or taken out, leave the ids distinct. -/
theorem distinct_map {p : Patch} {f : Node → Option Node}
    (hf : ∀ n, ∀ m ∈ f n, m.id = n.id) :
  (((p.slots.map (·.bind f)).filterMap id).map Node.id).Nodup
  := by
  have hslots : ((p.slots.map (·.bind f)).filterMap id).map Node.id
      = p.nodes.filterMap fun n => (f n).map Node.id := by
    rw [nodes, List.filterMap_map, List.map_filterMap, List.filterMap_filterMap]
    congr 1
    funext s
    cases s <;> rfl
  rw [hslots]
  have hids : (p.nodes.map Node.id).Nodup := p.distinct
  apply List.Pairwise.filterMap _ _ (List.pairwise_map.mp hids)
  intro a b hab x hx y hy
  obtain ⟨m, hm, rfl⟩ := Option.map_eq_some_iff.mp hx
  obtain ⟨n, hn, rfl⟩ := Option.map_eq_some_iff.mp hy
  rw [hf a m hm, hf b n hn]
  apply hab

/-- The patch with a new node in a slot at the end. -/
def append (p : Patch) (n : Node) (hn : ¬ p.contains n.id) : Patch :=
  ⟨p.slots ++ [some n], distinct_append hn⟩

/-- Every node changed without its id, or taken out of its slot. -/
def mapNodes (p : Patch) (f : Node → Option Node) (hf : ∀ n, ∀ m ∈ f n, m.id = n.id) : Patch :=
  ⟨p.slots.map (·.bind f), distinct_map hf⟩

/-- The node with an id replaced by one with that id. -/
def modify (p : Patch) (id : NodeId) (f : Node → Node) (hf : ∀ n, (f n).id = n.id) : Patch :=
  p.mapNodes (fun n => some (if n.id = id then f n else n)) fun n m hm => by
    obtain rfl := Option.some.inj hm
    split
    · apply hf
    · rfl

/-- The node with an id, with other sinks. -/
def modifySinks (p : Patch) (id : NodeId) (f : Links → Links) : Patch :=
  p.modify id (fun n => { n with sinks := f n.sinks }) fun _ => rfl

/-- The node with an id, with other sources. -/
def modifySources (p : Patch) (id : NodeId) (f : Links → Links) : Patch :=
  p.modify id (fun n => { n with sources := f n.sources }) fun _ => rfl

/-- The node in a slot with other connections on one side. -/
def relink (p : Patch) (slot : Nat) (side : Side) (f : Links → Links) : Patch :=
  match p.at? slot with
  | none => p
  | some n => p.modify n.id (·.relink side f) fun _ => Node.id_relink

/-- The node with an id taken out of its slot. -/
def vacate (p : Patch) (id : NodeId) : Patch :=
  p.mapNodes (fun n => if n.id ≠ id then some n else none) fun n m hm => by
    obtain ⟨-, rfl⟩ : n.id ≠ id ∧ n = m := by simpa using hm
    rfl

/-- Keeps the nodes with some ids, and the edges between them. -/
def trim (p : Patch) (ids : List NodeId) : Patch :=
  p.mapNodes (fun n => if ids.contains n.id then some (n.restrict ids.contains) else none)
    fun n m hm => by
      obtain ⟨-, rfl⟩ : n.id ∈ ids ∧ n.restrict ids.contains = m := by simpa using hm
      rfl

end Patch

/-- The places of a patch are its slots. -/
instance : Store Patch Nat where
  empty := .empty
  nodes := Patch.nodes
  contains := Patch.contains
  place? := Patch.slot?
  at? := Patch.at?
  find? := Patch.find?
  index _ slot := slot
  push p n hn := (p.slots.length, p.append n hn)
  relink := Patch.relink
  vacate p id _ := p.vacate id
  trim := Patch.trim

namespace Patch

/-- The node with an id, which must be there. -/
def node (p : Patch) (id : NodeId) : Except PatchError Node := Store.node p id

/-- The nodes with some ids, in the order of the ids. -/
def select (p : Patch) (ids : List NodeId) : Except PatchError (List Node) := Store.select p ids

/-- The nodes that have to be computed in every frame. -/
def pulling (p : Patch) : List NodeId := Store.pulling p

/-- The nodes at which messages start. -/
def pushing (p : Patch) : List NodeId := Store.pushing p

/-- All the connections, by source node, outlet, and age. -/
def edges (p : Patch) : List Edge := Store.edges p

end Patch

end AudioPatch
