import AudioPatch.Patch.Edit
import AudioPatch.Patch.Integrity

/-!
# Arenas

An arena keeps nodes in cells, and the handles of their ids in a register. Handles are machine
words. A node is found by its id through the register, and is changed or taken out in its cell, so
the register and the cells have to be kept in step.
-/

namespace AudioPatch

/-- Nodes in cells, with a register of their handles. -/
structure Arena where
  cells : List (Option Node)
  register : Table NodeId UInt32
deriving DecidableEq

namespace Arena

/-- The arena without nodes. -/
def empty : Arena := ⟨[], .empty⟩

/-- The handle of an id. -/
def handle? (a : Arena) (id : NodeId) : Option UInt32 := a.register.find? id

/-- The node that a handle stands for. -/
def at? (a : Arena) (handle : UInt32) : Option Node := (a.cells[handle.toNat]?).join

/-- The nodes, in the order of their cells. -/
def nodes (a : Arena) : List Node := a.cells.filterMap id

/-- The number of nodes, as the register has it. -/
def size (a : Arena) : Nat := a.register.size

/-- The node in a cell changed, or taken out. -/
def alterAt (a : Arena) (handle : UInt32) (f : Node → Option Node) : Arena :=
  { a with cells := a.cells.modify handle.toNat (·.bind f) }

/-- A node in a new cell at the end, whose number is cut to a machine word. -/
def append (a : Arena) (n : Node) : UInt32 × Arena :=
  let handle := UInt32.ofNat a.cells.length
  (handle, ⟨a.cells ++ [some n], a.register.insert n.id handle⟩)

/-- The node in a cell with other connections on one side. -/
def relink (a : Arena) (handle : UInt32) (side : Side) (f : Links → Links) : Arena :=
  a.alterAt handle fun n => some (n.relink side f)

/-- An empty cell, and an id out of the register. -/
def vacate (a : Arena) (id : NodeId) (handle : UInt32) : Arena :=
  { a.alterAt handle fun _ => none with register := a.register.erase id }

/-- Takes away the nodes that do not satisfy a condition, cell by cell. -/
def retain (a : Arena) (keep : Node → Bool) : Arena where
  cells := a.cells.map (·.filter keep)
  register := (a.nodes.filter fun n => !keep n).foldl (fun t n => t.erase n.id) a.register

/-- Keeps the nodes with some ids, and the edges between them. -/
def trim (a : Arena) (ids : List NodeId) : Arena :=
  let a := a.retain fun n => ids.contains n.id
  { a with cells := a.cells.map (·.map fun n => n.restrict ids.contains) }

end Arena

/-- The places of an arena are its handles. -/
instance : Store Arena UInt32 where
  empty := .empty
  nodes := Arena.nodes
  contains a id := a.register.contains id
  place? := Arena.handle?
  at? := Arena.at?
  index _ handle := handle.toNat
  push a n _ := a.append n
  relink := Arena.relink
  vacate := Arena.vacate
  trim := Arena.trim

namespace Arena

/-- The arena after a run of edits. -/
def afterAll (a : Arena) (edits : List Edit) : Arena := Store.afterAll a edits

/-- The handles that a run of edits gives out, with the nodes that are added. -/
def additions (a : Arena) (edits : List Edit) : List (UInt32 × Node) := Store.additions a edits

/-- All nodes fit in the arena. -/
def validate (a : Arena) : Except PatchError Unit := Store.validate a

/-- The arena of nodes that come with their connections. -/
def ofNodes (nodes : List Node) : Except PatchError Arena := Store.ofNodes nodes

end Arena

end AudioPatch
