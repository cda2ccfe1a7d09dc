import AudioPatch.Compile.Registry
import AudioPatch.Patch.Graph

/-!
# Schedules

Of the nodes that are pulled, some only pass on constants: they are pure, nothing pulls
them directly, and all that feeds them is of that sort too. Such nodes are cold. They are
computed in groups, when a message may have changed something, and the other nodes, the
hot ones, in every frame.
-/

namespace AudioPatch

/-- Nodes that are computed together. -/
structure Group where
  /-- The nodes, producers first. -/
  nodes : List NodeId
  /-- The nodes whose signals are used outside, in the order of their ids. -/
  outNodes : List NodeId
deriving DecidableEq, Repr

/-- Cold nodes with the connections from them to hot nodes. -/
structure ColdGroup where
  group : Group
  sinkEdges : List Edge
deriving DecidableEq, Repr

/-- How the nodes that are pulled are computed. -/
structure Schedule where
  /-- All the nodes. -/
  pulled : Group
  hot : Group
  cold : List ColdGroup
deriving DecidableEq, Repr

/-- Ids in increasing order. -/
def sortIds (ids : List NodeId) : List NodeId := ids.mergeSort fun a b => a ≤ b

namespace Schedule

variable {γ κ : Type} [Graph γ κ]

/-- The cold nodes with one more node considered, after all that feeds it. -/
def classify (g : γ) (registry : Registry) (cold : List NodeId) (id : NodeId) :
    Except CompileError (List NodeId) := do
  let n ← Store.node g id
  let implementation ← registry.get n.type
  return if implementation.isPure && !n.pulls && n.signalSources.all cold.contains
    then cold ++ [id] else cold

/-- The cold nodes among the pulled ones. -/
def coldNodes (g : γ) (registry : Registry) (pulled : List NodeId) :
    Except CompileError (List NodeId) :=
  pulled.foldlM (classify g registry) []

/-- Whether a node is pulled and not cold. -/
def isHot (pulled cold : List NodeId) (id : NodeId) : Bool :=
  pulled.contains id && !cold.contains id

/-- Whether a node feeds a hot node. -/
def feedsHot (pulled cold : List NodeId) (n : Node) : Bool :=
  n.signalSinks.any (isHot pulled cold)

/-- The cold nodes that feed a hot node. -/
def outNodes (g : γ) (pulled cold : List NodeId) : Except PatchError (List NodeId) := do
  return ((← Store.select g cold).filter (feedsHot pulled cold)).map (·.id)

/-- A set of cold nodes that are connected, and those of them that feed a hot node. -/
structure Cluster where
  members : List NodeId
  outs : List NodeId
deriving DecidableEq, Repr

namespace Cluster

/-- Whether two clusters have a node in common. -/
def touches (c d : Cluster) : Bool := d.members.any c.members.contains

/-- Two clusters as one. -/
def union (c d : Cluster) : Cluster := ⟨c.members ++ d.members, c.outs ++ d.outs⟩

end Cluster

/-- The list with its last element put first. -/
def lastFirst {α : Type} (l : List α) : List α := l.getLast?.toList ++ l.dropLast

theorem length_lastFirst {α : Type} (l : List α) :
  (lastFirst l).length = l.length
  := by
  cases l with
  | nil => rfl
  | cons a rest =>
      rw [lastFirst, List.getLast?_cons]
      simp

/-- Clusters with one more: those that it has nodes in common with become one with it. The
waiting clusters are gone through from the front, and the last of them takes the place of one
that is taken away. -/
def absorb (passed : List Cluster) (c : Cluster) (waiting : List Cluster) : List Cluster :=
  match waiting with
  | [] => passed ++ [c]
  | d :: rest =>
      if c.touches d then absorb passed (c.union d) (lastFirst rest)
      else absorb (passed ++ [d]) c rest
termination_by waiting.length
decreasing_by
  · rw [length_lastFirst]
    apply Nat.lt_succ_self
  · apply Nat.lt_succ_self

/-- The clusters with the one that a node is the end of: all the cold nodes that feed it. -/
def gather (g : γ) (cold : List NodeId) (clusters : List Cluster) (out : NodeId) :
    Except PatchError (List Cluster) := do
  let members ← Graph.signalOrder g [out] cold.contains
  return absorb [] ⟨members, [out]⟩ clusters

/-- The connections from a node to hot nodes. -/
def hotEdges (isHot : NodeId → Bool) (n : Node) : List Edge :=
  (n.outletsOf .signal).flatMap fun outlet =>
    ((n.sinksAt outlet.id).filter fun sink => isHot sink.node).map fun sink =>
      ⟨⟨n.id, outlet.id⟩, sink⟩

/-- The group of a cluster. -/
def groupOf (g : γ) (pulled cold : List NodeId) (c : Cluster) :
    Except PatchError ColdGroup := do
  let nodes := pulled.filter c.members.contains
  let outs ← Store.select g (nodes.filter c.outs.contains)
  return ⟨⟨nodes, sortIds c.outs⟩, outs.flatMap (hotEdges (isHot pulled cold))⟩

/-- The place of the first node of a group among the pulled nodes. -/
def rank (pulled : List NodeId) (g : ColdGroup) : Nat :=
  match g.group.nodes with
  | [] => 0
  | first :: _ => pulled.idxOf first

/-- The cold groups of a patch, by their places. -/
def coldGroups (g : γ) (pulled cold : List NodeId) : Except PatchError (List ColdGroup) := do
  let clusters ← (← outNodes g pulled cold).foldlM (gather g cold) []
  let groups ← clusters.mapM (groupOf g pulled cold)
  return groups.mergeSort fun a b => rank pulled a ≤ rank pulled b

/-- The schedule of a patch. -/
def make (g : γ) (registry : Registry) : Except CompileError Schedule := do
  let pulled ← Graph.signalOrder g (Store.pulling g) fun _ => true
  let cold ← coldNodes g registry pulled
  let groups ← coldGroups g pulled cold
  let outs := sortIds (Store.pulling g)
  return {
    pulled := ⟨pulled, outs⟩
    hot := ⟨pulled.filter fun id => !cold.contains id, outs⟩
    cold := groups }

/-- The cold group that a node is in. -/
def groupIndex? (s : Schedule) (id : NodeId) : Option Nat :=
  s.cold.findIdx? fun g => g.group.nodes.contains id

/-- Whether a cold group feeds an inlet of a hot node. -/
def feeds (s : Schedule) (sink : Endpoint) : Bool :=
  s.cold.any fun g => g.sinkEdges.any fun e => e.sink = sink

end Schedule

end AudioPatch
