import AudioPatch.Patch.Graph
import AudioPatch.Patch.SignalWalk

/-!
# Walking down the messages

The walk follows messages from nodes to what they reach. It lists a node when it first
comes to it, before what the node sends to.
-/

namespace AudioPatch

/-- The nodes that a node sends messages to, all of which must be there. -/
def Patch.receivers (p : Patch) (id : NodeId) : Except PatchError (List NodeId) :=
  match p.node id with
  | .error e => .error e
  | .ok n =>
      match p.select n.messageSinks with
      | .error e => .error e
      | .ok _ => .ok n.messageSinks

theorem Patch.mem_ids_of_receivers {p : Patch} {id : NodeId} {sinks : List NodeId}
    (h : p.receivers id = .ok sinks) :
  id ∈ p.ids
  := by
  simp only [Patch.receivers] at h
  split at h
  · exact absurd h nofun
  · rename_i n hn
    exact Patch.mem_ids_of_node hn

/-- Visits the nodes of a stack and all that they reach, except the nodes reached already.
The reached nodes are listed with the latest first. -/
def MessageWalk.run (p : Patch) (stack reached : List NodeId) : Except PatchError (List NodeId) :=
  match stack with
  | [] => .ok reached
  | id :: stack =>
      if hid : reached.contains id then run p stack reached
      else
        match hsinks : p.receivers id with
        | .error e => .error e
        | .ok sinks =>
            have := Patch.countOutside_cons_lt (Patch.mem_ids_of_receivers hsinks) hid
            run p (sinks ++ stack) (id :: reached)
termination_by (p.countOutside reached, stack.length)
decreasing_by
  · exact Prod.Lex.right _ (by simp)
  · exact Prod.Lex.left _ _ (by assumption)

/-- Visits one more node, which must be there, and all that it reaches. -/
def MessageWalk.visitSeed (p : Patch) (reached : List NodeId) (seed : NodeId) :
    Except PatchError (List NodeId) := do
  let _ ← p.node seed
  run p [seed] reached

namespace Patch

/-- The nodes that some nodes reach through messages, one after the other, in the order in which
they are reached. -/
def messageOrder (p : Patch) (seeds : List NodeId) : Except PatchError (List NodeId) :=
  (seeds.foldlM (MessageWalk.visitSeed p) []).map List.reverse

end Patch

instance : Graph Patch Nat where
  signalOrder := Patch.signalOrder
  messageOrder := Patch.messageOrder

namespace Patch

/-- The nodes at which messages start: those that push, then the given ones. -/
def messageSeeds (p : Patch) (callers : List NodeId) : List NodeId := Graph.messageSeeds p callers

/-- The nodes that take part in what is compiled. -/
def participants (p : Patch) (callers : List NodeId) : Except PatchError (List NodeId) :=
  Graph.participants p callers

end Patch

end AudioPatch
