import AudioPatch.Patch.Store

/-!
# What takes part

Which nodes take part in what is compiled is found by two walks, up the signals and down the
messages.
-/

namespace AudioPatch

/-- A store whose nodes can be walked through. -/
class Graph (γ : Type) (κ : outParam Type) extends Store γ κ where
  /-- The nodes that feed some nodes through signals, producers first. Nodes other than the given
  ones are entered if they satisfy a condition. -/
  signalOrder : γ → List NodeId → (NodeId → Bool) → Except PatchError (List NodeId)
  /-- The nodes that some nodes reach through messages, in the order in which they are reached. -/
  messageOrder : γ → List NodeId → Except PatchError (List NodeId)

namespace Graph

variable {γ κ : Type} [Graph γ κ]

/-- The nodes at which messages start: those that push, then the given ones. -/
def messageSeeds (g : γ) (callers : List NodeId) : List NodeId :=
  callers.foldl (fun seeds id => if seeds.contains id then seeds else seeds ++ [id])
    (Store.pushing g)

/-- The nodes that take part in what is compiled: first those that messages reach, from
the pushing nodes and the given ones, then the others that feed a pulling node. -/
def participants (g : γ) (callers : List NodeId) : Except PatchError (List NodeId) := do
  callers.forM (Store.require g)
  let messages ← messageOrder g (messageSeeds g callers)
  let signals ← signalOrder g (Store.pulling g) fun _ => true
  return messages ++ signals.filter fun id => !messages.contains id

end Graph

end AudioPatch
