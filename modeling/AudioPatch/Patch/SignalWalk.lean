import AudioPatch.Patch.Basic

/-!
# Walking up the signals

The walk follows signals from nodes to what feeds them, and finishes a node once all its
sources are finished or cut off, so producers come before their consumers. A source that
the walk has entered already is not entered again, which cuts feedback loops. Before it
enters a source it asks whether to.

The path of nodes that are entered and not finished is kept as a list, so that a long
chain of nodes is no deeper for the walk than a short one.
-/

namespace AudioPatch

/-- Of two predicates the stronger one holds less often in a list, if the other one holds
somewhere in it alone. -/
theorem countP_lt_of_imp {α : Type} {p q : α → Bool} {l : List α} {a : α}
    (himp : ∀ x, p x = true → q x = true) (ha : a ∈ l) (hp : ¬ p a) (hq : q a) :
  l.countP p < l.countP q
  := by
  induction l with
  | nil => exact absurd ha List.not_mem_nil
  | cons b rest ih =>
      have hle : rest.countP p ≤ rest.countP q := List.countP_mono_left fun x _ => himp x
      rw [List.countP_cons, List.countP_cons]
      rcases List.mem_cons.mp ha with rfl | ha
      · rw [if_neg hp, if_pos hq]
        omega
      · have hlt := ih ha
        by_cases hb : p b = true
        · rw [if_pos hb, if_pos (himp b hb)]
          omega
        · rw [if_neg hb]
          omega

namespace Patch

/-- The number of nodes that are not in a list. -/
def countOutside (p : Patch) (marked : List NodeId) : Nat :=
  p.ids.countP fun id => !marked.contains id

theorem mem_ids_of_node {p : Patch} {id : NodeId} {n : Node} (h : p.node id = .ok n) :
  id ∈ p.ids
  := by
  simp only [node, Store.node] at h
  split at h
  · rename_i m hm
    have hid : m.id = id := by simpa using List.find?_some hm
    exact hid ▸ List.mem_map_of_mem (List.mem_of_find?_eq_some hm)
  · exact absurd h nofun

theorem countOutside_cons_lt {p : Patch} {id : NodeId} {marked : List NodeId}
    (hid : id ∈ p.ids) (hmarked : ¬ marked.contains id) :
  p.countOutside (id :: marked) < p.countOutside marked
  := by
  apply countP_lt_of_imp (a := id) _ hid
  · simp
  · simpa using hmarked
  · intro x hx
    simp only [List.contains_cons, Bool.not_or, Bool.and_eq_true] at hx
    exact hx.2

end Patch

/-- A node that the walk has entered, with the sources that it has not looked at yet. -/
structure Frame where
  node : NodeId
  pending : List NodeId
deriving DecidableEq, Repr

/-- Enters a node. All its sources must be there. -/
def Frame.enter (p : Patch) (id : NodeId) : Except PatchError Frame :=
  match p.node id with
  | .error e => .error e
  | .ok n =>
      match p.select n.signalSources with
      | .error e => .error e
      | .ok _ => .ok ⟨id, n.signalSources⟩

theorem Frame.mem_ids_of_enter {p : Patch} {id : NodeId} {f : Frame}
    (h : Frame.enter p id = .ok f) :
  id ∈ p.ids
  := by
  simp only [Frame.enter] at h
  split at h
  · exact absurd h nofun
  · rename_i n hn
    exact Patch.mem_ids_of_node hn

/-- How far a walk has come. All lists have the latest node first. -/
structure SignalWalk where
  /-- The nodes that have been entered. -/
  marked : List NodeId := []
  /-- The nodes that are finished. -/
  finished : List NodeId := []
  /-- The nodes that the walk has asked about. -/
  asked : List NodeId := []
deriving DecidableEq, Repr

namespace SignalWalk

/-- The steps that the nodes on a path still need, if nothing more is entered. -/
def work (path : List Frame) : Nat :=
  path.foldr (fun f rest => f.pending.length + 1 + rest) 0

/-- Goes on until every node on the path is finished. The path has the node that was
entered last first. -/
def run (p : Patch) (descend : NodeId → Bool) (path : List Frame) (w : SignalWalk) :
    Except PatchError SignalWalk :=
  match path with
  | [] => .ok w
  | ⟨n, []⟩ :: path => run p descend path { w with finished := n :: w.finished }
  | ⟨n, s :: rest⟩ :: path =>
      if hs : w.marked.contains s then run p descend (⟨n, rest⟩ :: path) w
      else if descend s then
        match hf : Frame.enter p s with
        | .error e => .error e
        | .ok f =>
            have := Patch.countOutside_cons_lt (Frame.mem_ids_of_enter hf) hs
            run p descend (f :: ⟨n, rest⟩ :: path)
              { w with marked := s :: w.marked, asked := s :: w.asked }
      else run p descend (⟨n, rest⟩ :: path) { w with asked := s :: w.asked }
termination_by (p.countOutside w.marked, work path)
decreasing_by
  · exact Prod.Lex.right _ (by simp [work])
  · exact Prod.Lex.right _ (by simp [work])
  · exact Prod.Lex.left _ _ (by assumption)
  · exact Prod.Lex.right _ (by simp [work])

/-- Walks up from one more node, which is entered without a question. -/
def visit (p : Patch) (descend : NodeId → Bool) (w : SignalWalk) (seed : NodeId) :
    Except PatchError SignalWalk := do
  let _ ← p.node seed
  if w.marked.contains seed then return w
  let f ← Frame.enter p seed
  run p descend [f] { w with marked := seed :: w.marked }

/-- The finished nodes, the first one first. -/
def order (w : SignalWalk) : List NodeId := w.finished.reverse

/-- The nodes that the walk has asked about, the first one first. -/
def questions (w : SignalWalk) : List NodeId := w.asked.reverse

end SignalWalk

namespace Patch

/-- Walks up the signals from some nodes, one after the other. -/
def signalWalk (p : Patch) (seeds : List NodeId) (descend : NodeId → Bool) :
    Except PatchError SignalWalk :=
  seeds.foldlM (SignalWalk.visit p descend) {}

/-- The nodes that feed some nodes through signals, producers first. -/
def signalOrder (p : Patch) (seeds : List NodeId) (descend : NodeId → Bool) :
    Except PatchError (List NodeId) :=
  (p.signalWalk seeds descend).map SignalWalk.order

end Patch

end AudioPatch
