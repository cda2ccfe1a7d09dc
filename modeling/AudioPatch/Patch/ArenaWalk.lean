import AudioPatch.Patch.Arena
import AudioPatch.Patch.MessageWalk

/-!
# Walks through arenas

In an arena the walks go from handle to handle. They look ids up in the register as they come to
them, and keep what they have dealt with in bits, one for each cell. A handle that stands for no
node stops a walk.
-/

namespace AudioPatch

/-! ### Bits of cells -/

/-- A bit for each of some cells. -/
abbrev Bits (cells : Nat) := Vector Bool cells

namespace Bits

variable {cells : Nat}

/-- No bit is set. -/
def clear : Bits cells := .replicate cells false

/-- Whether the bit of a cell is set. -/
def has (bits : Bits cells) (k : Nat) : Bool := bits[k]?.getD false

/-- The bits with the one of a cell set or reset. -/
def put (bits : Bits cells) (k : Nat) (bit : Bool) : Bits cells := bits.setIfInBounds k bit

theorem has_put {bits : Bits cells} {k l : Nat} {bit : Bool} (hk : k < cells) :
  (bits.put k bit).has l = if k = l then bit else bits.has l
  := by
  rw [has, put, Vector.getElem?_setIfInBounds]
  by_cases h : k = l
  · rw [if_pos h, if_pos h, if_pos hk]
    rfl
  · rw [if_neg h, if_neg h, has]

theorem lt_of_has {bits : Bits cells} {k : Nat} (h : bits.has k) :
  k < cells
  := by
  rw [has, Option.getD_eq_iff] at h
  rcases h with h | h
  · exact (Vector.getElem?_eq_some_iff.mp h).1
  · cases h.2

/-- The number of cells for which a condition does not hold. -/
def countClear (cells : Nat) (marked : Nat → Bool) : Nat :=
  (List.range cells).countP fun k => !marked k

theorem countClear_le {marked marked' : Nat → Bool} (h : ∀ k, marked k → marked' k) :
  countClear cells marked' ≤ countClear cells marked
  := by
  apply List.countP_mono_left
  intro k _ hk
  cases hm : marked k with
  | false => rfl
  | true => simp [h k hm] at hk

theorem countClear_lt {marked marked' : Nat → Bool} {k : Nat} (h : ∀ k, marked k → marked' k)
    (hk : k < cells) (hnew : ¬ marked k) (hset : marked' k) :
  countClear cells marked' < countClear cells marked
  := by
  apply countP_lt_of_imp (a := k) _ (List.mem_range.mpr hk)
  · simp [hset]
  · simpa using hnew
  · intro l hl
    cases hm : marked l with
    | false => rfl
    | true => simp [h l hm] at hl

end Bits

namespace Arena

theorem lt_length_of_read {a : Arena} {handle : UInt32} {n : Node}
    (h : Store.read a handle = .ok n) :
  handle.toNat < a.cells.length
  := by
  rw [Store.read] at h
  split at h
  · rename_i m hm
    have hm : (a.cells[handle.toNat]?).join = some m := hm
    obtain ⟨hlt, -⟩ := List.getElem?_eq_some_iff.mp (Option.join_eq_some_iff.mp hm)
    exact hlt
  · cases h

/-- The handles of some ids, all of which must be in the register. -/
def locateAll (a : Arena) (ids : List NodeId) : Except PatchError (List UInt32) :=
  ids.mapM (Store.locate a)

end Arena

/-! ### Up the signals -/

/-- A cell that the walk has entered, with the sources that it has not looked at yet. -/
structure HandleFrame where
  handle : UInt32
  pending : List UInt32

/-- Enters a cell. All the sources of its node must be known. -/
def HandleFrame.enter (a : Arena) (handle : UInt32) : Except PatchError HandleFrame := do
  let n ← Store.read a handle
  return ⟨handle, ← a.locateAll n.signalSources⟩

theorem HandleFrame.lt_length_of_enter {a : Arena} {handle : UInt32} {f : HandleFrame}
    (h : HandleFrame.enter a handle = .ok f) :
  handle.toNat < a.cells.length
  := by
  rw [HandleFrame.enter] at h
  cases hn : Store.read a handle with
  | ok n => exact Arena.lt_length_of_read hn
  | error e =>
      rw [hn] at h
      cases h

/-- How far a walk has come. The lists have the latest node first. -/
structure HandleWalk (cells : Nat) where
  /-- The cells that are finished. -/
  appended : Bits cells := .clear
  /-- The cells that have been entered and are not finished. -/
  onPath : Bits cells := .clear
  /-- The nodes that are finished. -/
  finished : List NodeId := []
  /-- The nodes that the walk has asked about. -/
  asked : List NodeId := []

namespace HandleWalk

variable {cells : Nat}

/-- Whether a cell is finished or has been entered. -/
def marks (w : HandleWalk cells) (k : Nat) : Bool := w.appended.has k || w.onPath.has k

/-- A cell is entered. -/
def enter (w : HandleWalk cells) (handle : UInt32) : HandleWalk cells :=
  { w with onPath := w.onPath.put handle.toNat true }

/-- A cell that is finished is left. -/
def leave (w : HandleWalk cells) (handle : UInt32) : HandleWalk cells :=
  { w with onPath := w.onPath.put handle.toNat false }

/-- A cell is left, and its node is finished. -/
def finish (w : HandleWalk cells) (handle : UInt32) (id : NodeId) : HandleWalk cells :=
  { w.leave handle with
    appended := w.appended.put handle.toNat true, finished := id :: w.finished }

/-- The walk asks about a node. -/
def ask (w : HandleWalk cells) (id : NodeId) : HandleWalk cells := { w with asked := id :: w.asked }

/-! ### How long a walk takes -/

variable {w : HandleWalk cells} {handle : UInt32} {id : NodeId}

theorem marks_enter (h : handle.toNat < cells) (k : Nat) :
  (w.enter handle).marks k = if handle.toNat = k then true else w.marks k
  := by
  rw [marks, enter, Bits.has_put h, marks]
  by_cases hk : handle.toNat = k <;> simp [hk]

theorem marks_leave (h : w.appended.has handle.toNat) (k : Nat) :
  (w.leave handle).marks k = w.marks k
  := by
  rw [marks, leave, Bits.has_put (Bits.lt_of_has h), marks]
  by_cases hk : handle.toNat = k
  · simp [← hk, h]
  · simp [hk]

theorem marks_finish (h : handle.toNat < cells) (k : Nat) :
  (w.finish handle id).marks k = if handle.toNat = k then true else w.marks k
  := by
  rw [marks, finish, leave, Bits.has_put h, Bits.has_put h, marks]
  by_cases hk : handle.toNat = k <;> simp [hk]

/-- The cells that are neither finished nor entered. -/
def fresh (w : HandleWalk cells) : Nat := Bits.countClear cells w.marks

theorem fresh_enter_lt (h : handle.toNat < cells) (hnew : ¬ w.marks handle.toNat) :
  (w.enter handle).fresh < w.fresh
  := by
  apply Bits.countClear_lt _ h hnew
  · rw [marks_enter h, if_pos rfl]
  · intro k hk
    rw [marks_enter h, hk, ite_self]

theorem fresh_leave (h : w.appended.has handle.toNat) :
  (w.leave handle).fresh = w.fresh
  := by
  rw [fresh, funext (marks_leave h), fresh]

theorem fresh_finish_le (id : NodeId) (h : handle.toNat < cells) :
  (w.finish handle id).fresh ≤ w.fresh
  := by
  apply Bits.countClear_le
  intro k hk
  rw [marks_finish h, hk, ite_self]

/-- The steps that the cells on a path still need, if nothing more is entered. -/
def work (path : List HandleFrame) : Nat :=
  path.foldr (fun f rest => f.pending.length + 1 + rest) 0

/-- Goes on until every cell on the path is finished. The path has the cell that was entered last
first. -/
def run (a : Arena) (descend : NodeId → Bool) (path : List HandleFrame)
    (w : HandleWalk a.cells.length) : Except PatchError (HandleWalk a.cells.length) :=
  match path with
  | [] => .ok w
  | ⟨handle, []⟩ :: path =>
      if hdone : w.appended.has handle.toNat then
        have := fresh_leave hdone
        run a descend path (w.leave handle)
      else
        match hn : Store.read a handle with
        | .error e => .error e
        | .ok n =>
            have := fresh_finish_le (w := w) n.id (Arena.lt_length_of_read hn)
            run a descend path (w.finish handle n.id)
  | ⟨handle, s :: rest⟩ :: path =>
      if hs : w.marks s.toNat then run a descend (⟨handle, rest⟩ :: path) w
      else
        match Store.read a s with
        | .error e => .error e
        | .ok n =>
            if descend n.id then
              match hf : HandleFrame.enter a s with
              | .error e => .error e
              | .ok f =>
                  have := fresh_enter_lt (HandleFrame.lt_length_of_enter hf) hs
                  run a descend (f :: ⟨handle, rest⟩ :: path) ((w.enter s).ask n.id)
            else run a descend (⟨handle, rest⟩ :: path) (w.ask n.id)
termination_by (w.fresh, work path)
decreasing_by
  · exact Prod.Lex.right' _ (Nat.le_of_eq this) (by simp [work])
  · exact Prod.Lex.right' _ this (by simp [work])
  · exact Prod.Lex.right _ (by simp [work])
  · exact Prod.Lex.left _ _ this
  · exact Prod.Lex.right _ (by simp [work])

/-- Walks up from one more node, which is entered without a question. -/
def visit (a : Arena) (descend : NodeId → Bool) (w : HandleWalk a.cells.length) (seed : NodeId) :
    Except PatchError (HandleWalk a.cells.length) := do
  let handle ← Store.locate a seed
  if w.appended.has handle.toNat then return w
  let f ← HandleFrame.enter a handle
  run a descend [f] (w.enter handle)

/-- The finished nodes, the first one first. -/
def order (w : HandleWalk cells) : List NodeId := w.finished.reverse

/-- The nodes that the walk has asked about, the first one first. -/
def questions (w : HandleWalk cells) : List NodeId := w.asked.reverse

end HandleWalk

/-! ### Down the messages -/

/-- How far a walk down the messages has come. -/
structure HandleReach (cells : Nat) where
  /-- The cells that are reached. -/
  reached : Bits cells := .clear
  /-- The nodes that are reached, with the latest first. -/
  listed : List NodeId := []

namespace HandleReach

variable {cells : Nat}

/-- The node in a cell is reached. -/
def add (w : HandleReach cells) (handle : UInt32) (id : NodeId) : HandleReach cells :=
  ⟨w.reached.put handle.toNat true, id :: w.listed⟩

/-- The cells that are not reached. -/
def fresh (w : HandleReach cells) : Nat := Bits.countClear cells w.reached.has

theorem fresh_add_lt {w : HandleReach cells} {handle : UInt32} (id : NodeId)
    (h : handle.toNat < cells) (hnew : ¬ w.reached.has handle.toNat) :
  (w.add handle id).fresh < w.fresh
  := by
  apply Bits.countClear_lt _ h hnew
  · rw [add, Bits.has_put h, if_pos rfl]
  · intro k hk
    rw [add, Bits.has_put h, hk, ite_self]

/-- Visits the cells of a stack and all that they reach, except the cells reached already. -/
def run (a : Arena) (stack : List UInt32) (w : HandleReach a.cells.length) :
    Except PatchError (HandleReach a.cells.length) :=
  match stack with
  | [] => .ok w
  | handle :: stack =>
      if hdone : w.reached.has handle.toNat then run a stack w
      else
        match hn : Store.read a handle with
        | .error e => .error e
        | .ok n =>
            match a.locateAll n.messageSinks with
            | .error e => .error e
            | .ok sinks =>
                have := fresh_add_lt n.id (Arena.lt_length_of_read hn) hdone
                run a (sinks ++ stack) (w.add handle n.id)
termination_by (w.fresh, stack.length)
decreasing_by
  · exact Prod.Lex.right _ (by simp)
  · exact Prod.Lex.left _ _ this

/-- Visits one more node, which must be known, and all that it reaches. -/
def visit (a : Arena) (w : HandleReach a.cells.length) (seed : NodeId) :
    Except PatchError (HandleReach a.cells.length) := do
  run a [← Store.locate a seed] w

end HandleReach

namespace Arena

/-- Walks up the signals from some nodes, one after the other. -/
def signalWalk (a : Arena) (seeds : List NodeId) (descend : NodeId → Bool) :
    Except PatchError (HandleWalk a.cells.length) :=
  seeds.foldlM (HandleWalk.visit a descend) {}

/-- The nodes that feed some nodes through signals, producers first. -/
def signalOrder (a : Arena) (seeds : List NodeId) (descend : NodeId → Bool) :
    Except PatchError (List NodeId) :=
  (a.signalWalk seeds descend).map HandleWalk.order

/-- The nodes that some nodes reach through messages, one after the other, in the order in which
they are reached. -/
def messageOrder (a : Arena) (seeds : List NodeId) : Except PatchError (List NodeId) :=
  (seeds.foldlM (HandleReach.visit a) {}).map fun w => w.listed.reverse

end Arena

instance : Graph Arena UInt32 where
  signalOrder := Arena.signalOrder
  messageOrder := Arena.messageOrder

/-- The nodes that take part in what is compiled. -/
def Arena.participants (a : Arena) (callers : List NodeId) : Except PatchError (List NodeId) :=
  Graph.participants a callers

end AudioPatch
