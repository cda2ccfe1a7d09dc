import AudioPatch.Proofs.ListOrder
import AudioPatch.Proofs.Patch.SignalFlow
import Mathlib.Data.List.Perm.Basic
import Mathlib.Logic.Function.Basic

/-!
# Computing nodes

An interpretation says what a node computes from its state and from the values at the outlets
that feed its signal inlets. A computation of nodes, one after the other, changes a memory
that holds the state and the outlets of every node.

* Nodes that do not feed each other can be computed in either order, so two orders that
  differ in such nodes only come to the same memory.
* A node that keeps its state is stable once it has been computed: to compute it again
  changes nothing, until one of its sources is computed.
-/

universe u v

namespace AudioPatch

/-- What a node holds. -/
structure Cell (State : Type u) (Value : Type v) where
  state : State
  /-- The values at the outlets. -/
  outlets : PortletId → Value

/-- What all the nodes hold. -/
abbrev Memory (State : NodeId → Type u) (Value : Type v) :=
  (id : NodeId) → Cell (State id) Value

/-- What a node holds after it has been computed, given its state and, for each of its signal
inlets, the values at the outlets that feed it. -/
abbrev Interpretation (State : NodeId → Type u) (Value : Type v) :=
  (id : NodeId) → State id → List (List Value) → Cell (State id) Value

variable {State : NodeId → Type u} {Value : Type v}

/-- The values that arrive at the signal inlets of a node. -/
def Memory.inputs (m : Memory State Value) (n : Node) : List (List Value) :=
  (n.inletsOf .signal).map fun inlet =>
    (n.sourcesAt inlet.id).map fun e => (m e.node).outlets e.portlet

namespace Patch

/-- One node is computed. -/
def compute (p : Patch) (step : Interpretation State Value) (m : Memory State Value)
    (id : NodeId) : Memory State Value :=
  match p.find? id with
  | none => m
  | some n => Function.update m id (step id (m id).state (m.inputs n))

/-- Nodes are computed one after the other. -/
def run (p : Patch) (step : Interpretation State Value) (ids : List NodeId)
    (m : Memory State Value) : Memory State Value :=
  ids.foldl (p.compute step) m

/-- Nodes are computed in every one of some frames. -/
def frames (p : Patch) (step : Interpretation State Value) (k : Nat) (ids : List NodeId)
    (m : Memory State Value) : Memory State Value :=
  (p.run step ids)^[k] m

variable {p : Patch} {step : Interpretation State Value} {m m' : Memory State Value}
  {a b c : NodeId}

/-! ### One computation -/

/-- A computation changes one node. -/
theorem compute_of_ne (h : b ≠ a) :
  p.compute step m a b = m b
  := by
  cases hn : p.find? a with
  | none => simp only [compute, hn]
  | some n =>
      rw [compute, hn]
      apply Function.update_of_ne h

theorem compute_self {n : Node} (hn : p.find? a = some n) :
  p.compute step m a a = step a (m a).state (m.inputs n)
  := by
  rw [compute, hn]
  apply Function.update_self

/-- What arrives at a node depends on what feeds it. -/
theorem inputs_congr {n : Node} (h : ∀ a ∈ n.signalSources, m a = m' a) :
  m.inputs n = m'.inputs n
  := by
  apply List.map_congr_left
  intro inlet hinlet
  apply List.map_congr_left
  intro e he
  have hsource : e.node ∈ n.signalSources :=
    List.mem_flatMap.mpr ⟨inlet, hinlet, List.mem_map_of_mem he⟩
  rw [h e.node hsource]

/-- What a node computes depends on what it holds and on what feeds it. -/
theorem compute_congr (hself : m a = m' a) (hsources : ∀ b, p.Feeds b a → m b = m' b) :
  p.compute step m a a = p.compute step m' a a
  := by
  cases hn : p.find? a with
  | none => simp only [compute, hn, hself]
  | some n =>
      rw [compute_self hn, compute_self hn, hself, inputs_congr fun b hb => hsources b ⟨n, hn, hb⟩]

/-- A computation does not matter to a node that is another one and is not fed by it. -/
theorem compute_compute_of_not_feeds (hne : b ≠ a) (hfeeds : ¬ p.Feeds a b) :
  p.compute step (p.compute step m a) b b = p.compute step m b b
  := by
  apply compute_congr (compute_of_ne hne)
  intro c hc
  apply compute_of_ne
  rintro rfl
  apply hfeeds hc

/-- Two nodes are independent if neither feeds the other. -/
def Independent (p : Patch) (a b : NodeId) : Prop :=
  a ≠ b ∧ ¬ p.Feeds a b ∧ ¬ p.Feeds b a

/-- Independent nodes can be computed in either order. -/
theorem compute_comm (h : p.Independent a b) :
  p.compute step (p.compute step m a) b = p.compute step (p.compute step m b) a
  := by
  obtain ⟨hne, hab, hba⟩ := h
  funext c
  by_cases hca : c = a
  · subst hca
    rw [compute_of_ne hne, compute_compute_of_not_feeds hne hba]
  · by_cases hcb : c = b
    · subst hcb
      rw [compute_of_ne hca, compute_compute_of_not_feeds hca hab]
    · rw [compute_of_ne hca, compute_of_ne hcb, compute_of_ne hca, compute_of_ne hcb]

/-! ### Orders of computation -/

theorem run_append (l l' : List NodeId) :
  p.run step (l ++ l') m = p.run step l' (p.run step l m)
  := List.foldl_append

/-- A node can be computed before others that it is independent of. -/
theorem run_move_front {l : List NodeId} (h : ∀ b ∈ l, p.Independent a b) :
  p.compute step (p.run step l m) a = p.run step l (p.compute step m a)
  := by
  induction l generalizing m with
  | nil => rfl
  | cons b rest ih =>
      have hrest := ih (fun c hc => h c (List.mem_cons_of_mem b hc)) (m := p.compute step m b)
      have hb := h b List.mem_cons_self
      rw [run, List.foldl_cons]
      apply hrest.trans
      rw [run, run, List.foldl_cons, compute_comm hb]

/-- Two orders of the same nodes come to the same memory if any two nodes that they have in
different order are independent. -/
theorem run_eq_of_perm {l l' : List NodeId} (hl : l.Nodup) (hperm : l.Perm l')
    (h : ∀ a b, [a, b].Sublist l → [b, a].Sublist l' → p.Independent a b) :
  p.run step l m = p.run step l' m
  := by
  induction l generalizing l' m with
  | nil =>
      rw [hperm.nil_eq]
  | cons a rest ih =>
      obtain ⟨ha, hrest⟩ := List.nodup_cons.mp hl
      obtain ⟨front, back, rfl⟩ := List.append_of_mem (hperm.mem_iff.mp List.mem_cons_self)
      have hperm' : rest.Perm (front ++ back) := (hperm.trans List.perm_middle).cons_inv
      -- The nodes in front of the first one are independent of it.
      have hfront : ∀ b ∈ front, p.Independent a b := by
        intro b hb
        have hbrest : b ∈ rest := hperm'.mem_iff.mpr (List.mem_append_left back hb)
        apply h a b ((List.singleton_sublist.mpr hbrest).cons_cons a)
        apply (List.singleton_sublist.mpr hb).append
        apply List.singleton_sublist.mpr List.mem_cons_self
      have hih : p.run step rest (p.compute step m a) =
          p.run step (front ++ back) (p.compute step m a) := by
        apply ih hrest hperm'
        intro b c hbc hcb
        apply h b c (hbc.cons a)
        apply hcb.trans
        apply List.Sublist.append_left (List.sublist_cons_self a back)
      calc p.run step (a :: rest) m
          = p.run step rest (p.compute step m a) := rfl
        _ = p.run step back (p.run step front (p.compute step m a)) := by rw [hih, run_append]
        _ = p.run step back (p.compute step (p.run step front m) a) := by
            rw [run_move_front hfront]
        _ = p.run step (front ++ a :: back) m := by rw [run_append]; rfl

/-! ### Stable nodes -/

/-- A node is stable if to compute it changes nothing. -/
def Stable (p : Patch) (step : Interpretation State Value) (m : Memory State Value)
    (a : NodeId) : Prop :=
  p.compute step m a = m

theorem stable_iff :
  p.Stable step m a ↔ p.compute step m a a = m a
  := by
  constructor
  · intro h
    apply congrFun h a
  · intro h
    funext b
    by_cases hb : b = a
    · subst hb
      apply h
    · apply compute_of_ne hb

/-- A node stays stable when a node is computed that does not feed it. -/
theorem Stable.compute (h : p.Stable step m a) (hne : a ≠ b) (hfeeds : ¬ p.Feeds b a) :
  p.Stable step (p.compute step m b) a
  := by
  rw [stable_iff] at h ⊢
  rw [compute_compute_of_not_feeds hne hfeeds, h, compute_of_ne hne]

theorem Stable.run {l : List NodeId} (h : p.Stable step m a) (hne : a ∉ l)
    (hfeeds : ∀ b ∈ l, ¬ p.Feeds b a) :
  p.Stable step (p.run step l m) a
  := by
  induction l generalizing m with
  | nil => apply h
  | cons b rest ih =>
      obtain ⟨hab, hrest⟩ : a ≠ b ∧ a ∉ rest := by simpa using hne
      obtain ⟨hb, hfeeds⟩ := List.forall_mem_cons.mp hfeeds
      apply ih (h.compute hab hb) hrest hfeeds

/-- To compute stable nodes changes nothing. -/
theorem run_of_stable {l : List NodeId} (h : ∀ a ∈ l, p.Stable step m a) :
  p.run step l m = m
  := by
  induction l with
  | nil => rfl
  | cons a rest ih =>
      obtain ⟨ha, hrest⟩ := List.forall_mem_cons.mp h
      rw [Patch.run, List.foldl_cons, ha]
      apply ih hrest

/-- A node keeps its state when it is computed. -/
def KeepsState (step : Interpretation State Value) (a : NodeId) : Prop :=
  ∀ state inputs, (step a state inputs).state = state

/-- A node that keeps its state and does not feed itself is stable once it is computed. -/
theorem stable_compute (hkeeps : KeepsState step a) (hfeeds : ¬ p.Feeds a a) :
  p.Stable step (p.compute step m a) a
  := by
  rw [stable_iff]
  cases hn : p.find? a with
  | none => simp only [Patch.compute, hn]
  | some n =>
      have hinputs : (p.compute step m a).inputs n = m.inputs n := by
        apply inputs_congr
        intro b hb
        apply compute_of_ne
        rintro rfl
        apply hfeeds ⟨n, hn, hb⟩
      rw [compute_self hn, hinputs, compute_self hn, hkeeps]

/-- Nodes that keep their state and come after all that feeds them are stable once all of them
are computed. -/
theorem stable_run {l : List NodeId} (hl : l.Nodup) (hkeeps : ∀ a ∈ l, KeepsState step a)
    (hbefore : ∀ a ∈ l, ∀ b, p.Feeds b a → [b, a].Sublist l) :
  ∀ a ∈ l, p.Stable step (p.run step l m) a
  := by
  induction l using List.reverseRecOn with
  | nil => simp
  | append_singleton front c ih =>
      have hc : c ∉ front := not_mem_of_split hl rfl
      have hfront : ∀ a ∈ front, ∀ b, p.Feeds b a → [b, a].Sublist front := by
        intro a ha b hb
        rcases pair_sublist_append_singleton_iff.mp
          (hbefore a (List.mem_append_left [c] ha) b hb) with hsub | ⟨-, rfl⟩
        · apply hsub
        · exact absurd ha hc
      have hstable := ih (List.nodup_append.mp hl).1
        (fun a ha => hkeeps a (List.mem_append_left [c] ha)) hfront
      rw [run_append]
      intro a ha
      rcases List.mem_append.mp ha with hafront | hac
      · apply (hstable a hafront).compute
        · rintro rfl
          apply hc hafront
        · intro hca
          apply hc (mem_of_pair_sublist (hfront a hafront c hca)).1
      · obtain rfl := List.mem_singleton.mp hac
        apply stable_compute (hkeeps a (by simp))
        intro haa
        have hsub := hbefore a (by simp) a haa
        apply not_pair_sublist_swap hl hsub hsub

end Patch

end AudioPatch
