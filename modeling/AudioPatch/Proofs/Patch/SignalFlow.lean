import AudioPatch.Proofs.Patch.Ends
import Mathlib.Logic.Relation

/-!
# Signals between nodes

Which nodes feed which through signals, directly or through others. In a coherent patch this
can be read off the sources of the one node and off the sinks of the other.
-/

namespace AudioPatch.Patch

open Relation

variable {p : Patch} {a b : NodeId}

/-- A node feeds another one if it is a source of a signal inlet of it. -/
def Feeds (p : Patch) (a b : NodeId) : Prop :=
  ∃ n, p.find? b = some n ∧ a ∈ n.signalSources

/-- A node is upstream of another one if it feeds it through any number of nodes, or is that
node itself. -/
abbrev Upstream (p : Patch) : NodeId → NodeId → Prop := ReflTransGen p.Feeds

/-- A node is on a feedback loop if it feeds itself, directly or through others. -/
def OnLoop (p : Patch) (a : NodeId) : Prop := TransGen p.Feeds a a

/-- Two nodes are on a common feedback loop if each feeds the other, directly or through others. -/
def ShareLoop (p : Patch) (a b : NodeId) : Prop :=
  TransGen p.Feeds a b ∧ TransGen p.Feeds b a

/-- A node is pulled if it is upstream of a node that pulls. -/
def Pulled (p : Patch) (a : NodeId) : Prop :=
  ∃ b ∈ p.pulling, p.Upstream a b

/-- A node feeds those that it has among the sinks of its signal outlets. -/
theorem feeds_iff_mem_signalSinks (hp : p.Coherent) :
  p.Feeds a b ↔ ∃ m, p.find? a = some m ∧ b ∈ m.signalSinks
  := by
  constructor
  · rintro ⟨n, hn, ha⟩
    have hmem := mem_nodes_of_find? hn
    obtain ⟨inlet, hinlet, ha⟩ := List.mem_flatMap.mp ha
    obtain ⟨e, he, rfl⟩ := List.mem_map.mp ha
    obtain ⟨hinlet, hsignal⟩ := (hp.mem_inletsOf_iff hmem).mp hinlet
    obtain ⟨inlet', m, outlet, hinlet', hm, houtlet, hkind, hsink⟩ := hp.source_outlet hmem he
    obtain rfl := Option.some.inj (hinlet.symm.trans hinlet')
    have hid := hp.outlet_id m (mem_nodes_of_find? hm) _ _ houtlet
    use m, hm
    apply List.mem_flatMap.mpr
    use outlet
    constructor
    · apply (hp.mem_outletsOf_iff (mem_nodes_of_find? hm)).mpr
      rw [hid]
      exact ⟨houtlet, hkind.trans hsignal⟩
    · rw [hid, ← id_of_find? hn]
      apply List.mem_map_of_mem hsink
  · rintro ⟨m, hm, hb⟩
    have hmem := mem_nodes_of_find? hm
    obtain ⟨outlet, houtlet, hb⟩ := List.mem_flatMap.mp hb
    obtain ⟨e, he, rfl⟩ := List.mem_map.mp hb
    obtain ⟨houtlet, hsignal⟩ := (hp.mem_outletsOf_iff hmem).mp houtlet
    obtain ⟨outlet', n, inlet, houtlet', hn, hinlet, hkind, hsource⟩ := hp.sink_inlet hmem he
    obtain rfl := Option.some.inj (houtlet.symm.trans houtlet')
    have hid := hp.inlet_id n (mem_nodes_of_find? hn) _ _ hinlet
    use n, hn
    apply List.mem_flatMap.mpr
    use inlet
    constructor
    · apply (hp.mem_inletsOf_iff (mem_nodes_of_find? hn)).mpr
      rw [hid]
      exact ⟨hinlet, hkind.trans hsignal⟩
    · rw [hid, ← id_of_find? hm]
      apply List.mem_map_of_mem hsource

/-- In a coherent patch a node is fed by nodes of the patch only. -/
theorem Feeds.mem_ids_left (hp : p.Coherent) (h : p.Feeds a b) :
  a ∈ p.ids
  := by
  obtain ⟨m, hm, -⟩ := (feeds_iff_mem_signalSinks hp).mp h
  apply mem_ids_iff.mpr ⟨m, hm⟩

/-- A connection from a signal outlet. -/
def Carries (p : Patch) (e : Edge) : Prop :=
  p.kindAt? .outlet e.source = some .signal ∧ p.Lists .outlet e

/-- A connection from a signal outlet feeds the node where it ends. -/
theorem Carries.feeds {e : Edge} (hp : p.Coherent) (h : p.Carries e) :
  p.Feeds e.source.node e.sink.node
  := by
  obtain ⟨hkind, hlists⟩ := h
  obtain ⟨n, hn⟩ := mem_ids_iff.mp (mem_ids_of_kindAt? hkind)
  rw [kindAt?_of_find? hn] at hkind
  rw [lists_outlet_iff hn] at hlists
  obtain ⟨outlet, houtlet, hkind⟩ := Option.map_eq_some_iff.mp hkind
  have hmem := mem_nodes_of_find? hn
  have hid := hp.outlet_id n hmem _ _ houtlet
  apply (feeds_iff_mem_signalSinks hp).mpr ⟨n, hn, ?_⟩
  apply List.mem_flatMap.mpr ⟨outlet, ?_, ?_⟩
  · apply (hp.mem_outletsOf_iff hmem).mpr
    rw [hid]
    exact ⟨houtlet, hkind⟩
  · rw [hid]
    apply List.mem_map_of_mem hlists

/-! ### Walking up -/

/-- A step up from a node to one that feeds it and that may be entered. -/
def StepsUp (p : Patch) (descend : NodeId → Bool) (a b : NodeId) : Prop :=
  p.Feeds b a ∧ descend b

/-- Steps up lead from a node to another one. -/
abbrev Reaches (p : Patch) (descend : NodeId → Bool) : NodeId → NodeId → Prop :=
  ReflTransGen (p.StepsUp descend)

/-- All that is reached from a node of the patch is in the patch. -/
theorem Reaches.mem_ids {descend : NodeId → Bool} (hp : p.Coherent) (h : p.Reaches descend a b)
    (ha : a ∈ p.ids) :
  b ∈ p.ids
  := by
  induction h with
  | refl => apply ha
  | tail _ hstep _ => apply hstep.1.mem_ids_left hp

/-- All that is reached from a node is upstream of it. -/
theorem Reaches.upstream {descend : NodeId → Bool} (h : p.Reaches descend a b) :
  p.Upstream b a
  := by
  induction h with
  | refl => apply ReflTransGen.refl
  | tail _ hstep ih => apply ReflTransGen.head hstep.1 ih

/-- A walk up that may enter all nodes upstream of a node gets to all of them. -/
theorem Upstream.reaches {descend : NodeId → Bool} (h : p.Upstream b a)
    (hdescend : ∀ c, p.Upstream c a → descend c) :
  p.Reaches descend a b
  := by
  induction h using ReflTransGen.head_induction_on with
  | refl => apply ReflTransGen.refl
  | head hstep hrest ih =>
      apply ReflTransGen.tail ih
      exact ⟨hstep, hdescend _ (ReflTransGen.head hstep hrest)⟩

theorem reaches_true_iff :
  p.Reaches (fun _ => true) a b ↔ p.Upstream b a
  := ⟨Reaches.upstream, fun h => h.reaches fun _ _ => rfl⟩

theorem mem_ids_of_pulling (h : a ∈ p.pulling) :
  a ∈ p.ids
  := by
  obtain ⟨n, hn, -⟩ := mem_pulling_iff.mp h
  apply mem_ids_iff.mpr ⟨n, hn⟩

theorem Pulled.mem_ids (hp : p.Coherent) (h : p.Pulled a) :
  a ∈ p.ids
  := by
  obtain ⟨b, hb, hup⟩ := h
  apply (reaches_true_iff.mpr hup).mem_ids hp (mem_ids_of_pulling hb)

end AudioPatch.Patch
