import AudioPatch.Proofs.Compile.ColdGroups
import Mathlib.Data.List.Permutation

/-!
# Schedules of valid patches

A valid patch whose pulled nodes have implementations has a schedule.

* Which nodes are cold does not depend on the order of the walk: those with nothing upstream
  that is impure, pulls or is on a feedback loop.
* The cold groups are the connected components of the cold nodes.
-/

namespace AudioPatch

open Relation Patch

/-- A registry covers a patch if it has implementations of all the nodes that are pulled. -/
def Registry.Covers (registry : Registry) (p : Patch) : Prop :=
  ∀ n ∈ p.nodes, p.Pulled n.id → registry.contains n.type

/-! ### A patch with a feedback loop -/

namespace Echo

/-- A signal portlet with a number. -/
def port (id : PortletId) : PortletId × Portlet := (id, ⟨id, .signal⟩)

def level : Node where
  id := "level"
  type := "value"
  outlets := ⟨[port 0], by decide⟩
  sinks := ⟨[(0, [⟨"scale", 0⟩])], by decide⟩

def scale : Node where
  id := "scale"
  type := "gain"
  inlets := ⟨[port 0], by decide⟩
  outlets := ⟨[port 0], by decide⟩
  sources := ⟨[(0, [⟨"level", 0⟩])], by decide⟩
  sinks := ⟨[(0, [⟨"mix", 0⟩])], by decide⟩

def mix : Node where
  id := "mix"
  type := "sum"
  inlets := ⟨[port 0, port 1, port 2], by decide⟩
  outlets := ⟨[port 0], by decide⟩
  sources := ⟨[(0, [⟨"scale", 0⟩]), (1, [⟨"feedback", 0⟩]), (2, [⟨"bias", 0⟩])], by decide⟩
  sinks := ⟨[(0, [⟨"feedback", 0⟩, ⟨"speaker", 0⟩])], by decide⟩

def feedback : Node where
  id := "feedback"
  type := "gain"
  inlets := ⟨[port 0], by decide⟩
  outlets := ⟨[port 0], by decide⟩
  sources := ⟨[(0, [⟨"mix", 0⟩])], by decide⟩
  sinks := ⟨[(0, [⟨"mix", 1⟩])], by decide⟩

def bias : Node where
  id := "bias"
  type := "value"
  outlets := ⟨[port 0], by decide⟩
  sinks := ⟨[(0, [⟨"mix", 2⟩])], by decide⟩

def speaker : Node where
  id := "speaker"
  type := "output"
  inlets := ⟨[port 0], by decide⟩
  sources := ⟨[(0, [⟨"mix", 0⟩])], by decide⟩
  pulls := true

/-- A level that is scaled and mixed with a bias and with what a feedback loop returns. -/
def patch : Patch :=
  ⟨[some level, some scale, some mix, some feedback, some bias, some speaker], by decide⟩

/-- An implementation that keeps no state. -/
def pure : Implementation := { isPure := true }

/-- All the types but that of the speaker are pure. -/
def registry : Registry :=
  ⟨[("gain", pure), ("output", {}), ("sum", pure), ("value", pure)], by decide⟩

theorem valid :
  patch.validate = .ok ()
  := rfl

theorem covers :
  registry.Covers patch
  := by
  have hall : ∀ n ∈ patch.nodes, registry.contains n.type := by decide
  intro n hn _
  apply hall n hn

theorem upstream_level {a : NodeId} (h : patch.Upstream a "level") :
  a = "level"
  := by
  cases h with
  | refl => rfl
  | tail _ hstep =>
      obtain ⟨n, hn, hsource⟩ := hstep
      obtain rfl : level = n := Option.some.inj hn
      cases hsource

theorem not_onLoop_level :
  ¬ patch.OnLoop "level"
  := by
  intro h
  obtain ⟨a, -, n, hn, hsource⟩ := TransGen.tail'_iff.mp h
  obtain rfl : level = n := Option.some.inj hn
  cases hsource

theorem onLoop_mix :
  patch.OnLoop "mix"
  := by
  have hout : patch.Feeds "mix" "feedback" := ⟨feedback, rfl, by decide⟩
  have hback : patch.Feeds "feedback" "mix" := ⟨mix, rfl, by decide⟩
  apply TransGen.tail (TransGen.single hout) hback

theorem mix_upstream :
  patch.Upstream "mix" "speaker"
  := ReflTransGen.single ⟨speaker, rfl, by decide⟩

theorem level_upstream :
  patch.Upstream "level" "speaker"
  := by
  have hscale : patch.Feeds "level" "scale" := ⟨scale, rfl, by decide⟩
  have hmix : patch.Feeds "scale" "mix" := ⟨mix, rfl, by decide⟩
  apply ReflTransGen.head hscale (ReflTransGen.head hmix mix_upstream)

/-- The groups of the level and of the bias are apart: only the mix, which is hot, joins them. -/
def schedule : Schedule where
  pulled := ⟨["level", "scale", "feedback", "bias", "mix", "speaker"], ["speaker"]⟩
  hot := ⟨["feedback", "mix", "speaker"], ["speaker"]⟩
  cold :=
    [⟨⟨["level", "scale"], ["scale"]⟩, [⟨⟨"scale", 0⟩, "mix", 0⟩]⟩,
     ⟨⟨["bias"], ["bias"]⟩, [⟨⟨"bias", 0⟩, "mix", 2⟩]⟩]

theorem schedule_eq :
  Schedule.make patch registry = .ok schedule
  := by cbv

end Echo

namespace Schedule

variable {p : Patch} {registry : Registry} {s : Schedule} {cold : List NodeId} {id : NodeId}

/-- What the schedule of a patch with some cold nodes is. -/
structure Arranges (p : Patch) (registry : Registry) (cold : List NodeId) (s : Schedule) :
    Prop where
  order : p.IsSignalOrder p.pulling (fun _ => true) s.pulled.nodes
  isCold : IsCold p registry s.pulled.nodes cold
  hot_eq : s.hot.nodes = s.pulled.nodes.filter fun id => !cold.contains id
  grouping : IsGrouping p s.pulled.nodes cold s.cold
  increasing : s.cold.Pairwise fun g g' => rank s.pulled.nodes g < rank s.pulled.nodes g'

theorem implemented_of_covers (hp : p.Coherent) (hcovers : registry.Covers p) (h : p.Pulled id) :
  Implemented p registry id
  := by
  obtain ⟨n, hn⟩ := mem_ids_iff.mp (h.mem_ids hp)
  obtain rfl := id_of_find? hn
  have hcontains := hcovers n (mem_nodes_of_find? hn) h
  rw [Table.contains_eq_isSome] at hcontains
  obtain ⟨i, hi⟩ := Option.isSome_iff_exists.mp hcontains
  exact ⟨n, i, hn, hi⟩

/-- A coherent patch that is covered has a schedule. -/
theorem meets_make (hp : p.Coherent) (hcovers : registry.Covers p) :
  Meets (make p registry) (fun s => ∃ cold, Arranges p registry cold s) (fun _ => False)
  := by
  apply (meets_signalOrder hp (fun _ => mem_ids_of_pulling) fun _ => true).liftPatch.bind
  intro pulled _ horder
  have himpl : ∀ id ∈ pulled, Implemented p registry id := by
    intro id hid
    apply implemented_of_covers hp hcovers ((mem_pulled_iff horder).mp hid)
  apply (meets_coldNodes horder.nodup himpl).bind
  intro cold _ hcold
  have hids : ∀ id ∈ pulled, id ∈ p.ids := by
    intro id hid
    apply ((mem_pulled_iff horder).mp hid).mem_ids hp
  apply (meets_coldGroups hp horder hids hcold).liftPatch.bind
  rintro groups - ⟨hgrouping, hincreasing⟩
  exact ⟨cold, horder, hcold, rfl, hgrouping, hincreasing⟩

/-- The pulled nodes are in the order of the walk from all that pulls. -/
theorem signalOrder_pulled (h : make p registry = .ok s) :
  p.signalOrder p.pulling (fun _ => true) = .ok s.pulled.nodes
  := by
  obtain ⟨pulled, hpulled, h⟩ := bind_eq_ok_iff.mp h
  obtain ⟨cold, -, h⟩ := bind_eq_ok_iff.mp h
  obtain ⟨groups, -, ⟨⟩⟩ := bind_eq_ok_iff.mp h
  apply liftPatch_eq_ok_iff.mp hpulled

namespace Arranges

/-- The hot nodes are the pulled nodes that are not cold. -/
theorem mem_hot_iff (h : Arranges p registry cold s) :
  id ∈ s.hot.nodes ↔ id ∈ s.pulled.nodes ∧ id ∉ cold
  := by
  rw [h.hot_eq]
  simp

/-- The cold nodes are the pulled nodes that are not hot. -/
theorem mem_cold_iff (h : Arranges p registry cold s) :
  id ∈ cold ↔ id ∈ s.pulled.nodes ∧ id ∉ s.hot.nodes
  := by
  rw [h.mem_hot_iff]
  constructor
  · intro hid
    exact ⟨h.isCold.sublist.subset hid, fun hhot => hhot.2 hid⟩
  · rintro ⟨hpulled, hnot⟩
    by_contra hid
    apply hnot ⟨hpulled, hid⟩

theorem hot_sublist (h : Arranges p registry cold s) :
  s.hot.nodes.Sublist s.pulled.nodes
  := by
  rw [h.hot_eq]
  apply List.filter_sublist

/-- The hot nodes and the nodes of the cold groups are the pulled nodes, each once. -/
theorem perm_pulled (h : Arranges p registry cold s) :
  (s.hot.nodes ++ s.cold.flatMap fun g => g.group.nodes).Perm s.pulled.nodes
  := by
  have hgroups := h.grouping.perm_cold h.isCold h.order.nodup
  apply (hgroups.append_left s.hot.nodes).trans
  have hcold : cold.Perm (s.pulled.nodes.filter cold.contains) := by
    apply (List.perm_ext_iff_of_nodup (h.isCold.sublist.nodup h.order.nodup)
      (h.order.nodup.filter _)).mpr
    intro id
    rw [List.mem_filter, List.contains_iff_mem]
    exact ⟨fun hid => ⟨h.isCold.sublist.subset hid, hid⟩, And.right⟩
  rw [h.hot_eq]
  apply (hcold.append_left _).trans
  apply List.perm_append_comm.trans
  apply List.filter_append_perm

/-- A node feeds a hot node if it has it among the sinks of its signal outlets. -/
theorem feedsHot_iff_sinks (h : Arranges p registry cold s) (hp : p.Coherent) :
  FeedsHot p s.pulled.nodes cold id ↔
    ∃ n, p.find? id = some n ∧ ∃ b ∈ n.signalSinks, b ∈ s.hot.nodes
  := by
  simp only [FeedsHot, feeds_iff_mem_signalSinks hp, h.mem_hot_iff]
  constructor
  · rintro ⟨b, hb, hbcold, n, hn, hsink⟩
    exact ⟨n, hn, b, hsink, hb, hbcold⟩
  · rintro ⟨n, hn, b, hsink, hb, hbcold⟩
    exact ⟨b, hb, hbcold, n, hn, hsink⟩

/-- The first node of a group comes before the first node of every later group. -/
theorem first_lt_first (h : Arranges p registry cold s) :
  s.cold.Pairwise fun g g' => ∀ a ∈ g.group.nodes.head?, ∀ b ∈ g'.group.nodes.head?,
    s.pulled.nodes.idxOf a < s.pulled.nodes.idxOf b
  := by
  apply h.increasing.imp
  intro g g' hlt a ha b hb
  obtain ⟨rest, hrest⟩ := List.head?_eq_some_iff.mp ha
  obtain ⟨rest', hrest'⟩ := List.head?_eq_some_iff.mp hb
  rw [rank, rank, hrest, hrest'] at hlt
  apply hlt

end Arranges

/-! ### Which nodes are cold -/

/-- A valid patch that is covered has a schedule of its pulled nodes. A pulled node is cold
exactly if all that is upstream of it is passive and on no feedback loop; so what is on a
feedback loop is hot, and so is all that is downstream of one. -/
theorem not_hot_iff_upstream_passive (hp : p.validate = .ok ()) (hcovers : registry.Covers p) :
  ∃ s, make p registry = .ok s ∧
    (∀ id, id ∈ s.pulled.nodes ↔ p.Pulled id) ∧
    (∀ id ∈ s.pulled.nodes,
      id ∉ s.hot.nodes ↔ ∀ a, p.Upstream a id → Passive p registry a ∧ ¬ p.OnLoop a) ∧
    (∀ a id, p.OnLoop a → p.Upstream a id → id ∈ s.pulled.nodes → id ∈ s.hot.nodes)
  := by
  obtain ⟨s, hs, cold, h⟩ := Meets.never_iff.mp (meets_make (coherent_of_validate hp) hcovers)
  have hiff : ∀ id ∈ s.pulled.nodes,
      id ∉ s.hot.nodes ↔ ∀ a, p.Upstream a id → Passive p registry a ∧ ¬ p.OnLoop a := by
    intro id hid
    rw [← h.isCold.mem_iff_upstream h.order hid, h.mem_cold_iff, and_iff_right hid]
  refine ⟨s, hs, fun id => mem_pulled_iff h.order, hiff, ?_⟩
  intro a id hloop hup hid
  by_contra hhot
  apply ((hiff id hid).mp hhot a hup).2 hloop

/-- The mix of an echo is hot though it is pure, and its level is cold. -/
theorem not_hot_iff_upstream_passive_echo :
  Echo.patch.validate = .ok () ∧ Echo.registry.Covers Echo.patch ∧
    ∃ s, make Echo.patch Echo.registry = .ok s ∧
      "mix" ∈ s.hot.nodes ∧ "level" ∈ s.pulled.nodes ∧ "level" ∉ s.hot.nodes
  := by
  refine ⟨Echo.valid, Echo.covers, ?_⟩
  obtain ⟨s, hs, hpulled, hcold, hloop⟩ := not_hot_iff_upstream_passive Echo.valid Echo.covers
  have hmix := (hpulled "mix").mpr ⟨"speaker", by decide, Echo.mix_upstream⟩
  have hlevel := (hpulled "level").mpr ⟨"speaker", by decide, Echo.level_upstream⟩
  refine ⟨s, hs, hloop "mix" "mix" Echo.onLoop_mix ReflTransGen.refl hmix, hlevel, ?_⟩
  apply (hcold "level" hlevel).mpr
  intro a ha
  obtain rfl := Echo.upstream_level ha
  exact ⟨⟨Echo.level, Echo.pure, rfl, rfl, rfl, by decide⟩, Echo.not_onLoop_level⟩

/-! ### What the cold groups are -/

/-- A valid patch that is covered has a schedule that parts its pulled nodes into the hot ones
and the cold groups, and the cold groups are the connected components of the cold nodes. -/
theorem cold_groups_are_components (hp : p.validate = .ok ()) (hcovers : registry.Covers p) :
  ∃ s, make p registry = .ok s ∧
    p.signalOrder p.pulling (fun _ => true) = .ok s.pulled.nodes ∧
    s.pulled.nodes.Nodup ∧
    (s.hot.nodes ++ s.cold.flatMap fun g => g.group.nodes).Perm s.pulled.nodes ∧
    (∀ a b, a ∈ s.pulled.nodes → a ∉ s.hot.nodes → b ∈ s.pulled.nodes → b ∉ s.hot.nodes →
      ((∃ g ∈ s.cold, a ∈ g.group.nodes ∧ b ∈ g.group.nodes) ↔
        Linked p (fun id => id ∈ s.pulled.nodes ∧ id ∉ s.hot.nodes) a b)) ∧
    s.hot.nodes.Sublist s.pulled.nodes ∧
    (∀ g ∈ s.cold, g.group.nodes.Sublist s.pulled.nodes) ∧
    (∀ g ∈ s.cold, g.group.outNodes ≠ [] ∧ g.group.outNodes.Pairwise (· < ·) ∧
      ∀ id, id ∈ g.group.outNodes ↔ id ∈ g.group.nodes ∧
        ∃ n, p.find? id = some n ∧ ∃ b ∈ n.signalSinks, b ∈ s.hot.nodes) ∧
    s.cold.Pairwise fun g g' => ∀ a ∈ g.group.nodes.head?, ∀ b ∈ g'.group.nodes.head?,
      s.pulled.nodes.idxOf a < s.pulled.nodes.idxOf b
  := by
  have hp := coherent_of_validate hp
  obtain ⟨s, hs, cold, h⟩ := Meets.never_iff.mp (meets_make hp hcovers)
  refine ⟨s, hs, signalOrder_pulled hs, h.order.nodup, h.perm_pulled, ?_, h.hot_sublist, ?_, ?_,
    h.first_lt_first⟩
  · intro a b ha hahot _ _
    have hcold : (fun id => id ∈ s.pulled.nodes ∧ id ∉ s.hot.nodes) = (· ∈ cold) := by
      funext id
      apply propext h.mem_cold_iff.symm
    rw [hcold]
    apply h.grouping.same_group_iff (h.mem_cold_iff.mpr ⟨ha, hahot⟩)
  · intro g hg
    apply (h.grouping.isGroup g hg).sublist
  · intro g hg
    have hgroup := h.grouping.isGroup g hg
    refine ⟨hgroup.outs_ne, hgroup.outs_sorted, ?_⟩
    intro id
    rw [hgroup.mem_outs_iff, h.feedsHot_iff_sinks hp]

/-- The level of an echo is linked to what scales it and not to the bias, though both feed the
mix. -/
theorem cold_groups_are_components_echo :
  Echo.patch.validate = .ok () ∧ Echo.registry.Covers Echo.patch ∧
    make Echo.patch Echo.registry = .ok Echo.schedule ∧
    Echo.patch.signalOrder ["speaker"] (fun _ => true) =
      .ok ["level", "scale", "feedback", "bias", "mix", "speaker"] ∧
    Linked Echo.patch (fun id => id ∈ Echo.schedule.pulled.nodes ∧ id ∉ Echo.schedule.hot.nodes)
      "level" "scale" ∧
    ¬ Linked Echo.patch
      (fun id => id ∈ Echo.schedule.pulled.nodes ∧ id ∉ Echo.schedule.hot.nodes) "level" "bias"
  := by
  obtain ⟨s, hs, horder, -, -, hlinked, -⟩ := cold_groups_are_components Echo.valid Echo.covers
  obtain rfl : Echo.schedule = s := Except.ok.inj (Echo.schedule_eq.symm.trans hs)
  refine ⟨Echo.valid, Echo.covers, hs, horder, ?_, ?_⟩
  · apply (hlinked "level" "scale" (by decide) (by decide) (by decide) (by decide)).mp
    decide
  · rw [← hlinked "level" "bias" (by decide) (by decide) (by decide) (by decide)]
    decide

end Schedule

end AudioPatch
