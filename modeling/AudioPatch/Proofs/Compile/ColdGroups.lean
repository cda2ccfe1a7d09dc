import AudioPatch.Proofs.Compile.Clusters
import Mathlib.Data.List.Sort
import Mathlib.Data.String.Basic

/-!
# Cold groups

Every cluster of cold nodes becomes a group that lists its nodes in the order of the pulled
nodes, and the groups are put in the order of their first nodes.

* The groups cover the cold nodes and have no nodes in common.
* A group has the sources of its nodes, so that nothing from outside feeds it.
* Two cold nodes are in the same group exactly if a chain of signals between cold nodes links
  them.
-/

namespace AudioPatch.Schedule

open Relation Patch

variable {p : Patch} {registry : Registry} {pulled cold outs : List NodeId} {c : Cluster}
  {clusters : List Cluster} {groups : List ColdGroup}

/-- What a cold group is. -/
structure IsGroup (p : Patch) (pulled cold : List NodeId) (g : ColdGroup) : Prop where
  /-- Its nodes are in the order of the pulled nodes. -/
  sublist : g.group.nodes.Sublist pulled
  mem_cold : ∀ id ∈ g.group.nodes, id ∈ cold
  /-- What feeds one of its nodes is in it. -/
  source : ∀ id ∈ g.group.nodes, ∀ a, p.Feeds a id → a ∈ g.group.nodes
  linked : ∀ a ∈ g.group.nodes, ∀ b ∈ g.group.nodes, Linked p (· ∈ cold) a b
  outs_ne : g.group.outNodes ≠ []
  outs_sorted : g.group.outNodes.Pairwise (· < ·)
  /-- Its out nodes are those of its nodes that feed hot nodes. -/
  mem_outs_iff : ∀ id, id ∈ g.group.outNodes ↔ id ∈ g.group.nodes ∧ FeedsHot p pulled cold id
  /-- Its sink edges are the connections that carry signals from it to hot nodes. -/
  mem_sinkEdges_iff : ∀ e, e ∈ g.sinkEdges ↔
    e.source.node ∈ g.group.nodes ∧ p.Carries e ∧ isHot pulled cold e.sink.node
  nodup_sinkEdges : (∀ x, (p.farEnds .outlet x).Nodup) → g.sinkEdges.Nodup

/-- Groups of all the cold nodes. -/
structure IsGrouping (p : Patch) (pulled cold : List NodeId) (groups : List ColdGroup) : Prop where
  isGroup : ∀ g ∈ groups, IsGroup p pulled cold g
  cover : ∀ id ∈ cold, ∃ g ∈ groups, id ∈ g.group.nodes
  apart : groups.Pairwise fun g h => g.group.nodes.Disjoint h.group.nodes

/-- Groups with a common node are the same. -/
theorem IsGrouping.eq_of_mem (h : IsGrouping p pulled cold groups) {g g' : ColdGroup}
    (hg : g ∈ groups) (hg' : g' ∈ groups) {id : NodeId} (hid : id ∈ g.group.nodes)
    (hid' : id ∈ g'.group.nodes) :
  g = g'
  := by
  by_contra hne
  have hsymm : Std.Symm fun g g' : ColdGroup => g.group.nodes.Disjoint g'.group.nodes :=
    ⟨fun _ _ hdisjoint _ ha ha' => hdisjoint ha' ha⟩
  apply h.apart.forall hg hg' hne hid hid'

/-! ### Ids in order -/

theorem sortIds_perm (ids : List NodeId) :
  (sortIds ids).Perm ids
  := List.mergeSort_perm ids _

theorem pairwise_sortIds {ids : List NodeId} (h : ids.Nodup) :
  (sortIds ids).Pairwise (· < ·)
  := by
  have hle : (sortIds ids).Pairwise (· ≤ ·) := List.pairwise_mergeSort' (· ≤ ·) ids
  have hne : (sortIds ids).Nodup := (sortIds_perm ids).nodup_iff.mpr h
  apply (hle.and hne).imp
  intro a b hab
  apply lt_of_le_of_ne hab.1 hab.2

/-! ### The group of a cluster -/

/-- A group enumerates a cluster. -/
structure Enumerates (p : Patch) (pulled cold : List NodeId) (c : Cluster) (g : ColdGroup) :
    Prop where
  nodes_eq : g.group.nodes = pulled.filter c.members.contains
  outs_eq : g.group.outNodes = sortIds c.outs
  sinkEdges_eq : ∃ outs : List Node, outs.map Node.id = g.group.nodes.filter c.outs.contains ∧
    (∀ n ∈ outs, p.find? n.id = some n) ∧ g.sinkEdges = outs.flatMap (hotEdges (isHot pulled cold))

theorem meets_groupOf (hids : ∀ id ∈ pulled, id ∈ p.ids) (c : Cluster) :
  Meets (groupOf p pulled cold c) (Enumerates p pulled cold c) (fun _ => False)
  := by
  have houts : ∀ id ∈ (pulled.filter c.members.contains).filter c.outs.contains, id ∈ p.ids := by
    intro id hid
    apply hids id
    apply (List.filter_sublist.trans List.filter_sublist).subset hid
  apply (meets_select houts).bind
  intro nodes _ hnodes
  exact ⟨rfl, rfl, nodes, hnodes.1, hnodes.2, rfl⟩

/-! ### Connections to hot nodes -/

section SinkEdges

variable {isHot : NodeId → Bool} {n : Node}

theorem mem_hotEdges_iff (hp : p.Coherent) (hn : p.find? n.id = some n) {e : Edge} :
  e ∈ hotEdges isHot n ↔ e.source.node = n.id ∧ p.Carries e ∧ isHot e.sink.node
  := by
  have hmem := mem_nodes_of_find? hn
  simp only [hotEdges, List.mem_flatMap, List.mem_map, List.mem_filter, hp.mem_outletsOf_iff hmem]
  constructor
  · rintro ⟨outlet, ⟨houtlet, hkind⟩, sink, ⟨hsink, hhot⟩, rfl⟩
    refine ⟨rfl, ⟨?_, (lists_outlet_iff hn).mpr hsink⟩, hhot⟩
    rw [kindAt?_of_find? hn, Node.kindAt?, houtlet, Option.map_some, hkind]
  · rintro ⟨hid, ⟨hkind, hlists⟩, hhot⟩
    rw [← hid] at hn
    rw [kindAt?_of_find? hn] at hkind
    rw [lists_outlet_iff hn] at hlists
    obtain ⟨outlet, houtlet, hkind⟩ := Option.map_eq_some_iff.mp hkind
    have hoid := hp.outlet_id n hmem _ _ houtlet
    refine ⟨outlet, ⟨?_, hkind⟩, e.sink, ⟨?_, hhot⟩, ?_⟩
    · rw [hoid, houtlet]
    · rw [hoid]
      apply hlists
    · rw [hoid, ← hid]

theorem nodup_hotEdges (hp : p.Coherent) (hn : p.find? n.id = some n)
    (honce : ∀ x, (p.farEnds .outlet x).Nodup) :
  (hotEdges isHot n).Nodup
  := by
  apply List.nodup_flatMap.mpr ⟨?_, ?_⟩
  · intro outlet _
    have hends := honce ⟨n.id, outlet.id⟩
    rw [farEnds_of_find? hn] at hends
    apply (hends.filter _).map
    intro sink sink' heq
    apply (Edge.mk.inj heq).2
  · apply (List.pairwise_map.mp (hp.nodup_outletsOf (mem_nodes_of_find? hn) .signal)).imp
    intro outlet outlet' hne e he he'
    obtain ⟨_, _, rfl⟩ := List.mem_map.mp he
    obtain ⟨_, _, heq⟩ := List.mem_map.mp he'
    apply hne (Endpoint.mk.inj (Edge.mk.inj heq).1).2.symm

theorem Enumerates.mem_sinkEdges_iff (hp : p.Coherent) {g : ColdGroup}
    (hg : Enumerates p pulled cold c g) {e : Edge} :
  e ∈ g.sinkEdges ↔ (e.source.node ∈ g.group.nodes ∧ e.source.node ∈ c.outs) ∧ p.Carries e ∧
    Schedule.isHot pulled cold e.sink.node
  := by
  obtain ⟨outs, hids, hfound, hedges⟩ := hg.sinkEdges_eq
  have hmem : ∀ id, id ∈ g.group.nodes ∧ id ∈ c.outs ↔ ∃ n ∈ outs, n.id = id := by
    intro id
    rw [← List.mem_map, hids, List.mem_filter, List.contains_iff_mem]
  rw [hedges, List.mem_flatMap, hmem]
  constructor
  · rintro ⟨n, hn, he⟩
    obtain ⟨hid, he⟩ := (mem_hotEdges_iff hp (hfound n hn)).mp he
    exact ⟨⟨n, hn, hid.symm⟩, he⟩
  · rintro ⟨⟨n, hn, hid⟩, he⟩
    exact ⟨n, hn, (mem_hotEdges_iff hp (hfound n hn)).mpr ⟨hid.symm, he⟩⟩

theorem Enumerates.nodup_sinkEdges (hp : p.Coherent) (hnodup : pulled.Nodup) {g : ColdGroup}
    (hg : Enumerates p pulled cold c g) (honce : ∀ x, (p.farEnds .outlet x).Nodup) :
  g.sinkEdges.Nodup
  := by
  obtain ⟨outs, hids, hfound, hedges⟩ := hg.sinkEdges_eq
  have hids' : (outs.map Node.id).Nodup := by
    rw [hids, hg.nodes_eq]
    apply (hnodup.filter _).filter
  rw [hedges]
  apply List.nodup_flatMap.mpr ⟨fun n hn => nodup_hotEdges hp (hfound n hn) honce, ?_⟩
  apply (List.pairwise_map.mp hids').imp_of_mem
  intro n n' hn hn' hne e he he'
  apply hne
  rw [← ((mem_hotEdges_iff hp (hfound n hn)).mp he).1]
  apply ((mem_hotEdges_iff hp (hfound n' hn')).mp he').1

end SinkEdges

/-! ### Groups of clusters -/

/-- The members of a cluster are cold if its out nodes are. -/
theorem IsClustering.mem_cold (h : IsClustering p cold outs clusters)
    (hcold : IsCold p registry pulled cold) (houts : ∀ out ∈ outs, out ∈ cold)
    (hc : c ∈ clusters) {id : NodeId} (hid : id ∈ c.members) :
  id ∈ cold
  := by
  obtain ⟨out, hout, hup⟩ := ((h.isCluster c hc).mem_iff id).mp hid
  apply hcold.upstream (houts out ((h.mem_outs_iff hc).mp hout).1) hup

section Listing

variable (h : IsClustering p cold outs clusters) (hcold : IsCold p registry pulled cold)
  (houts : outs.Nodup) (hmem : ∀ id, id ∈ outs ↔ id ∈ cold ∧ FeedsHot p pulled cold id)

include h hcold hmem in
/-- A group that enumerates a cluster has its members as nodes. -/
theorem Enumerates.mem_nodes_iff (hc : c ∈ clusters) {g : ColdGroup}
    (hg : Enumerates p pulled cold c g) {id : NodeId} :
  id ∈ g.group.nodes ↔ id ∈ c.members
  := by
  rw [hg.nodes_eq, List.mem_filter, List.contains_iff_mem, and_iff_right_iff_imp]
  intro hid
  apply hcold.sublist.subset
  apply h.mem_cold hcold _ hc hid
  intro out hout
  apply ((hmem out).mp hout).1

include h hcold houts hmem in
theorem Enumerates.isGroup (hp : p.Coherent) (hnodup : pulled.Nodup) (hc : c ∈ clusters)
    {g : ColdGroup} (hg : Enumerates p pulled cold c g) :
  IsGroup p pulled cold g
  := by
  have hnodes : ∀ {id}, id ∈ g.group.nodes ↔ id ∈ c.members := hg.mem_nodes_iff h hcold hmem hc
  have hcluster := h.isCluster c hc
  have hmemcold : ∀ id ∈ g.group.nodes, id ∈ cold := by
    intro id hid
    apply h.mem_cold hcold _ hc (hnodes.mp hid)
    intro out hout
    apply ((hmem out).mp hout).1
  have hmemouts : ∀ id, id ∈ c.outs ↔ id ∈ g.group.nodes ∧ FeedsHot p pulled cold id := by
    intro id
    rw [h.mem_outs_iff hc, hmem, hnodes]
    constructor
    · rintro ⟨⟨-, hfeeds⟩, hid⟩
      exact ⟨hid, hfeeds⟩
    · rintro ⟨hid, hfeeds⟩
      exact ⟨⟨hmemcold id (hnodes.mpr hid), hfeeds⟩, hid⟩
  constructor
  case sublist =>
    rw [hg.nodes_eq]
    apply List.filter_sublist
  case mem_cold => apply hmemcold
  case source =>
    intro id hid a ha
    obtain ⟨out, hout, hup⟩ := (hcluster.mem_iff id).mp (hnodes.mp hid)
    apply hnodes.mpr
    apply (hcluster.mem_iff a).mpr ⟨out, hout, ReflTransGen.head ha hup⟩
  case linked =>
    intro a ha b hb
    apply hcluster.linked a (hnodes.mp ha) b (hnodes.mp hb)
  case outs_ne =>
    intro hnil
    rw [hg.outs_eq] at hnil
    apply hcluster.outs_ne
    apply List.Perm.eq_nil (hnil ▸ (sortIds_perm c.outs).symm)
  case outs_sorted =>
    rw [hg.outs_eq]
    apply pairwise_sortIds (h.nodup_outs houts hc)
  case mem_outs_iff =>
    intro id
    rw [hg.outs_eq, (sortIds_perm c.outs).mem_iff, hmemouts]
  case mem_sinkEdges_iff =>
    intro e
    rw [hg.mem_sinkEdges_iff hp, hmemouts]
    constructor
    · rintro ⟨⟨hid, -⟩, he⟩
      exact ⟨hid, he⟩
    · rintro ⟨hid, hcarries, hhot⟩
      obtain ⟨hpulled, hnot⟩ := isHot_iff.mp hhot
      exact ⟨⟨hid, hid, e.sink.node, hpulled, hnot, hcarries.feeds hp⟩, hcarries, hhot⟩
  case nodup_sinkEdges => apply hg.nodup_sinkEdges hp hnodup

include h hcold houts hmem in
/-- The groups that enumerate the clusters are groups of all the cold nodes. -/
theorem isGrouping_of_enumerates (hp : p.Coherent)
    (horder : p.IsSignalOrder p.pulling (fun _ => true) pulled)
    (hlists : List.Forall₂ (Enumerates p pulled cold) clusters groups) :
  IsGrouping p pulled cold groups
  := by
  constructor
  · intro g hg
    obtain ⟨c, hc, hlist⟩ := exists_of_mem_forall₂ hlists.flip hg
    apply hlist.isGroup h hcold houts hmem hp horder.nodup hc
  · intro id hid
    obtain ⟨out, hout, hup, hfeeds⟩ := hcold.exists_out horder hid
    have hmemouts := h.outs_perm.mem_iff.mpr ((hmem out).mpr ⟨hout, hfeeds⟩)
    obtain ⟨c, hc, houtc⟩ := List.mem_flatMap.mp hmemouts
    obtain ⟨g, hg, hlist⟩ := exists_of_mem_forall₂ hlists hc
    refine ⟨g, hg, (hlist.mem_nodes_iff h hcold hmem hc).mpr ?_⟩
    apply ((h.isCluster c hc).mem_iff id).mpr ⟨out, houtc, hup⟩
  · apply pairwise_of_forall₂ hlists h.apart
    intro c d g g' hg hg' hapart id hid hid'
    rw [hg.nodes_eq, List.mem_filter, List.contains_iff_mem] at hid
    rw [hg'.nodes_eq, List.mem_filter, List.contains_iff_mem] at hid'
    apply hapart hid.2 hid'.2

end Listing

/-! ### The order of the groups -/

theorem IsGrouping.perm (h : IsGrouping p pulled cold groups) {groups' : List ColdGroup}
    (hperm : groups'.Perm groups) :
  IsGrouping p pulled cold groups'
  := by
  constructor
  · intro g hg
    apply h.isGroup g (hperm.mem_iff.mp hg)
  · intro id hid
    obtain ⟨g, hg, hidg⟩ := h.cover id hid
    exact ⟨g, hperm.mem_iff.mpr hg, hidg⟩
  · apply (hperm.pairwise_iff _).mpr h.apart
    intro g g' hdisjoint a ha ha'
    apply hdisjoint ha' ha

theorem IsGroup.exists_first {g : ColdGroup} (h : IsGroup p pulled cold g) :
  ∃ first rest, g.group.nodes = first :: rest
  := by
  obtain ⟨out, rest, houts⟩ := List.exists_cons_of_ne_nil h.outs_ne
  have hout : out ∈ g.group.nodes := ((h.mem_outs_iff out).mp (by simp [houts])).1
  apply List.exists_cons_of_ne_nil (List.ne_nil_of_mem hout)

/-- Two nodes of a group are in the order of the pulled nodes. -/
theorem IsGroup.pair_sublist {g : ColdGroup} (h : IsGroup p pulled cold g) (hnodup : pulled.Nodup)
    {a b : NodeId} (ha : a ∈ g.group.nodes) (hb : b ∈ g.group.nodes) (hab : [a, b].Sublist pulled) :
  [a, b].Sublist g.group.nodes
  := by
  have hne : a ≠ b := by
    rintro rfl
    apply not_pair_sublist_swap hnodup hab hab
  apply (pair_sublist_or ha hb hne).resolve_right
  intro hba
  apply not_pair_sublist_swap hnodup hab (hba.trans h.sublist)

/-- Groups without common nodes have their first nodes at different places. -/
theorem IsGroup.rank_ne {g g' : ColdGroup} (h : IsGroup p pulled cold g)
    (h' : IsGroup p pulled cold g') (hapart : g.group.nodes.Disjoint g'.group.nodes) :
  rank pulled g ≠ rank pulled g'
  := by
  obtain ⟨a, rest, ha⟩ := h.exists_first
  obtain ⟨b, rest', hb⟩ := h'.exists_first
  have hmem : a ∈ g.group.nodes := by simp [ha]
  have hmem' : b ∈ g'.group.nodes := by simp [hb]
  rw [rank, rank, ha, hb]
  intro heq
  obtain rfl := (List.idxOf_inj (h.sublist.subset hmem)).mp heq
  apply hapart hmem hmem'

/-- The cold groups are found. -/
theorem meets_coldGroups (hp : p.Coherent)
    (horder : p.IsSignalOrder p.pulling (fun _ => true) pulled)
    (hids : ∀ id ∈ pulled, id ∈ p.ids) (hcold : IsCold p registry pulled cold) :
  Meets (coldGroups p pulled cold)
    (fun groups => IsGrouping p pulled cold groups ∧
      groups.Pairwise fun g g' => rank pulled g < rank pulled g')
    (fun _ => False)
  := by
  have hidsCold : ∀ id ∈ cold, id ∈ p.ids := fun id hid => hids id (hcold.sublist.subset hid)
  apply (meets_outNodes hp hidsCold).bind
  rintro outs - ⟨hsub, hmem⟩
  apply (meets_clusters hp hcold hidsCold fun out hout => hsub.subset hout).bind
  intro clusters _ hclusters
  apply (Meets.mapM fun c _ => meets_groupOf hids c).bind
  intro groups _ hlists
  have houts : outs.Nodup := (hsub.trans hcold.sublist).nodup horder.nodup
  have hgrouping := (isGrouping_of_enumerates hclusters hcold houts hmem hp horder hlists).perm
    (List.mergeSort_perm groups fun g g' => rank pulled g ≤ rank pulled g')
  refine ⟨hgrouping, ?_⟩
  have hle := pairwise_mergeSort_key (rank pulled) groups
  apply (hle.and hgrouping.apart).imp_of_mem
  rintro g g' hg hg' ⟨hrank, hapart⟩
  apply Nat.lt_of_le_of_ne hrank
  apply (hgrouping.isGroup g hg).rank_ne (hgrouping.isGroup g' hg') hapart

/-! ### Nodes of the same group -/

namespace IsGrouping

variable {a b : NodeId}

/-- A node that a signal connects with a node of a group, in either direction, is in that
group if it is cold. -/
theorem mem_of_adjoins (h : IsGrouping p pulled cold groups) {g : ColdGroup} (hg : g ∈ groups)
    (ha : a ∈ g.group.nodes) (hab : Adjoins p (· ∈ cold) a b) :
  b ∈ g.group.nodes
  := by
  obtain ⟨-, hb, hfeeds | hfeeds⟩ := hab
  · obtain ⟨g', hg', hbg'⟩ := h.cover b hb
    have hag' := (h.isGroup g' hg').source b hbg' a hfeeds
    obtain rfl := h.eq_of_mem hg hg' ha hag'
    apply hbg'
  · apply (h.isGroup g hg).source a ha b hfeeds

/-- Two cold nodes are in the same group exactly if they are linked. -/
theorem same_group_iff (h : IsGrouping p pulled cold groups) (ha : a ∈ cold) :
  (∃ g ∈ groups, a ∈ g.group.nodes ∧ b ∈ g.group.nodes) ↔ Linked p (· ∈ cold) a b
  := by
  constructor
  · rintro ⟨g, hg, hag, hbg⟩
    apply (h.isGroup g hg).linked a hag b hbg
  · intro hlinked
    obtain ⟨g, hg, hag⟩ := h.cover a ha
    refine ⟨g, hg, hag, ?_⟩
    induction hlinked with
    | refl => apply hag
    | tail _ hstep ih => apply h.mem_of_adjoins hg ih hstep

/-- The place of the cold group of a node. -/
theorem groupIndex?_eq_some_iff {s : Schedule} (h : IsGrouping p pulled cold s.cold) {id : NodeId}
    {i : Nat} :
  s.groupIndex? id = some i ↔ ∃ hi : i < s.cold.length, id ∈ s.cold[i].group.nodes
  := by
  rw [groupIndex?, List.findIdx?_eq_some_iff_getElem]
  simp only [List.contains_iff_mem]
  constructor
  · rintro ⟨hi, hid, -⟩
    exact ⟨hi, hid⟩
  · rintro ⟨hi, hid⟩
    refine ⟨hi, hid, ?_⟩
    intro j hj hid'
    apply List.pairwise_iff_getElem.mp h.apart j i _ hi hj hid' hid

/-! ### One group after the other -/

/-- The cold nodes are those of the groups, each once. -/
theorem perm_cold (h : IsGrouping p pulled cold groups) (hcold : IsCold p registry pulled cold)
    (hnodup : pulled.Nodup) :
  (groups.flatMap fun g => g.group.nodes).Perm cold
  := by
  have hgroups : (groups.flatMap fun g => g.group.nodes).Nodup := by
    apply List.nodup_flatMap.mpr ⟨?_, h.apart⟩
    intro g hg
    apply (h.isGroup g hg).sublist.nodup hnodup
  apply (List.perm_ext_iff_of_nodup hgroups (hcold.sublist.nodup hnodup)).mpr
  intro id
  rw [List.mem_flatMap]
  constructor
  · rintro ⟨g, hg, hid⟩
    apply (h.isGroup g hg).mem_cold id hid
  · apply h.cover id

/-- Two nodes of one group are in the order of the pulled nodes when one group follows the
other. -/
theorem pair_sublist (h : IsGrouping p pulled cold groups) (hnodup : pulled.Nodup)
    {g : ColdGroup} (hg : g ∈ groups) (ha : a ∈ g.group.nodes) (hb : b ∈ g.group.nodes)
    (hab : [a, b].Sublist pulled) :
  [a, b].Sublist (groups.flatMap fun g => g.group.nodes)
  := by
  apply ((h.isGroup g hg).pair_sublist hnodup ha hb hab).trans
  apply List.sublist_flatten_of_mem (List.mem_map_of_mem hg)

end IsGrouping

end AudioPatch.Schedule
