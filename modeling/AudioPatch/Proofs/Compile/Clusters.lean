import AudioPatch.Proofs.Compile.ColdNodes
import Mathlib.Data.List.Pairwise
import Mathlib.Data.List.Perm.Basic

/-!
# Clusters of cold nodes

For every cold node that feeds a hot one the cold nodes upstream of it are gathered in a
cluster, and clusters that overlap become one. What the merging keeps is that the clusters
are pairwise disjoint, so that a cluster which was passed over cannot overlap what is merged
later. In the end the clusters are the connected components of the cold nodes: every cold
node is upstream of one that feeds a hot node.
-/

namespace AudioPatch.Schedule

open Relation Patch

/-- Two nodes with a property and with a signal between them, in either direction. -/
def Adjoins (p : Patch) (inside : NodeId → Prop) (a b : NodeId) : Prop :=
  inside a ∧ inside b ∧ (p.Feeds a b ∨ p.Feeds b a)

/-- Two nodes are linked by a chain of signals, in either direction, between nodes with a
property. -/
abbrev Linked (p : Patch) (inside : NodeId → Prop) : NodeId → NodeId → Prop :=
  ReflTransGen (Adjoins p inside)

variable {p : Patch} {registry : Registry} {pulled cold outs : List NodeId} {c d : Cluster}

theorem Linked.symm {inside : NodeId → Prop} {a b : NodeId} (h : Linked p inside a b) :
  Linked p inside b a
  := by
  induction h with
  | refl => apply ReflTransGen.refl
  | tail _ hstep ih =>
      obtain ⟨hx, hy, hxy⟩ := hstep
      apply ReflTransGen.head ⟨hy, hx, hxy.symm⟩ ih

/-- A node is linked to all that is upstream of it, if all that has the property. -/
theorem Linked.of_upstream {inside : NodeId → Prop} {a b : NodeId} (h : p.Upstream a b)
    (hinside : ∀ x, p.Upstream x b → inside x) :
  Linked p inside a b
  := by
  induction h using ReflTransGen.head_induction_on with
  | refl => apply ReflTransGen.refl
  | head hstep hrest ih =>
      apply ReflTransGen.head _ ih
      exact ⟨hinside _ (ReflTransGen.head hstep hrest), hinside _ hrest, .inl hstep⟩

/-! ### Clusters -/

/-- What a cluster is. -/
structure IsCluster (p : Patch) (cold : List NodeId) (c : Cluster) : Prop where
  /-- It has an out node. -/
  outs_ne : c.outs ≠ []
  /-- Its members are all that is upstream of its out nodes. -/
  mem_iff : ∀ id, id ∈ c.members ↔ ∃ out ∈ c.outs, p.Upstream id out
  /-- Its members are linked. -/
  linked : ∀ a ∈ c.members, ∀ b ∈ c.members, Linked p (· ∈ cold) a b

theorem Cluster.touches_iff :
  c.touches d ↔ ∃ id ∈ c.members, id ∈ d.members
  := by
  rw [Cluster.touches, List.any_eq_true]
  simp only [List.contains_iff_mem]
  tauto

/-- Two clusters that overlap make one. -/
theorem IsCluster.union (hc : IsCluster p cold c) (hd : IsCluster p cold d)
    (htouches : c.touches d) :
  IsCluster p cold (c.union d)
  := by
  obtain ⟨x, hxc, hxd⟩ := Cluster.touches_iff.mp htouches
  have hlinked : ∀ a ∈ (c.union d).members, Linked p (· ∈ cold) a x := by
    intro a ha
    rcases List.mem_append.mp ha with ha | ha
    · apply hc.linked a ha x hxc
    · apply hd.linked a ha x hxd
  constructor
  · intro hnil
    apply hc.outs_ne (List.append_eq_nil_iff.mp hnil).1
  · intro id
    simp only [Cluster.union, List.mem_append, hc.mem_iff, hd.mem_iff, or_and_right, exists_or]
  · intro a ha b hb
    apply (hlinked a ha).trans (hlinked b hb).symm

/-! ### The merging loop -/

theorem lastFirst_perm {α : Type} (l : List α) :
  (lastFirst l).Perm l
  := by
  rcases List.eq_nil_or_concat l with rfl | ⟨rest, a, rfl⟩
  · rfl
  · rw [lastFirst, List.concat_eq_append, List.getLast?_append, List.dropLast_concat]
    apply List.perm_append_comm

variable {passed waiting : List Cluster}

/-- Merging neither loses nor invents an out node. -/
theorem absorb_outs_perm (passed waiting : List Cluster) (c : Cluster) :
  ((absorb passed c waiting).flatMap Cluster.outs).Perm
    ((passed ++ c :: waiting).flatMap Cluster.outs)
  := by
  fun_induction absorb passed c waiting with
  | case1 passed c => rfl
  | case2 passed c d rest htouches ih =>
      apply ih.trans
      have hrest := (lastFirst_perm rest).flatMap_right Cluster.outs
      simp only [List.flatMap_append, List.flatMap_cons, Cluster.union, List.append_assoc]
      apply List.Perm.append_left
      apply List.Perm.append_left
      apply List.Perm.append_left _ hrest
  | case3 passed c d rest hapart ih =>
      apply ih.trans
      apply List.Perm.flatMap_right
      rw [List.append_assoc]
      apply List.Perm.append_left
      apply List.Perm.swap

/-- Merging makes clusters of clusters. -/
theorem isCluster_of_mem_absorb (h : ∀ d ∈ passed ++ c :: waiting, IsCluster p cold d) :
  ∀ d ∈ absorb passed c waiting, IsCluster p cold d
  := by
  fun_induction absorb passed c waiting with
  | case1 passed c => apply h
  | case2 passed c d rest htouches ih =>
      apply ih
      intro e he
      simp only [List.mem_append, List.mem_cons, (lastFirst_perm rest).mem_iff] at he
      rcases he with he | rfl | he
      · apply h e (by simp [he])
      · apply (h c (by simp)).union (h d (by simp)) htouches
      · apply h e (by simp [he])
  | case3 passed c d rest hapart ih =>
      apply ih
      intro e he
      apply h e
      simp only [List.mem_append, List.mem_cons, List.not_mem_nil, or_false] at he ⊢
      tauto

/-- Two clusters without common members. -/
def Apart (c d : Cluster) : Prop := c.members.Disjoint d.members

theorem Apart.symm (h : Apart c d) :
  Apart d c
  := fun _ hd hc => h hc hd

instance : Std.Symm Apart := ⟨fun _ _ => Apart.symm⟩

/-- Merging leaves clusters apart. -/
theorem pairwise_absorb (hold : (passed ++ waiting).Pairwise Apart)
    (hpassed : ∀ d ∈ passed, Apart d c) :
  (absorb passed c waiting).Pairwise Apart
  := by
  fun_induction absorb passed c waiting with
  | case1 passed c =>
      rw [List.append_nil] at hold
      apply List.pairwise_append.mpr
      refine ⟨hold, List.pairwise_singleton _ _, ?_⟩
      intro d hd e he
      obtain rfl := List.mem_singleton.mp he
      apply hpassed d hd
  | case2 passed c d rest htouches ih =>
      obtain ⟨hpassed', hwaiting, hcross⟩ := List.pairwise_append.mp hold
      apply ih
      · have hperm : (passed ++ rest).Perm (passed ++ lastFirst rest) :=
          (lastFirst_perm rest).symm.append_left passed
        apply (hperm.pairwise_iff Apart.symm).mp
        apply List.pairwise_append.mpr
        refine ⟨hpassed', (List.pairwise_cons.mp hwaiting).2, ?_⟩
        intro e he f hf
        apply hcross e he f (List.mem_cons_of_mem d hf)
      · -- What was passed over is apart from all clusters, so also from the merged one.
        intro e he
        apply List.disjoint_append_right.mpr
        exact ⟨hpassed e he, hcross e he d List.mem_cons_self⟩
  | case3 passed c d rest hapart ih =>
      apply ih
      · rw [List.append_assoc]
        apply hold
      · intro e he
        rcases List.mem_append.mp he with he | he
        · apply hpassed e he
        · obtain rfl := List.mem_singleton.mp he
          intro x hx hxc
          apply hapart
          apply Cluster.touches_iff.mpr ⟨x, hxc, hx⟩

/-! ### Gathering clusters -/

/-- Clusters that are apart and have some given out nodes, each once. -/
structure IsClustering (p : Patch) (cold outs : List NodeId) (clusters : List Cluster) : Prop where
  isCluster : ∀ c ∈ clusters, IsCluster p cold c
  apart : clusters.Pairwise Apart
  outs_perm : (clusters.flatMap Cluster.outs).Perm outs

variable {clusters : List Cluster} {out : NodeId}

/-- What is gathered from a cold node is a cluster. -/
theorem isCluster_of_isSignalOrder (hcold : IsCold p registry pulled cold) (hout : out ∈ cold)
    {members : List NodeId} (h : p.IsSignalOrder [out] cold.contains members) :
  IsCluster p cold ⟨members, [out]⟩
  := by
  have hmem : ∀ id, id ∈ members ↔ p.Upstream id out := by
    intro id
    rw [h.mem_iff]
    constructor
    · rintro ⟨_, hseed, hreach⟩
      obtain rfl := List.mem_singleton.mp hseed
      apply hreach.upstream
    · intro hup
      refine ⟨out, List.mem_singleton_self out, hup.reaches ?_⟩
      intro a ha
      apply List.contains_iff_mem.mpr (hcold.upstream hout ha)
  have hlinked : ∀ a ∈ members, Linked p (· ∈ cold) a out := by
    intro a ha
    apply Linked.of_upstream ((hmem a).mp ha)
    intro b hb
    apply hcold.upstream hout hb
  constructor
  · simp
  · simp [hmem]
  · intro a ha b hb
    apply (hlinked a ha).trans (hlinked b hb).symm

/-- One more cluster is gathered. -/
theorem meets_gather (hp : p.Coherent) (hcold : IsCold p registry pulled cold)
    (h : IsClustering p cold outs clusters) (hout : out ∈ cold) (hids : out ∈ p.ids) :
  Meets (gather p cold clusters out) (IsClustering p cold (outs ++ [out])) (fun _ => False)
  := by
  have hseeds : ∀ s ∈ [out], s ∈ p.ids := by simpa using hids
  apply (meets_signalOrder hp hseeds cold.contains).bind
  intro members _ hmembers
  have hnew := isCluster_of_isSignalOrder hcold hout hmembers
  constructor
  · apply isCluster_of_mem_absorb
    intro d hd
    rcases List.mem_cons.mp hd with rfl | hd
    · apply hnew
    · apply h.isCluster d hd
  · apply pairwise_absorb
    · apply h.apart
    · simp
  · apply (absorb_outs_perm [] clusters _).trans
    apply (List.Perm.append_left [out] h.outs_perm).trans
    apply List.perm_append_comm

namespace IsClustering

/-- An out node is in the cluster that it is an out node of. -/
theorem mem_members (h : IsClustering p cold outs clusters) (hc : c ∈ clusters)
    (hout : out ∈ c.outs) :
  out ∈ c.members
  := ((h.isCluster c hc).mem_iff out).mpr ⟨out, hout, ReflTransGen.refl⟩

/-- Clusters with a common member are the same. -/
theorem eq_of_mem (h : IsClustering p cold outs clusters) {id : NodeId} (hc : c ∈ clusters)
    (hd : d ∈ clusters) (hidc : id ∈ c.members) (hidd : id ∈ d.members) :
  c = d
  := by
  by_contra hne
  apply h.apart.forall hc hd hne hidc hidd

/-- The out nodes of a cluster are those among its members. -/
theorem mem_outs_iff (h : IsClustering p cold outs clusters) (hc : c ∈ clusters) :
  out ∈ c.outs ↔ out ∈ outs ∧ out ∈ c.members
  := by
  constructor
  · intro hout
    exact ⟨h.outs_perm.mem_iff.mp (List.mem_flatMap.mpr ⟨c, hc, hout⟩), h.mem_members hc hout⟩
  · rintro ⟨hout, hmem⟩
    obtain ⟨d, hd, houtd⟩ := List.mem_flatMap.mp (h.outs_perm.mem_iff.mpr hout)
    obtain rfl := h.eq_of_mem hc hd hmem (h.mem_members hd houtd)
    apply houtd

theorem nodup_outs (h : IsClustering p cold outs clusters) (houts : outs.Nodup)
    (hc : c ∈ clusters) :
  c.outs.Nodup
  := (List.nodup_flatMap.mp (h.outs_perm.nodup_iff.mpr houts)).1 c hc

end IsClustering

/-- Clusters are gathered from cold nodes. -/
theorem meets_clusters (hp : p.Coherent) (hcold : IsCold p registry pulled cold)
    (hids : ∀ id ∈ cold, id ∈ p.ids) (houts : ∀ out ∈ outs, out ∈ cold) :
  Meets (outs.foldlM (gather p cold) []) (IsClustering p cold outs) (fun _ => False)
  := by
  apply Meets.foldlM (IsClustering p cold)
  · exact ⟨by simp, List.Pairwise.nil, List.Perm.refl []⟩
  · intro done out rest hsplit clusters hclusters
    have hout : out ∈ cold := houts out (by simp [hsplit])
    apply meets_gather hp hcold hclusters hout (hids out hout)

/-! ### Nodes that feed hot nodes -/

/-- A node feeds a node that is pulled and not cold. -/
def FeedsHot (p : Patch) (pulled cold : List NodeId) (a : NodeId) : Prop :=
  ∃ b ∈ pulled, b ∉ cold ∧ p.Feeds a b

theorem isHot_iff {id : NodeId} :
  isHot pulled cold id ↔ id ∈ pulled ∧ id ∉ cold
  := by
  simp [isHot]

theorem feedsHot_iff (hp : p.Coherent) {n : Node} (hn : p.find? n.id = some n) :
  feedsHot pulled cold n ↔ FeedsHot p pulled cold n.id
  := by
  simp only [feedsHot, List.any_eq_true, isHot_iff, FeedsHot, feeds_iff_mem_signalSinks hp, hn,
    Option.some.injEq, exists_eq_left']
  tauto

/-- The out nodes are the cold nodes that feed hot ones. -/
theorem meets_outNodes (hp : p.Coherent) (hids : ∀ id ∈ cold, id ∈ p.ids) :
  Meets (outNodes p pulled cold)
    (fun outs => outs.Sublist cold ∧ ∀ id, id ∈ outs ↔ id ∈ cold ∧ FeedsHot p pulled cold id)
    (fun _ => False)
  := by
  apply (meets_select hids).bind
  rintro nodes - ⟨hnodes, hfound⟩
  constructor
  · rw [← hnodes]
    apply List.filter_sublist.map
  · intro id
    rw [List.mem_map]
    constructor
    · rintro ⟨n, hn, rfl⟩
      obtain ⟨hmem, hfeeds⟩ := List.mem_filter.mp hn
      have hid : n.id ∈ cold := hnodes ▸ List.mem_map_of_mem hmem
      exact ⟨hid, (feedsHot_iff hp (hfound n hmem)).mp hfeeds⟩
    · rintro ⟨hid, hfeeds⟩
      obtain ⟨n, hmem, rfl⟩ := List.mem_map.mp (hnodes ▸ hid)
      exact ⟨n, List.mem_filter.mpr ⟨hmem, (feedsHot_iff hp (hfound n hmem)).mpr hfeeds⟩, rfl⟩

/-- On the way from a cold node to a hot one there is a cold node that feeds a hot one. -/
theorem exists_feedsHot (horder : p.IsSignalOrder p.pulling (fun _ => true) pulled) {a b : NodeId}
    (ha : a ∈ cold) (hup : p.Upstream a b) (hb : b ∈ pulled) (hhot : b ∉ cold) :
  ∃ out ∈ cold, p.Upstream a out ∧ FeedsHot p pulled cold out
  := by
  induction hup using ReflTransGen.head_induction_on with
  | refl => exact absurd ha hhot
  | @head a c hstep hrest ih =>
      by_cases hc : c ∈ cold
      · obtain ⟨out, hout, hcout, hfeeds⟩ := ih hc
        exact ⟨out, hout, ReflTransGen.head hstep hcout, hfeeds⟩
      · have hcpulled := mem_pulled_of_upstream horder hb hrest
        exact ⟨a, ha, ReflTransGen.refl, c, hcpulled, hc, hstep⟩

/-- Every cold node is upstream of a cold node that feeds a hot one: the pulling nodes, which
all that is pulled leads to, are hot. -/
theorem IsCold.exists_out (hcold : IsCold p registry pulled cold)
    (horder : p.IsSignalOrder p.pulling (fun _ => true) pulled) {a : NodeId} (ha : a ∈ cold) :
  ∃ out ∈ cold, p.Upstream a out ∧ FeedsHot p pulled cold out
  := by
  obtain ⟨b, hb, hup⟩ := (mem_pulled_iff horder).mp (hcold.sublist.subset ha)
  apply exists_feedsHot horder ha hup
  · apply (mem_pulled_iff horder).mpr ⟨b, hb, ReflTransGen.refl⟩
  · intro hbcold
    obtain ⟨n, hn, hpulls⟩ := mem_pulling_iff.mp hb
    obtain ⟨n', i, hn', -, -, hnot⟩ := hcold.passive hbcold
    obtain rfl := Option.some.inj (hn.symm.trans hn')
    apply hnot hpulls

end AudioPatch.Schedule
