import AudioPatch.Patch.Edit
import AudioPatch.Proofs.Patch.Integrity

/-!
# Trimming a patch

What is left of a patch when some of its nodes are kept: these nodes, and the connections
between them. If the patch was coherent, so is what is left.
-/

namespace AudioPatch

/-! ### Connections that are kept -/

namespace Links

/-- The connections that satisfy a condition. A portlet without any is not listed. -/
def retain (links : Links) (keep : PortletId → Endpoint → Bool) : Links :=
  (links.map fun k ends => ends.filter (keep k)).filter fun _ ends => ends ≠ []

/-- No portlet is listed without connections. -/
def Tidy (links : Links) : Prop := ∀ k ends, links.find? k = some ends → ends ≠ []

variable {links links' : Links} {keep : PortletId → Endpoint → Bool} {k : PortletId}

theorem Tidy.find?_eq_some_iff (h : links.Tidy) {ends : List Endpoint} :
  links.find? k = some ends ↔ links.ends k = ends ∧ ends ≠ []
  := by
  constructor
  · intro hends
    exact ⟨ends_of_find? hends, h k ends hends⟩
  · rintro ⟨rfl, hne⟩
    rw [Links.ends] at hne ⊢
    cases hk : links.find? k with
    | none => simp [hk] at hne
    | some ends => rfl

/-- Connections are known by their far ends if no portlet is listed without any. -/
theorem Tidy.eq_of_ends (h : links.Tidy) (h' : links'.Tidy)
    (hends : ∀ k, links.ends k = links'.ends k) :
  links = links'
  := by
  apply Table.eq_of_mem_entries_iff
  intro ⟨k, ends⟩
  rw [← Table.find?_eq_some_iff, ← Table.find?_eq_some_iff, h.find?_eq_some_iff,
    h'.find?_eq_some_iff, hends]

theorem tidy_retain :
  (links.retain keep).Tidy
  := by
  intro k ends h
  rw [retain, Table.find?_filter_eq_some_iff, decide_eq_true_iff] at h
  apply h.2

theorem ends_retain :
  (links.retain keep).ends k = (links.ends k).filter (keep k)
  := by
  have hiff : ∀ ends, (links.retain keep).find? k = some ends ↔
      (links.find? k).map (fun ends => ends.filter (keep k)) = some ends ∧ ends ≠ [] := by
    intro ends
    rw [retain, Table.find?_filter_eq_some_iff, Table.find?_map, decide_eq_true_iff]
  rw [Links.ends, Links.ends]
  cases hends : (links.retain keep).find? k with
  | none =>
      cases hold : links.find? k with
      | none => rfl
      | some ends =>
          -- The portlet is not listed, so no connection of it was kept.
          by_contra hne
          have hsome := (hiff (ends.filter (keep k))).mpr ⟨by rw [hold]; rfl, Ne.symm hne⟩
          cases hends.symm.trans hsome
  | some ends =>
      obtain ⟨hmap, -⟩ := (hiff ends).mp hends
      obtain ⟨old, hold, rfl⟩ := Option.map_eq_some_iff.mp hmap
      rw [hold]
      rfl

/-- Nothing changes if all connections are kept. -/
theorem retain_eq_self (h : links.Tidy) (hkeep : ∀ k, ∀ e ∈ links.ends k, keep k e) :
  links.retain keep = links
  := by
  apply tidy_retain.eq_of_ends h
  intro k
  rw [ends_retain, List.filter_eq_self.mpr (hkeep k)]

theorem flatten_retain :
  (links.retain keep).flatten = links.flatten.filter fun e => keep e.1 e.2
  := by
  have hentries : (links.retain keep).entries =
      (links.entries.map fun e => (e.1, e.2.filter (keep e.1))).filter fun e => e.2 ≠ [] := rfl
  rw [Links.flatten, Links.flatten, hentries]
  clear hentries
  induction links.entries with
  | nil => rfl
  | cons e rest ih =>
      rw [List.map_cons, List.flatMap_cons, List.filter_append, List.filter_map, ← ih,
        List.filter_cons]
      split
      · rw [List.flatMap_cons]
        rfl
      · rename_i hnil
        have hgone : e.2.filter (keep e.1) = [] := by simpa using hnil
        rw [Function.comp_def, hgone, List.map_nil, List.nil_append]

variable {kept : NodeId → Bool}

theorem ends_restrict :
  (links.restrict kept).ends k = (links.ends k).filter fun e => kept e.node
  := ends_retain

theorem mem_ends_restrict_iff {e : Endpoint} :
  e ∈ (links.restrict kept).ends k ↔ e ∈ links.ends k ∧ kept e.node
  := by
  rw [ends_restrict, List.mem_filter]

theorem mem_keys_of_restrict (h : k ∈ (links.restrict kept).keys) :
  k ∈ links.keys
  := by
  obtain ⟨ends, hends⟩ := Option.isSome_iff_exists.mp (Table.isSome_find?_iff.mpr h)
  obtain ⟨e, he⟩ := List.exists_mem_of_ne_nil ends (tidy_retain k ends hends)
  rw [← ends_of_find? hends] at he
  apply mem_keys_of_mem_ends (mem_ends_restrict_iff.mp he).1

/-- To keep connections twice is to keep them once. -/
theorem restrict_restrict (links : Links) (kept : NodeId → Bool) :
  (links.restrict kept).restrict kept = links.restrict kept
  := by
  apply retain_eq_self tidy_retain
  intro k e he
  apply (mem_ends_restrict_iff.mp he).2

end Links

namespace Node

variable (n : Node) (keep : NodeId → Bool)

theorem restrict_restrict :
  (n.restrict keep).restrict keep = n.restrict keep
  := by
  simp only [restrict, Links.restrict_restrict]

theorem signalSources_restrict :
  (n.restrict keep).signalSources = n.signalSources.filter keep
  := by
  rw [signalSources, signalSources, List.filter_flatMap]
  congr 1
  funext inlet
  rw [sourcesAt, restrict, Links.ends_restrict, List.filter_map]
  rfl

theorem messageSinks_restrict :
  (n.restrict keep).messageSinks = n.messageSinks.filter keep
  := by
  rw [messageSinks, messageSinks, List.filter_flatMap]
  congr 1
  funext outlet
  rw [sinksAt, restrict, Links.ends_restrict, List.filter_map]
  rfl

end Node

namespace Patch

variable {p : Patch} {ids : List NodeId} {id : NodeId} {n : Node}

theorem nodes_mapNodes {f : Node → Option Node} (hf : ∀ n, ∀ m ∈ f n, m.id = n.id) :
  (p.mapNodes f hf).nodes = p.nodes.filterMap f
  := by
  rw [nodes, nodes, mapNodes, List.filterMap_map, List.filterMap_filterMap]
  rfl

/-- The nodes that are left are in the order in which they were. -/
theorem nodes_trim (p : Patch) (ids : List NodeId) :
  (p.trim ids).nodes =
    (p.nodes.filter fun n => ids.contains n.id).map fun n => n.restrict ids.contains
  := by
  rw [trim, nodes_mapNodes]
  induction p.nodes with
  | nil => rfl
  | cons n rest ih =>
      by_cases h : ids.contains n.id
      · simp only [List.filterMap_cons, List.filter_cons, if_pos h, ih, List.map_cons]
      · simp only [List.filterMap_cons, List.filter_cons, if_neg h, ih]

theorem eq_of_slots {q : Patch} (h : p.slots = q.slots) :
  p = q
  := by
  cases p
  cases q
  cases h
  rfl

/-- To trim a patch twice is to trim it once. -/
theorem trim_trim (p : Patch) (ids : List NodeId) :
  (p.trim ids).trim ids = p.trim ids
  := by
  apply eq_of_slots
  simp only [trim, mapNodes, List.map_map]
  apply List.map_congr_left
  intro s _
  cases s with
  | none => rfl
  | some n =>
      by_cases h : ids.contains n.id
      · have hid : (n.restrict ids.contains).id = n.id := rfl
        simp only [Function.comp_apply, Option.bind_some, if_pos h, hid, Node.restrict_restrict]
      · simp only [Function.comp_apply, Option.bind_some, if_neg h, Option.bind_none]

/-- What is left of the nodes with a property that does not depend on connections. -/
theorem ids_filter_trim (p : Patch) (ids : List NodeId) {has : Node → Bool}
    (hhas : ∀ n keep, has (n.restrict keep) = has n) :
  ((p.trim ids).nodes.filter has).map Node.id =
    ((p.nodes.filter has).map Node.id).filter ids.contains
  := by
  rw [nodes_trim, List.filter_map, List.filter_map, List.map_map, List.filter_comm]
  simp only [Function.comp_def, hhas]
  rfl

theorem mem_nodes_trim_iff :
  n ∈ (p.trim ids).nodes ↔ ∃ m ∈ p.nodes, m.id ∈ ids ∧ m.restrict ids.contains = n
  := by
  rw [trim, nodes_mapNodes, List.mem_filterMap]
  simp

/-- A node is found in what is left if it is kept, with the connections to kept nodes. -/
theorem find?_trim_eq_some_iff :
  (p.trim ids).find? id = some n ↔
    ∃ m, p.find? id = some m ∧ id ∈ ids ∧ m.restrict ids.contains = n
  := by
  constructor
  · intro h
    obtain ⟨m, hm, hid, rfl⟩ := mem_nodes_trim_iff.mp (mem_nodes_of_find? h)
    obtain rfl : (m.restrict ids.contains).id = id := id_of_find? h
    exact ⟨m, find?_of_mem hm, hid, rfl⟩
  · rintro ⟨m, hm, hid, rfl⟩
    obtain rfl := id_of_find? hm
    apply find?_of_mem (n := m.restrict ids.contains)
    apply mem_nodes_trim_iff.mpr ⟨m, mem_nodes_of_find? hm, hid, rfl⟩

theorem mem_ids_trim_iff :
  id ∈ (p.trim ids).ids ↔ id ∈ p.ids ∧ id ∈ ids
  := by
  simp only [mem_ids_iff, find?_trim_eq_some_iff]
  constructor
  · rintro ⟨_, m, hm, hid, -⟩
    exact ⟨⟨m, hm⟩, hid⟩
  · rintro ⟨⟨m, hm⟩, hid⟩
    exact ⟨_, m, hm, hid, rfl⟩

/-- What is left of a coherent patch is coherent. -/
theorem Coherent.trim (hp : p.Coherent) (ids : List NodeId) :
  (p.trim ids).Coherent
  := by
  constructor
  case inlet_id =>
    intro n hn
    obtain ⟨m, hm, -, rfl⟩ := mem_nodes_trim_iff.mp hn
    apply hp.inlet_id m hm
  case outlet_id =>
    intro n hn
    obtain ⟨m, hm, -, rfl⟩ := mem_nodes_trim_iff.mp hn
    apply hp.outlet_id m hm
  case sinks_declared =>
    intro n hn o ho
    obtain ⟨m, hm, -, rfl⟩ := mem_nodes_trim_iff.mp hn
    apply hp.sinks_declared m hm o (Links.mem_keys_of_restrict ho)
  case sources_declared =>
    intro n hn i hi
    obtain ⟨m, hm, -, rfl⟩ := mem_nodes_trim_iff.mp hn
    apply hp.sources_declared m hm i (Links.mem_keys_of_restrict hi)
  case sink =>
    intro n hn o outlet houtlet e he
    obtain ⟨m, hm, hid, rfl⟩ := mem_nodes_trim_iff.mp hn
    obtain ⟨he, hkeep⟩ := Links.mem_ends_restrict_iff.mp he
    obtain ⟨m', inlet, hm', hinlet, hkind, hsource⟩ := hp.sink m hm o outlet houtlet e he
    refine ⟨m'.restrict ids.contains, inlet, ?_, hinlet, hkind, ?_⟩
    · apply find?_trim_eq_some_iff.mpr ⟨m', hm', List.contains_iff_mem.mp hkeep, rfl⟩
    · apply Links.mem_ends_restrict_iff.mpr ⟨hsource, List.contains_iff_mem.mpr hid⟩
  case source =>
    intro n hn i e he
    obtain ⟨m, hm, hid, rfl⟩ := mem_nodes_trim_iff.mp hn
    obtain ⟨he, hkeep⟩ := Links.mem_ends_restrict_iff.mp he
    obtain ⟨m', hm', hsink⟩ := hp.source m hm i e he
    refine ⟨m'.restrict ids.contains, ?_, ?_⟩
    · apply find?_trim_eq_some_iff.mpr ⟨m', hm', List.contains_iff_mem.mp hkeep, rfl⟩
    · apply Links.mem_ends_restrict_iff.mpr ⟨hsink, List.contains_iff_mem.mpr hid⟩
  case signal_source =>
    intro n hn i inlet hinlet hkind
    obtain ⟨m, hm, -, rfl⟩ := mem_nodes_trim_iff.mp hn
    have hone := hp.signal_source m hm i inlet hinlet hkind
    have hfewer : ((m.restrict ids.contains).sourcesAt i).length ≤ (m.sourcesAt i).length := by
      rw [Node.sourcesAt, Node.restrict, Links.ends_restrict]
      apply List.length_filter_le
    apply Nat.le_trans hfewer hone

end Patch

end AudioPatch
