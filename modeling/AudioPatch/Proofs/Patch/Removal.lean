import AudioPatch.Proofs.Patch.Editing

/-!
# What is taken away from a patch

A patch *without* some nodes and some connections has empty slots in place of the nodes, and at
every portlet the other connections, in the order in which they were. All else is as it was.

What is left when a patch is trimmed is the patch without the nodes that are not kept and without
the connections that touch them.
-/

namespace AudioPatch

/-- The connection between a portlet on one side of a node and a far end. -/
def Edge.ofEnds (side : Side) (near far : Endpoint) : Edge :=
  match side with
  | .inlet => ⟨far, near⟩
  | .outlet => ⟨near, far⟩

theorem Edge.ofEnds_eq_iff {side : Side} {near far : Endpoint} {e : Edge} :
  Edge.ofEnds side near far = e ↔ near = e.near side ∧ far = e.far side
  := by
  constructor
  · rintro rfl
    cases side <;> exact ⟨rfl, rfl⟩
  · rintro ⟨rfl, rfl⟩
    cases side <;> rfl

namespace Node

/-- The node without some connections. -/
def without (n : Node) (gone : Edge → Bool) : Node :=
  { n with
    sources := n.sources.retain fun i far => !gone ⟨far, n.id, i⟩
    sinks := n.sinks.retain fun o far => !gone ⟨⟨n.id, o⟩, far⟩ }

variable {n : Node} {gone : Edge → Bool}

@[simp]
theorem id_bare :
  n.bare.id = n.id
  := rfl

@[simp]
theorem bare_bare :
  n.bare.bare = n.bare
  := rfl

@[simp]
theorem bare_without :
  (n.without gone).bare = n.bare
  := rfl

/-- At a kept node, the connections that join kept nodes are those to kept nodes. -/
theorem without_eq_restrict {ids : List NodeId} (h : n.id ∈ ids) :
  n.without (fun e => ¬ (e.source.node ∈ ids ∧ e.sink.node ∈ ids)) = n.restrict ids.contains
  := by
  simp [without, restrict, Links.retain, Links.restrict, h]

theorem ends_without (side : Side) (k : PortletId) :
  ((n.without gone).linksOn side).ends k =
    ((n.linksOn side).ends k).filter fun far => !gone (.ofEnds side ⟨n.id, k⟩ far)
  := by
  cases side <;> apply Links.ends_retain

theorem outgoing_without :
  (n.without gone).outgoing = n.outgoing.filter fun e => !gone e
  := by
  rw [outgoing, outgoing, without, Links.flatten_retain, List.filter_map]
  rfl

end Node

namespace Patch

/-- The patch without some nodes and some connections. -/
def without (p : Patch) (lost : NodeId → Bool) (gone : Edge → Bool) : Patch :=
  p.mapNodes (fun n => if lost n.id then none else some (n.without gone)) fun n m hm => by
    obtain ⟨-, rfl⟩ : lost n.id = false ∧ n.without gone = m := by simpa using hm
    rfl

variable {p q : Patch} {lost : NodeId → Bool} {gone : Edge → Bool} {ids : List NodeId} {id : NodeId}

theorem slots_without :
  (p.without lost gone).slots =
    p.slots.map fun s => (s.filter fun n => !lost n.id).map fun n => n.without gone
  := by
  rw [without, mapNodes]
  apply List.map_congr_left
  intro s _
  cases s with
  | none => rfl
  | some n => cases h : lost n.id <;> simp [h, Option.filter]

theorem nodes_without :
  (p.without lost gone).nodes =
    (p.nodes.filter fun n => !lost n.id).map fun n => n.without gone
  := by
  rw [without, nodes_mapNodes]
  induction p.nodes with
  | nil => rfl
  | cons n rest ih => cases h : lost n.id <;> simp [h, ih]

/-- The nodes that are left are in the slots in which they were. -/
theorem at?_without (k : Nat) :
  (p.without lost gone).at? k =
    ((p.at? k).filter fun n => !lost n.id).map fun n => n.without gone
  := by
  rw [at?, slots_without, List.getElem?_map, at?]
  cases p.slots[k]? with
  | none => rfl
  | some s => rfl

theorem slot?_without :
  (p.without lost gone).slot? id = if lost id then none else p.slot? id
  := by
  apply Option.ext
  intro k
  rw [slot?_eq_some_iff, Option.ite_none_left_eq_some, slot?_eq_some_iff, at?_without]
  constructor
  · rintro ⟨m, hm, rfl⟩
    obtain ⟨n, hn, rfl⟩ := Option.map_eq_some_iff.mp hm
    obtain ⟨hn, hkept⟩ := Option.filter_eq_some_iff.mp hn
    have hnot : ¬ lost n.id := by simpa using hkept
    exact ⟨hnot, n, hn, rfl⟩
  · rintro ⟨hkept, n, hn, rfl⟩
    refine ⟨n.without gone, ?_, rfl⟩
    rw [hn, Option.filter_some_pos (by simpa using hkept), Option.map_some]

theorem find?_without :
  (p.without lost gone).find? id =
    if lost id then none else (p.find? id).map fun n => n.without gone
  := by
  rw [without, find?_mapNodes]
  cases hn : p.find? id with
  | none => simp
  | some n =>
      rw [Option.bind_some, id_of_find? hn]
      rfl

theorem farEnds_without (side : Side) (x : Endpoint) :
  (p.without lost gone).farEnds side x = if lost x.node then []
    else (p.farEnds side x).filter fun far => !gone (.ofEnds side x far)
  := by
  rw [farEnds, find?_without, farEnds]
  cases hn : p.find? x.node with
  | none => cases lost x.node <;> rfl
  | some n =>
      cases lost x.node with
      | true => rfl
      | false =>
          obtain ⟨id, k⟩ := x
          obtain rfl : n.id = id := id_of_find? hn
          apply Node.ends_without

/-- The connections that are left are in the order in which they were, if those of the lost nodes
are gone. -/
theorem edges_without (hlost : ∀ e ∈ p.edges, lost e.source.node → gone e) :
  (p.without lost gone).edges = p.edges.filter fun e => !gone e
  := by
  have hnodes : ∀ n ∈ p.nodes, lost n.id → ∀ e ∈ n.outgoing, gone e := by
    intro n hn hid e he
    apply hlost e (List.mem_flatMap.mpr ⟨n, hn, he⟩)
    obtain ⟨_, -, rfl⟩ := List.mem_map.mp he
    apply hid
  rw [edges_eq_flatMap, edges_eq_flatMap, nodes_without]
  generalize p.nodes = nodes at hnodes
  induction nodes with
  | nil => rfl
  | cons n rest ih =>
      obtain ⟨hn, hrest⟩ := List.forall_mem_cons.mp hnodes
      rw [List.flatMap_cons, List.filter_append, ← ih hrest]
      cases h : lost n.id with
      | true =>
          have hgone : n.outgoing.filter (fun e => !gone e) = [] := by simpa using hn h
          rw [List.filter_cons_of_neg (by simp [h]), hgone, List.nil_append]
      | false =>
          rw [List.filter_cons_of_pos (by simp [h]), List.map_cons, List.flatMap_cons,
            Node.outgoing_without]

/-! ### Trimming -/

/-- Trimming loses the nodes that are not kept, and the connections that do not join kept ones. -/
theorem trim_eq_without (p : Patch) (ids : List NodeId) :
  p.trim ids =
    p.without (· ∉ ids) fun e => ¬ (e.source.node ∈ ids ∧ e.sink.node ∈ ids)
  := by
  apply eq_of_slots
  rw [slots_without, trim, mapNodes]
  apply List.map_congr_left
  intro s _
  cases s with
  | none => rfl
  | some n =>
      by_cases h : n.id ∈ ids
      · rw [Option.bind_some, if_pos (List.contains_iff_mem.mpr h),
          Option.filter_some_pos (by simpa using h), Option.map_some, Node.without_eq_restrict h]
      · rw [Option.bind_some, if_neg (mt List.contains_iff_mem.mp h),
          Option.filter_some_neg (by simpa using h), Option.map_none]

/-- What trimming a patch that passes the check leaves: the nodes with the given ids, in their
slots and with all but their connections as it was, and the connections between them, in their
order. It passes the check, and trimming it again changes nothing. -/
theorem trim_leaves_kept (hp : p.validate = .ok ()) (ids : List NodeId) :
  (p.trim ids).nodes.map Node.bare = (p.nodes.filter (·.id ∈ ids)).map Node.bare ∧
    (∀ k, ((p.trim ids).at? k).map Node.bare = ((p.at? k).filter (·.id ∈ ids)).map Node.bare) ∧
    (∀ id, (p.trim ids).slot? id = if id ∈ ids then p.slot? id else none) ∧
    (p.trim ids).edges = p.edges.filter (fun e => e.source.node ∈ ids ∧ e.sink.node ∈ ids) ∧
    (∀ n ∈ p.nodes, n.id ∈ ids → ∃ m, (p.trim ids).find? n.id = some m ∧
      ∀ i, m.sourcesAt i = (n.sourcesAt i).filter (·.node ∈ ids)) ∧
    (p.trim ids).validate = .ok () ∧
    (p.trim ids).trim ids = p.trim ids
  := by
  refine ⟨?_, ?_, ?_, ?_, ?_, ?_, trim_trim p ids⟩
  · rw [trim_eq_without, nodes_without, List.map_map]
    simp [Function.comp_def]
  · intro k
    rw [trim_eq_without, at?_without, Option.map_map]
    simp [Function.comp_def]
  · intro id
    rw [trim_eq_without, slot?_without]
    simp
  · rw [trim_eq_without, edges_without]
    · simp
    · intro e _ hlost
      apply decide_eq_true
      intro hkept
      apply of_decide_eq_true hlost hkept.1
  · intro n hn hid
    refine ⟨n.restrict ids.contains, ?_, ?_⟩
    · rw [find?_trim, if_pos hid, find?_of_mem hn, Option.map_some]
    · intro i
      rw [Node.sourcesAt, Node.restrict, Links.ends_restrict]
      simp [Node.sourcesAt]
  · apply ((coherent_of_validate hp).trim ids).validate

/-- The new clock is alone with itself, in the slot in which it was. -/
theorem trim_leaves_kept_chime :
  (Chime.patch.afterAll Chime.edits).validate = .ok () ∧
    ((Chime.patch.afterAll Chime.edits).trim ["clock", "lamp", "clock"]).slot? "clock" = some 2 ∧
    ((Chime.patch.afterAll Chime.edits).trim ["clock", "lamp", "clock"]).edges =
      [⟨⟨"clock", 0⟩, "clock", 0⟩] ∧
    ((Chime.patch.afterAll Chime.edits).trim ["clock", "lamp", "clock"]).validate = .ok ()
  := by
  have hvalid : (Chime.patch.afterAll Chime.edits).validate = .ok () := by decide
  obtain ⟨-, -, hslot, hedges, -, hleft, -⟩ :=
    trim_leaves_kept hvalid ["clock", "lamp", "clock"]
  refine ⟨hvalid, ?_, ?_, hleft⟩
  · rw [hslot]
    decide
  · rw [hedges]
    decide

end Patch

end AudioPatch
