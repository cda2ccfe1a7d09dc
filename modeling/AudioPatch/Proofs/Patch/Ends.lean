import AudioPatch.Proofs.Patch.Trim

/-!
# The ends of connections

A connection is listed at both its ends. What a patch lists at a portlet are the far ends of the
connections there: at an outlet the inlets that it feeds, at an inlet the outlets that feed it.
Every edit is described by what it does to the far ends and to the kinds of the portlets.
-/

namespace AudioPatch

/-! ### One node -/

/-- The connections of a node on one side. -/
def Node.linksOn (n : Node) : Side → Links
  | .inlet => n.sources
  | .outlet => n.sinks

/-- The kind of a portlet of a node. -/
def Node.kindAt? (n : Node) (side : Side) (q : PortletId) : Option PortletKind :=
  match side with
  | .inlet => (n.inlets.find? q).map Portlet.kind
  | .outlet => (n.outlets.find? q).map Portlet.kind

/-- A node lists no connection twice. -/
def Node.Unrepeated (n : Node) : Prop :=
  (∀ ends ∈ n.sources.values, ends.Nodup) ∧ ∀ ends ∈ n.sinks.values, ends.Nodup

instance (n : Node) : Decidable n.Unrepeated := inferInstanceAs (Decidable (_ ∧ _))

/-- The end of a connection that is on one side of a node. -/
def Edge.near (e : Edge) : Side → Endpoint
  | .inlet => e.sink
  | .outlet => e.source

/-- The other end of a connection. -/
def Edge.far (e : Edge) : Side → Endpoint
  | .inlet => e.source
  | .outlet => e.sink

/-- A connection is known by its two ends, seen from either side. -/
theorem Edge.eq_of_near_far {e e' : Edge} (side : Side) (hnear : e.near side = e'.near side)
    (hfar : e.far side = e'.far side) :
  e = e'
  := by
  obtain ⟨source, sink⟩ := e
  obtain ⟨source', sink'⟩ := e'
  cases side with
  | inlet =>
      obtain rfl : sink = sink' := hnear
      obtain rfl : source = source' := hfar
      rfl
  | outlet =>
      obtain rfl : source = source' := hnear
      obtain rfl : sink = sink' := hfar
      rfl

/-! ### Connections at a portlet -/

namespace Links

variable {links : Links} {k k' : PortletId} {e : Endpoint}

theorem ends_insert {ends : List Endpoint} :
  Links.ends (links.insert k ends) k' = if k' = k then ends else links.ends k'
  := by
  rw [Links.ends, Table.find?_insert]
  by_cases h : k' = k
  · rw [if_pos h, if_pos h]
    rfl
  · rw [if_neg h, if_neg h, Links.ends]

theorem ends_erase :
  Links.ends (links.erase k) k' = if k' = k then [] else links.ends k'
  := by
  rw [Links.ends, Table.find?_erase]
  by_cases h : k' = k
  · rw [if_pos h, if_pos h]
    rfl
  · rw [if_neg h, if_neg h, Links.ends]

theorem ends_add :
  (links.add k e).ends k' = if k' = k then links.ends k' ++ [e] else links.ends k'
  := by
  rw [Links.add, ends_insert]
  by_cases h : k' = k
  · rw [if_pos h, if_pos h, h]
  · rw [if_neg h, if_neg h]

theorem ends_remove :
  (links.remove k e).ends k' = if k' = k then (links.ends k').filter (· ≠ e) else links.ends k'
  := by
  rw [Links.remove]
  cases hk : links.find? k with
  | none =>
      by_cases h : k' = k
      · have hnil : links.ends k' = [] := by
          rw [Links.ends, h, hk]
          rfl
        rw [if_pos h, hnil]
        rfl
      · rw [if_neg h]
  | some ends =>
      have hends : links.ends k = ends := Links.ends_of_find? hk
      dsimp only
      split
      · rename_i hnil
        rw [ends_erase]
        by_cases h : k' = k
        · rw [if_pos h, if_pos h, h, hends, hnil]
        · rw [if_neg h, if_neg h]
      · rw [ends_insert]
        by_cases h : k' = k
        · rw [if_pos h, if_pos h, h, hends]
        · rw [if_neg h, if_neg h]

theorem nodup_ends (h : ∀ ends ∈ links.values, ends.Nodup) :
  (links.ends k).Nodup
  := by
  rw [Links.ends]
  cases hk : links.find? k with
  | none => apply List.nodup_nil
  | some ends => apply h ends (List.mem_map_of_mem (Table.find?_eq_some_iff.mp hk))

theorem mem_flatten_iff :
  (k, e) ∈ links.flatten ↔ e ∈ links.ends k
  := by
  rw [Links.mem_ends_iff, Links.flatten, List.mem_flatMap]
  constructor
  · rintro ⟨⟨k', ends⟩, hmem, he⟩
    obtain ⟨e', he', heq⟩ := List.mem_map.mp he
    obtain ⟨rfl, rfl⟩ := Prod.mk.inj heq
    exact ⟨ends, hmem, he'⟩
  · rintro ⟨ends, hmem, he⟩
    exact ⟨(k, ends), hmem, List.mem_map_of_mem he⟩

end Links

/-! ### Nodes after an edit -/

namespace Patch

variable {p : Patch} {id id' : NodeId} {n : Node} {side : Side} {x : Endpoint} {e e' : Edge}
  {ids : List NodeId}

theorem find?_mapNodes {f : Node → Option Node} (hf : ∀ n, ∀ m ∈ f n, m.id = n.id) :
  (p.mapNodes f hf).find? id = (p.find? id).bind f
  := by
  apply Option.ext
  intro m
  rw [Option.bind_eq_some_iff]
  constructor
  · intro h
    have hmem := mem_nodes_of_find? h
    rw [nodes_mapNodes hf] at hmem
    obtain ⟨n, hn, hfn⟩ := List.mem_filterMap.mp hmem
    use n
    rw [← id_of_find? h, hf n m hfn]
    exact ⟨find?_of_mem hn, hfn⟩
  · rintro ⟨n, hn, hfn⟩
    rw [← id_of_find? hn, ← hf n m hfn]
    apply find?_of_mem
    rw [nodes_mapNodes hf]
    apply List.mem_filterMap.mpr ⟨n, mem_nodes_of_find? hn, hfn⟩

theorem find?_modify {f : Node → Node} (hf : ∀ n, (f n).id = n.id) :
  (p.modify id f hf).find? id' = if id' = id then (p.find? id').map f else p.find? id'
  := by
  rw [modify, find?_mapNodes]
  cases h : p.find? id' with
  | none => simp
  | some n =>
      rw [Option.bind_some, id_of_find? h]
      by_cases heq : id' = id
      · simp [heq]
      · simp [heq]

/-- The sinks of one node changed, and the sources of another one, which may be the same. -/
theorem find?_modifyEnds {a b : NodeId} {f g : Links → Links} :
  ((p.modifySinks a f).modifySources b g).find? id = (p.find? id).map fun n =>
    { n with
      sinks := if id = a then f n.sinks else n.sinks
      sources := if id = b then g n.sources else n.sources }
  := by
  rw [modifySources, find?_modify, modifySinks, find?_modify]
  cases p.find? id with
  | none => simp
  | some n =>
      by_cases ha : id = a
      · by_cases hb : id = b
        · simp [← ha, ← hb]
        · simp [← ha, hb]
      · by_cases hb : id = b
        · simp [ha, ← hb]
        · simp [ha, hb]

theorem mem_ids_modifyEnds {a b : NodeId} {f g : Links → Links} :
  id ∈ ((p.modifySinks a f).modifySources b g).ids ↔ id ∈ p.ids
  := by
  rw [mem_ids_iff, mem_ids_iff, find?_modifyEnds, ← Option.isSome_iff_exists, Option.isSome_map,
    Option.isSome_iff_exists]

theorem find?_vacate :
  (p.vacate id).find? id' = if id' = id then none else p.find? id'
  := by
  rw [vacate, find?_mapNodes]
  cases h : p.find? id' with
  | none => simp
  | some n =>
      rw [Option.bind_some, id_of_find? h]
      by_cases heq : id' = id
      · simp [heq]
      · simp [heq]

theorem find?_trim :
  (p.trim ids).find? id =
    if id ∈ ids then (p.find? id).map (·.restrict ids.contains) else none
  := by
  rw [trim, find?_mapNodes]
  cases h : p.find? id with
  | none => simp
  | some n =>
      rw [Option.bind_some, id_of_find? h]
      by_cases heq : id ∈ ids
      · simp [heq]
      · simp [heq]

theorem nodes_append (h : ¬ p.contains n.id) :
  (p.append n h).nodes = p.nodes ++ [n]
  := by
  rw [nodes, append, List.filterMap_append]
  rfl

theorem find?_append (h : ¬ p.contains n.id) :
  (p.append n h).find? id = if id = n.id then some n else p.find? id
  := by
  rw [find?, nodes_append h, List.find?_append]
  by_cases heq : id = n.id
  · have hnone : p.find? id = none := by
      rw [heq, ← Option.not_isSome_iff_eq_none, Option.isSome_iff_exists, ← mem_ids_iff,
        ← contains_iff]
      apply h
    rw [if_pos heq, ← find?, hnone, heq]
    simp
  · rw [if_neg heq, ← find?]
    simp [Ne.symm heq]

/-! ### Far ends -/

/-- The far ends of the connections at a portlet. There are none at a portlet of a node that is
not there. -/
def farEnds (p : Patch) (side : Side) (x : Endpoint) : List Endpoint :=
  (p.find? x.node).elim [] fun n => (n.linksOn side).ends x.portlet

/-- The kind of a portlet, if it is declared. -/
def kindAt? (p : Patch) (side : Side) (x : Endpoint) : Option PortletKind :=
  (p.find? x.node).bind fun n => n.kindAt? side x.portlet

/-- A connection is listed at its end on one side. -/
def Lists (p : Patch) (side : Side) (e : Edge) : Prop :=
  e.far side ∈ p.farEnds side (e.near side)

theorem mem_ids_of_kindAt? {kind : PortletKind} (h : p.kindAt? side x = some kind) :
  x.node ∈ p.ids
  := by
  obtain ⟨n, hn, -⟩ := Option.bind_eq_some_iff.mp h
  apply mem_ids_iff.mpr ⟨n, hn⟩

theorem Lists.mem_ids (h : p.Lists side e) :
  (e.near side).node ∈ p.ids
  := by
  rw [Lists, farEnds] at h
  cases hn : p.find? (e.near side).node with
  | none =>
      rw [hn] at h
      cases h
  | some n => apply mem_ids_iff.mpr ⟨n, hn⟩

theorem farEnds_of_find? (hn : p.find? x.node = some n) :
  p.farEnds side x = (n.linksOn side).ends x.portlet
  := by
  rw [farEnds, hn]
  rfl

theorem kindAt?_of_find? (hn : p.find? x.node = some n) :
  p.kindAt? side x = n.kindAt? side x.portlet
  := by
  rw [kindAt?, hn]
  rfl

theorem lists_outlet_iff (hn : p.find? e.source.node = some n) :
  p.Lists .outlet e ↔ e.sink ∈ n.sinksAt e.source.portlet
  := by
  rw [Lists, Edge.near, farEnds_of_find? hn]
  rfl

theorem lists_inlet_iff (hn : p.find? e.sink.node = some n) :
  p.Lists .inlet e ↔ e.source ∈ n.sourcesAt e.sink.portlet
  := by
  rw [Lists, Edge.near, farEnds_of_find? hn]
  rfl

/-- The connections that leave a node are those listed at its outlets. -/
theorem mem_outgoing_iff (hn : p.find? id = some n) :
  e ∈ n.outgoing ↔ e.source.node = id ∧ p.Lists .outlet e
  := by
  rw [Node.outgoing, List.mem_map, id_of_find? hn]
  constructor
  · rintro ⟨⟨k, far⟩, hmem, rfl⟩
    refine ⟨rfl, (lists_outlet_iff hn).mpr ?_⟩
    apply Links.mem_flatten_iff.mp hmem
  · rintro ⟨rfl, hlists⟩
    rw [lists_outlet_iff hn] at hlists
    exact ⟨(e.source.portlet, e.sink), Links.mem_flatten_iff.mpr hlists, rfl⟩

/-- The connections of a patch are those listed at the outlets of its nodes. -/
theorem mem_edges_iff :
  e ∈ p.edges ↔ ∃ n, p.find? e.source.node = some n ∧ e.sink ∈ n.sinksAt e.source.portlet
  := by
  rw [edges, Store.edges, List.mem_flatMap]
  constructor
  · rintro ⟨n, hn, he⟩
    obtain ⟨hid, hlists⟩ := (mem_outgoing_iff (find?_of_mem hn)).mp he
    have hfind : p.find? e.source.node = some n := by
      rw [hid]
      apply find?_of_mem hn
    exact ⟨n, hfind, (lists_outlet_iff hfind).mp hlists⟩
  · rintro ⟨n, hn, he⟩
    refine ⟨n, mem_nodes_of_find? hn, ?_⟩
    apply (mem_outgoing_iff hn).mpr ⟨rfl, (lists_outlet_iff hn).mpr he⟩

/-- The connections that arrive at a node are those listed at its inlets. -/
theorem mem_incoming_iff (hn : p.find? id = some n) :
  e ∈ n.incoming ↔ e.sink.node = id ∧ p.Lists .inlet e
  := by
  rw [Node.incoming, List.mem_map, id_of_find? hn]
  constructor
  · rintro ⟨⟨k, far⟩, hmem, rfl⟩
    refine ⟨rfl, (lists_inlet_iff hn).mpr ?_⟩
    apply Links.mem_flatten_iff.mp hmem
  · rintro ⟨rfl, hlists⟩
    rw [lists_inlet_iff hn] at hlists
    exact ⟨(e.sink.portlet, e.source), Links.mem_flatten_iff.mpr hlists, rfl⟩

/-- No connection is listed twice at one end. -/
def Unrepeated (p : Patch) : Prop := ∀ n ∈ p.nodes, n.Unrepeated

instance : Decidable p.Unrepeated :=
  inferInstanceAs (Decidable (∀ n ∈ p.nodes, _))

theorem Unrepeated.nodup_farEnds (h : p.Unrepeated) :
  (p.farEnds side x).Nodup
  := by
  rw [farEnds]
  cases hn : p.find? x.node with
  | none => apply List.nodup_nil
  | some n =>
      obtain ⟨hsources, hsinks⟩ := h n (mem_nodes_of_find? hn)
      cases side with
      | inlet => apply Links.nodup_ends hsources
      | outlet => apply Links.nodup_ends hsinks

/-! ### What edits do to the ends -/

/-- An edge listed at both its ends, after the others. -/
def link (p : Patch) (e : Edge) : Patch :=
  (p.modifySinks e.source.node (·.add e.source.portlet e.sink)).modifySources
    e.sink.node (·.add e.sink.portlet e.source)

/-- An edge listed at neither end. -/
def unlink (p : Patch) (e : Edge) : Patch :=
  (p.modifySinks e.source.node (·.remove e.source.portlet e.sink)).modifySources
    e.sink.node (·.remove e.sink.portlet e.source)

theorem farEnds_of_not_mem (h : x.node ∉ p.ids) :
  p.farEnds side x = []
  := by
  rw [mem_ids_iff, ← Option.isSome_iff_exists, Option.not_isSome_iff_eq_none] at h
  rw [farEnds, h]
  rfl

/-- A node without connections adds no far ends. -/
theorem farEnds_append (h : ¬ p.contains n.id) (hlinks : ∀ side, n.linksOn side = .empty) :
  (p.append n h).farEnds side x = p.farEnds side x
  := by
  by_cases heq : x.node = n.id
  · have hnew : (p.append n h).find? x.node = some n := by
      rw [find?_append, if_pos heq]
    rw [farEnds_of_find? hnew, hlinks, farEnds_of_not_mem]
    · rfl
    · rw [heq, ← contains_iff]
      apply h
  · rw [farEnds, find?_append, if_neg heq, farEnds]

theorem kindAt?_append (h : ¬ p.contains n.id) (heq : x.node ≠ n.id) :
  (p.append n h).kindAt? side x = p.kindAt? side x
  := by
  rw [kindAt?, find?_append, if_neg heq, kindAt?]

/-- Changing what is listed at the ends of a connection changes the far ends there. -/
theorem farEnds_modifyEnds (f : PortletId → Endpoint → Links → Links)
    (change : Endpoint → List Endpoint → List Endpoint)
    (hf : ∀ links k far k', Links.ends (f k far links) k' =
      if k' = k then change far (links.ends k') else links.ends k')
    (hx : x.node ∈ p.ids) :
  ((p.modifySinks e.source.node (f e.source.portlet e.sink)).modifySources e.sink.node
      (f e.sink.portlet e.source)).farEnds side x =
    if x = e.near side then change (e.far side) (p.farEnds side x) else p.farEnds side x
  := by
  obtain ⟨n, hn⟩ := mem_ids_iff.mp hx
  rw [farEnds, farEnds, find?_modifyEnds, hn]
  obtain ⟨id, k⟩ := x
  cases side with
  | inlet =>
      obtain ⟨source, a, i⟩ := e
      by_cases ha : id = a
      · simp [Node.linksOn, Edge.near, Edge.far, ha, hf]
      · simp [Node.linksOn, Edge.near, ha]
  | outlet =>
      obtain ⟨⟨a, o⟩, sink⟩ := e
      by_cases ha : id = a
      · simp [Node.linksOn, Edge.near, Edge.far, ha, hf]
      · simp [Node.linksOn, Edge.near, ha]

/-- A connection between nodes of a patch is added at both its ends. -/
theorem farEnds_link (he : (e.near side).node ∈ p.ids) :
  (p.link e).farEnds side x =
    if x = e.near side then p.farEnds side x ++ [e.far side] else p.farEnds side x
  := by
  by_cases hx : x.node ∈ p.ids
  · apply farEnds_modifyEnds (fun k far links => links.add k far) (fun far ends => ends ++ [far])
    · intro links k far k'
      apply Links.ends_add
    · apply hx
  · have hne : x ≠ e.near side := fun heq => hx (heq ▸ he)
    rw [if_neg hne, farEnds_of_not_mem hx, farEnds_of_not_mem]
    rw [link, mem_ids_modifyEnds]
    apply hx

/-- A connection is taken away at both its ends. -/
theorem farEnds_unlink :
  (p.unlink e).farEnds side x =
    if x = e.near side then (p.farEnds side x).filter (· ≠ e.far side) else p.farEnds side x
  := by
  by_cases hx : x.node ∈ p.ids
  · apply farEnds_modifyEnds (fun k far links => links.remove k far)
      (fun far ends => ends.filter (· ≠ far))
    · intro links k far k'
      apply Links.ends_remove
    · apply hx
  · have hgone : (p.unlink e).farEnds side x = [] := by
      apply farEnds_of_not_mem
      rw [unlink, mem_ids_modifyEnds]
      apply hx
    rw [hgone, farEnds_of_not_mem hx]
    simp

theorem kindAt?_modifyEnds {a b : NodeId} {f g : Links → Links} :
  ((p.modifySinks a f).modifySources b g).kindAt? side x = p.kindAt? side x
  := by
  rw [kindAt?, find?_modifyEnds, kindAt?]
  cases p.find? x.node with
  | none => rfl
  | some n => cases side <;> rfl

theorem kindAt?_link :
  (p.link e).kindAt? side x = p.kindAt? side x
  := kindAt?_modifyEnds

theorem kindAt?_unlink :
  (p.unlink e).kindAt? side x = p.kindAt? side x
  := kindAt?_modifyEnds

theorem farEnds_vacate :
  (p.vacate id).farEnds side x = if x.node = id then [] else p.farEnds side x
  := by
  rw [farEnds, find?_vacate]
  by_cases h : x.node = id
  · rw [if_pos h, if_pos h]
    rfl
  · rw [if_neg h, if_neg h, farEnds]

theorem kindAt?_vacate (h : x.node ≠ id) :
  (p.vacate id).kindAt? side x = p.kindAt? side x
  := by
  rw [kindAt?, find?_vacate, if_neg h, kindAt?]

theorem farEnds_trim :
  (p.trim ids).farEnds side x =
    if x.node ∈ ids then (p.farEnds side x).filter fun far => ids.contains far.node else []
  := by
  rw [farEnds, find?_trim]
  by_cases h : x.node ∈ ids
  · rw [if_pos h, if_pos h, farEnds]
    cases p.find? x.node with
    | none => rfl
    | some n => cases side <;> apply Links.ends_restrict
  · rw [if_neg h, if_neg h]
    rfl

theorem kindAt?_trim (h : x.node ∈ ids) :
  (p.trim ids).kindAt? side x = p.kindAt? side x
  := by
  rw [kindAt?, find?_trim, if_pos h, kindAt?]
  cases p.find? x.node with
  | none => rfl
  | some n => cases side <;> rfl

/-! ### What edits do to connections -/

theorem lists_append (h : ¬ p.contains n.id) (hlinks : ∀ side, n.linksOn side = .empty) :
  (p.append n h).Lists side e ↔ p.Lists side e
  := by
  rw [Lists, farEnds_append h hlinks, Lists]

theorem lists_link (he : (e.near side).node ∈ p.ids) :
  (p.link e).Lists side e' ↔ p.Lists side e' ∨ e' = e
  := by
  rw [Lists, farEnds_link he, Lists]
  by_cases hnear : e'.near side = e.near side
  · rw [if_pos hnear, List.mem_append, List.mem_singleton]
    apply or_congr_right
    constructor
    · apply Edge.eq_of_near_far side hnear
    · rintro rfl
      rfl
  · rw [if_neg hnear, or_iff_left]
    rintro rfl
    apply hnear rfl

theorem lists_unlink :
  (p.unlink e).Lists side e' ↔ p.Lists side e' ∧ e' ≠ e
  := by
  rw [Lists, farEnds_unlink, Lists]
  by_cases hnear : e'.near side = e.near side
  · rw [if_pos hnear, List.mem_filter, decide_eq_true_iff]
    apply and_congr_right'
    apply not_congr
    constructor
    · apply Edge.eq_of_near_far side hnear
    · rintro rfl
      rfl
  · rw [if_neg hnear, and_iff_left]
    rintro rfl
    apply hnear rfl

theorem lists_vacate :
  (p.vacate id).Lists side e ↔ p.Lists side e ∧ (e.near side).node ≠ id
  := by
  rw [Lists, farEnds_vacate, Lists]
  by_cases h : (e.near side).node = id
  · simp [h]
  · simp [h]

theorem lists_trim :
  (p.trim ids).Lists side e ↔
    p.Lists side e ∧ (e.near side).node ∈ ids ∧ (e.far side).node ∈ ids
  := by
  rw [Lists, farEnds_trim, Lists]
  by_cases h : (e.near side).node ∈ ids
  · rw [if_pos h, List.mem_filter, List.contains_iff_mem]
    tauto
  · simp [h]

end Patch

end AudioPatch
