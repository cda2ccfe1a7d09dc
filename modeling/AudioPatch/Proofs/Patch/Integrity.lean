import AudioPatch.Patch.Integrity
import AudioPatch.Proofs.Outcome
import AudioPatch.Proofs.Table

/-!
# What a checked patch is like

The check of a patch goes through its nodes and stops at the first flaw. A patch that passes
is `Coherent`: portlets stand under their own numbers, and every connection is listed at both
its ends, at portlets of one kind.
-/

namespace AudioPatch

/-! ### Stores -/

namespace Store

variable {σ κ : Type} [Store σ κ] {s : σ} {n : Node} {id : NodeId} {k : κ}

theorem locate_of_some (h : place? s id = some k) :
  locate s id = .ok k
  := by
  rw [locate, h]

theorem locate_of_none (h : place? s id = none) :
  locate s id = .error (.unknownNode id)
  := by
  rw [locate, h]

theorem insert_of_contains (h : contains s n.id) :
  insert s n = .error (.duplicateNode n.id)
  := by
  rw [insert, dif_pos h]

theorem insert_of_not_contains (h : ¬ contains s n.id) :
  insert s n = .ok (push s n h)
  := by
  rw [insert, dif_neg h]

end Store

/-! ### Nodes by their ids -/

namespace Patch

variable {p : Patch} {id : NodeId} {n : Node}

@[simp]
theorem store_nodes :
  Store.nodes p = p.nodes
  := rfl

@[simp]
theorem store_contains :
  Store.contains p id = p.contains id
  := rfl

@[simp]
theorem store_find? :
  Store.find? p id = p.find? id
  := rfl

@[simp]
theorem store_node :
  Store.node p id = p.node id
  := rfl

@[simp]
theorem store_select {ids : List NodeId} :
  Store.select p ids = p.select ids
  := rfl

@[simp]
theorem store_trim {ids : List NodeId} :
  Store.trim p ids = p.trim ids
  := rfl

@[simp]
theorem store_pulling :
  Store.pulling p = p.pulling
  := rfl

@[simp]
theorem store_pushing :
  Store.pushing p = p.pushing
  := rfl

theorem edges_eq_flatMap :
  p.edges = p.nodes.flatMap Node.outgoing
  := rfl

theorem mem_nodes_of_find? (h : p.find? id = some n) :
  n ∈ p.nodes
  := List.mem_of_find?_eq_some h

theorem id_of_find? (h : p.find? id = some n) :
  n.id = id
  := by simpa using List.find?_some h

/-- A node is found under its id. -/
theorem nodup_ids (p : Patch) :
  p.ids.Nodup
  := p.distinct

theorem find?_of_mem (h : n ∈ p.nodes) :
  p.find? n.id = some n
  := by
  have hsome : (p.find? n.id).isSome := List.find?_isSome.mpr ⟨n, h, by simp⟩
  obtain ⟨m, hm⟩ := Option.isSome_iff_exists.mp hsome
  rw [hm, List.inj_on_of_nodup_map p.nodup_ids (mem_nodes_of_find? hm) h (id_of_find? hm)]

theorem mem_ids_iff :
  id ∈ p.ids ↔ ∃ n, p.find? id = some n
  := by
  constructor
  · intro h
    obtain ⟨n, hn, rfl⟩ := List.mem_map.mp h
    exact ⟨n, find?_of_mem hn⟩
  · rintro ⟨n, hn⟩
    rw [← id_of_find? hn]
    apply List.mem_map_of_mem (mem_nodes_of_find? hn)

theorem contains_iff :
  p.contains id ↔ id ∈ p.ids
  := by
  rw [contains, List.any_eq_true, ids, List.mem_map]
  simp

theorem require_eq_ok_iff :
  Store.require p id = .ok () ↔ id ∈ p.ids
  := by
  rw [Store.require, store_contains, ← contains_iff]
  cases p.contains id <;> simp

theorem node_eq_ok_iff :
  p.node id = .ok n ↔ p.find? id = some n
  := by
  rw [node, Store.node, store_find?]
  cases p.find? id with
  | none => simp
  | some m => simp

/-- A node that is there is found. -/
theorem exists_node (h : id ∈ p.ids) :
  ∃ n, p.node id = .ok n
  := by
  obtain ⟨n, hn⟩ := mem_ids_iff.mp h
  exact ⟨n, node_eq_ok_iff.mpr hn⟩

/-- Nodes that are there can be selected. -/
theorem meets_select {ids : List NodeId} (h : ∀ id ∈ ids, id ∈ p.ids) :
  Meets (p.select ids) (fun nodes => nodes.map Node.id = ids ∧ ∀ n ∈ nodes, p.find? n.id = some n)
    (fun _ => False)
  := by
  have hfound : Meets (p.select ids) (List.Forall₂ (fun id n => p.find? id = some n) ids)
      (fun _ => False) := by
    apply Meets.mapM
    intro id hid
    obtain ⟨n, hn⟩ := exists_node (h id hid)
    rw [store_node, hn]
    apply node_eq_ok_iff.mp hn
  apply hfound.imp_good
  intro nodes hnodes
  clear hfound h
  induction hnodes with
  | nil => simp
  | cons hn _ ih =>
      have hid := id_of_find? hn
      rw [List.map_cons, List.forall_mem_cons, hid, ih.1]
      exact ⟨rfl, hn, ih.2⟩

/-- A pulling node is found to pull. -/
theorem mem_pulling_iff :
  id ∈ p.pulling ↔ ∃ n, p.find? id = some n ∧ n.pulls
  := by
  rw [pulling, Store.pulling, List.mem_map]
  constructor
  · rintro ⟨n, hn, rfl⟩
    obtain ⟨hmem, hpulls⟩ := List.mem_filter.mp hn
    exact ⟨n, find?_of_mem hmem, hpulls⟩
  · rintro ⟨n, hn, hpulls⟩
    exact ⟨n, List.mem_filter.mpr ⟨mem_nodes_of_find? hn, hpulls⟩, id_of_find? hn⟩

end Patch

/-! ### Portlets and connections of a node -/

namespace Node

/-- The portlets on one side of a node. -/
def portletsOn (n : Node) : Side → Portlets
  | .inlet => n.inlets
  | .outlet => n.outlets

variable {n : Node}

theorem inlet_eq_ok_iff {i : PortletId} {inlet : Portlet} :
  n.inlet i = .ok inlet ↔ n.inlets.find? i = some inlet
  := by
  rw [Node.inlet]
  cases n.inlets.find? i with
  | none => simp
  | some q => simp

theorem outlet_eq_ok_iff {o : PortletId} {outlet : Portlet} :
  n.outlet o = .ok outlet ↔ n.outlets.find? o = some outlet
  := by
  rw [Node.outlet]
  cases n.outlets.find? o with
  | none => simp
  | some q => simp

end Node

/-- Portlets that stand under their own numbers are listed by increasing number. -/
theorem Portlets.ascending_ids {portlets : Portlets}
    (h : ∀ k portlet, portlets.find? k = some portlet → portlet.id = k) (kind : PortletKind) :
  ((portlets.values.filter (·.kind = kind)).map Portlet.id).Pairwise (· < ·)
  := by
  have hids : portlets.values.map Portlet.id = portlets.keys := by
    rw [Table.values, Table.keys, List.map_map]
    apply List.map_congr_left
    intro e he
    apply h e.1 e.2 (Table.find?_eq_some_iff.mpr he)
  apply List.Pairwise.sublist (List.filter_sublist.map Portlet.id)
  rw [hids]
  apply List.pairwise_map.mpr portlets.ordered

/-- A portlet with connections is listed. -/
theorem Links.mem_keys_of_mem_ends {links : Links} {k : PortletId} {e : Endpoint}
    (h : e ∈ links.ends k) :
  k ∈ links.keys
  := by
  rw [← Table.isSome_find?_iff]
  by_contra hnone
  rw [Option.not_isSome_iff_eq_none] at hnone
  rw [Links.ends, hnone] at h
  cases h

theorem Links.ends_of_find? {links : Links} {k : PortletId} {ends : List Endpoint}
    (h : links.find? k = some ends) :
  links.ends k = ends
  := by
  rw [Links.ends, h]
  rfl

theorem Links.mem_ends_iff {links : Links} {k : PortletId} {e : Endpoint} :
  e ∈ links.ends k ↔ ∃ ends, (k, ends) ∈ links.entries ∧ e ∈ ends
  := by
  simp only [← Table.find?_eq_some_iff, Links.ends]
  cases links.find? k with
  | none => simp
  | some ends => simp

namespace Patch

/-- What a patch is like whose nodes fit together. -/
structure Coherent (p : Patch) : Prop where
  /-- Inlets stand under their own numbers. -/
  inlet_id : ∀ n ∈ p.nodes, ∀ i inlet, n.inlets.find? i = some inlet → inlet.id = i
  /-- Outlets stand under their own numbers. -/
  outlet_id : ∀ n ∈ p.nodes, ∀ o outlet, n.outlets.find? o = some outlet → outlet.id = o
  /-- Connections that leave a node are listed at outlets of it. -/
  sinks_declared : ∀ n ∈ p.nodes, ∀ o ∈ n.sinks.keys, ∃ outlet, n.outlets.find? o = some outlet
  /-- Connections that arrive at a node are listed at inlets of it. -/
  sources_declared : ∀ n ∈ p.nodes, ∀ i ∈ n.sources.keys, ∃ inlet, n.inlets.find? i = some inlet
  /-- A connection leads to an inlet of the kind of its outlet, which lists it. -/
  sink : ∀ n ∈ p.nodes, ∀ o outlet, n.outlets.find? o = some outlet → ∀ e ∈ n.sinksAt o,
    ∃ m inlet, p.find? e.node = some m ∧ m.inlets.find? e.portlet = some inlet ∧
      inlet.kind = outlet.kind ∧ ⟨n.id, o⟩ ∈ m.sourcesAt e.portlet
  /-- A connection comes from a node that lists it. -/
  source : ∀ n ∈ p.nodes, ∀ i, ∀ e ∈ n.sourcesAt i,
    ∃ m, p.find? e.node = some m ∧ ⟨n.id, i⟩ ∈ m.sinksAt e.portlet
  /-- A signal inlet has one source at most. -/
  signal_source : ∀ n ∈ p.nodes, ∀ i inlet, n.inlets.find? i = some inlet →
    inlet.kind = .signal → (n.sourcesAt i).length ≤ 1

variable {p : Patch}

namespace Coherent

variable {n : Node}

theorem mem_inletsOf_iff (hp : p.Coherent) (hn : n ∈ p.nodes) {kind : PortletKind}
    {inlet : Portlet} :
  inlet ∈ n.inletsOf kind ↔ n.inlets.find? inlet.id = some inlet ∧ inlet.kind = kind
  := by
  rw [Node.inletsOf, List.mem_filter, Table.values, List.mem_map, decide_eq_true_iff]
  apply and_congr_left'
  constructor
  · rintro ⟨⟨i, _⟩, hmem, rfl⟩
    have hfind := Table.find?_eq_some_iff.mpr hmem
    rw [hp.inlet_id n hn i _ hfind, hfind]
  · intro hfind
    exact ⟨_, Table.find?_eq_some_iff.mp hfind, rfl⟩

theorem mem_outletsOf_iff (hp : p.Coherent) (hn : n ∈ p.nodes) {kind : PortletKind}
    {outlet : Portlet} :
  outlet ∈ n.outletsOf kind ↔ n.outlets.find? outlet.id = some outlet ∧ outlet.kind = kind
  := by
  rw [Node.outletsOf, List.mem_filter, Table.values, List.mem_map, decide_eq_true_iff]
  apply and_congr_left'
  constructor
  · rintro ⟨⟨o, _⟩, hmem, rfl⟩
    have hfind := Table.find?_eq_some_iff.mpr hmem
    rw [hp.outlet_id n hn o _ hfind, hfind]
  · intro hfind
    exact ⟨_, Table.find?_eq_some_iff.mp hfind, rfl⟩

theorem mem_inletsOf_ids (hp : p.Coherent) (hn : n ∈ p.nodes) {i : PortletId} {inlet : Portlet}
    (h : n.inlets.find? i = some inlet) :
  i ∈ (n.inletsOf inlet.kind).map Portlet.id
  := by
  obtain rfl := hp.inlet_id n hn i inlet h
  apply List.mem_map_of_mem ((hp.mem_inletsOf_iff hn).mpr ⟨h, rfl⟩)

theorem mem_outletsOf_ids (hp : p.Coherent) (hn : n ∈ p.nodes) {o : PortletId} {outlet : Portlet}
    (h : n.outlets.find? o = some outlet) :
  o ∈ (n.outletsOf outlet.kind).map Portlet.id
  := by
  obtain rfl := hp.outlet_id n hn o outlet h
  apply List.mem_map_of_mem ((hp.mem_outletsOf_iff hn).mpr ⟨h, rfl⟩)

theorem nodup_inletsOf (hp : p.Coherent) (hn : n ∈ p.nodes) (kind : PortletKind) :
  ((n.inletsOf kind).map Portlet.id).Nodup
  := (Portlets.ascending_ids (hp.inlet_id n hn) kind).imp UInt32.ne_of_lt

theorem nodup_outletsOf (hp : p.Coherent) (hn : n ∈ p.nodes) (kind : PortletKind) :
  ((n.outletsOf kind).map Portlet.id).Nodup
  := (Portlets.ascending_ids (hp.outlet_id n hn) kind).imp UInt32.ne_of_lt

/-- A connection that leaves a node joins an outlet and an inlet of one kind, and is listed at
the inlet. -/
theorem sink_inlet (hp : p.Coherent) (hn : n ∈ p.nodes) {o : PortletId} {e : Endpoint}
    (he : e ∈ n.sinksAt o) :
  ∃ outlet m inlet, n.outlets.find? o = some outlet ∧ p.find? e.node = some m ∧
    m.inlets.find? e.portlet = some inlet ∧ inlet.kind = outlet.kind ∧
    ⟨n.id, o⟩ ∈ m.sourcesAt e.portlet
  := by
  obtain ⟨outlet, houtlet⟩ := hp.sinks_declared n hn o (Links.mem_keys_of_mem_ends he)
  obtain ⟨m, inlet, hm, hinlet, hkind, hmem⟩ := hp.sink n hn o outlet houtlet e he
  exact ⟨outlet, m, inlet, houtlet, hm, hinlet, hkind, hmem⟩

/-- A connection that arrives at a node joins an outlet and an inlet of one kind, and is listed
at the outlet. -/
theorem source_outlet (hp : p.Coherent) (hn : n ∈ p.nodes) {i : PortletId} {e : Endpoint}
    (he : e ∈ n.sourcesAt i) :
  ∃ inlet m outlet, n.inlets.find? i = some inlet ∧ p.find? e.node = some m ∧
    m.outlets.find? e.portlet = some outlet ∧ outlet.kind = inlet.kind ∧
    ⟨n.id, i⟩ ∈ m.sinksAt e.portlet
  := by
  obtain ⟨m, hm, hmem⟩ := hp.source n hn i e he
  obtain ⟨outlet, n', inlet, houtlet, hn', hinlet, hkind, -⟩ :=
    hp.sink_inlet (mem_nodes_of_find? hm) hmem
  obtain rfl := Option.some.inj ((find?_of_mem hn).symm.trans hn')
  exact ⟨inlet, m, outlet, hinlet, hm, houtlet, hkind.symm, hmem⟩

end Coherent

/-! ### The check -/

open Store (checkPortlets checkSink checkSource checkSinks checkSources checkNode)

theorem checkPortlets_eq_ok_iff {id : NodeId} {side : Side} {portlets : Portlets} :
  checkPortlets id side portlets = .ok ()
    ↔ ∀ k portlet, portlets.find? k = some portlet → portlet.id = k
  := by
  rw [checkPortlets, forM_eq_ok_iff]
  simp only [ite_ok_eq_ok_iff, Table.find?_eq_some_iff, and_true, Prod.forall]
  constructor
  · intro h k portlet hk
    rw [h k portlet hk]
  · intro h k portlet hk
    rw [h k portlet hk]

theorem checkSink_eq_ok_iff {kind : PortletKind} {e : Edge} :
  checkSink p kind e = .ok ()
    ↔ ∃ m inlet, p.find? e.sink.node = some m ∧ m.inlets.find? e.sink.portlet = some inlet ∧
      inlet.kind = kind ∧ e.source ∈ m.sourcesAt e.sink.portlet
  := by
  rw [checkSink, store_find?]
  cases hm : p.find? e.sink.node with
  | none => simp
  | some m =>
      simp only [bind_eq_ok_iff, Node.inlet_eq_ok_iff, ite_error_eq_ok_iff, not_not]
      constructor
      · rintro ⟨inlet, hinlet, hkind, hmem, -⟩
        exact ⟨m, inlet, rfl, hinlet, hkind, hmem⟩
      · rintro ⟨_, inlet, ⟨⟩, hinlet, hkind, hmem⟩
        exact ⟨inlet, hinlet, hkind, hmem, trivial⟩

theorem checkSource_eq_ok_iff {e : Edge} :
  checkSource p e = .ok ()
    ↔ ∃ m, p.find? e.source.node = some m ∧ e.sink ∈ m.sinksAt e.source.portlet
  := by
  rw [checkSource, store_find?]
  cases hm : p.find? e.source.node with
  | none => simp
  | some m => simp

theorem checkSinks_eq_ok_iff {n : Node} :
  checkSinks p n = .ok ()
    ↔ ∀ o ends, n.sinks.find? o = some ends → ∃ outlet, n.outlets.find? o = some outlet ∧
      ∀ e ∈ ends, ∃ m inlet, p.find? e.node = some m ∧ m.inlets.find? e.portlet = some inlet ∧
        inlet.kind = outlet.kind ∧ ⟨n.id, o⟩ ∈ m.sourcesAt e.portlet
  := by
  rw [checkSinks, forM_eq_ok_iff]
  simp only [bind_eq_ok_iff, forM_eq_ok_iff, Node.outlet_eq_ok_iff, checkSink_eq_ok_iff,
    Table.find?_eq_some_iff, Prod.forall]

theorem checkSources_eq_ok_iff {n : Node} :
  checkSources p n = .ok ()
    ↔ ∀ i ends, n.sources.find? i = some ends → ∃ inlet, n.inlets.find? i = some inlet ∧
      (inlet.kind = .signal → ends.length ≤ 1) ∧
      ∀ e ∈ ends, ∃ m, p.find? e.node = some m ∧ ⟨n.id, i⟩ ∈ m.sinksAt e.portlet
  := by
  rw [checkSources, forM_eq_ok_iff]
  simp only [bind_eq_ok_iff, ite_error_eq_ok_iff, forM_eq_ok_iff, Node.inlet_eq_ok_iff,
    checkSource_eq_ok_iff, Table.find?_eq_some_iff, Prod.forall, not_and, Nat.not_lt]

theorem checkNode_eq_ok_iff {n : Node} :
  checkNode p n = .ok ()
    ↔ checkPortlets n.id .inlet n.inlets = .ok () ∧ checkPortlets n.id .outlet n.outlets = .ok () ∧
      checkSinks p n = .ok () ∧ checkSources p n = .ok ()
  := by
  simp only [checkNode, bind_eq_ok_iff]
  constructor
  · rintro ⟨⟨⟩, h₁, ⟨⟩, h₂, ⟨⟩, h₃, h₄⟩
    exact ⟨h₁, h₂, h₃, h₄⟩
  · rintro ⟨h₁, h₂, h₃, h₄⟩
    exact ⟨(), h₁, (), h₂, (), h₃, h₄⟩

/-- The nodes of a patch that passes the check fit together. -/
theorem coherent_of_validate (h : p.validate = .ok ()) :
  p.Coherent
  := by
  have hcheck : ∀ n ∈ p.nodes, _ := fun n hn => checkNode_eq_ok_iff.mp (forM_eq_ok_iff.mp h n hn)
  constructor
  · intro n hn
    apply checkPortlets_eq_ok_iff.mp (hcheck n hn).1
  · intro n hn
    apply checkPortlets_eq_ok_iff.mp (hcheck n hn).2.1
  · intro n hn o ho
    obtain ⟨ends, hends⟩ := Option.isSome_iff_exists.mp (Table.isSome_find?_iff.mpr ho)
    obtain ⟨outlet, houtlet, -⟩ := checkSinks_eq_ok_iff.mp (hcheck n hn).2.2.1 o ends hends
    exact ⟨outlet, houtlet⟩
  · intro n hn i hi
    obtain ⟨ends, hends⟩ := Option.isSome_iff_exists.mp (Table.isSome_find?_iff.mpr hi)
    obtain ⟨inlet, hinlet, -⟩ := checkSources_eq_ok_iff.mp (hcheck n hn).2.2.2 i ends hends
    exact ⟨inlet, hinlet⟩
  · intro n hn o outlet houtlet e he
    obtain ⟨ends, hends, hmem⟩ := Links.mem_ends_iff.mp he
    obtain ⟨outlet', houtlet', h'⟩ := checkSinks_eq_ok_iff.mp (hcheck n hn).2.2.1 o ends
      (Table.find?_eq_some_iff.mpr hends)
    obtain rfl := Option.some.inj (houtlet.symm.trans houtlet')
    apply h' e hmem
  · intro n hn i e he
    obtain ⟨ends, hends, hmem⟩ := Links.mem_ends_iff.mp he
    obtain ⟨_, _, _, h'⟩ := checkSources_eq_ok_iff.mp (hcheck n hn).2.2.2 i ends
      (Table.find?_eq_some_iff.mpr hends)
    apply h' e hmem
  · intro n hn i inlet hinlet hkind
    rw [Node.sourcesAt, Links.ends]
    cases hends : n.sources.find? i with
    | none => simp
    | some ends =>
        obtain ⟨inlet', hinlet', hlen, _⟩ := checkSources_eq_ok_iff.mp (hcheck n hn).2.2.2 i ends hends
        obtain rfl := Option.some.inj (hinlet.symm.trans hinlet')
        apply hlen hkind

/-- Nodes that fit together pass the check. -/
theorem Coherent.validate (hp : p.Coherent) :
  p.validate = .ok ()
  := by
  apply forM_eq_ok_iff.mpr
  intro n hn
  apply checkNode_eq_ok_iff.mpr
  refine ⟨?_, ?_, ?_, ?_⟩
  · apply checkPortlets_eq_ok_iff.mpr (hp.inlet_id n hn)
  · apply checkPortlets_eq_ok_iff.mpr (hp.outlet_id n hn)
  · apply checkSinks_eq_ok_iff.mpr
    intro o ends ho
    obtain ⟨outlet, houtlet⟩ := hp.sinks_declared n hn o (Table.mem_keys_of_find? ho)
    use outlet, houtlet
    intro e he
    apply hp.sink n hn o outlet houtlet e
    rw [Node.sinksAt, Links.ends_of_find? ho]
    apply he
  · apply checkSources_eq_ok_iff.mpr
    intro i ends hi
    obtain ⟨inlet, hinlet⟩ := hp.sources_declared n hn i (Table.mem_keys_of_find? hi)
    have hsources : n.sourcesAt i = ends := Links.ends_of_find? hi
    refine ⟨inlet, hinlet, ?_, ?_⟩
    · rw [← hsources]
      apply hp.signal_source n hn i inlet hinlet
    · rw [← hsources]
      apply hp.source n hn i

end Patch

end AudioPatch
