import AudioPatch.Proofs.Patch.Agreement
import AudioPatch.Proofs.Patch.Ends

/-!
# Nodes that make a patch

Nodes that come with their connections make a patch exactly if they have different ids and every one
of them *fits* among them all.

The check goes through the nodes one by one and stops at the first that does not fit. Of a connection
that is listed at its sink it asks only whether the source lists it too; that it comes from an outlet
of the right kind is found out when the source is checked.
-/

namespace AudioPatch

/-! ### Nodes among others -/

/-- Portlets are listed under their own numbers. -/
def Portlets.Labelled (portlets : Portlets) : Prop := ∀ e ∈ portlets.entries, e.2.id = e.1

namespace Node

/-- The portlets of a node are listed under their own numbers. -/
def Labelled (n : Node) : Prop := n.inlets.Labelled ∧ n.outlets.Labelled

instance {n : Node} : Decidable n.Labelled :=
  inferInstanceAs (Decidable ((∀ e ∈ _, _) ∧ ∀ e ∈ _, _))

/-- What a node is like that fits among the nodes of a patch. -/
structure Fits (n : Node) (nodes : List Node) : Prop where
  /-- Portlets are listed under their own numbers. -/
  labelled : n.Labelled
  /-- Connections that leave the node are listed at outlets of it. -/
  sinks_declared : ∀ o ∈ n.sinks.keys, o ∈ n.outlets.keys
  /-- Connections that arrive at the node are listed at inlets of it. -/
  sources_declared : ∀ i ∈ n.sources.keys, i ∈ n.inlets.keys
  /-- A connection leads to an inlet of the kind of its outlet, which lists it. -/
  sink : ∀ o, ∀ far ∈ n.sinksAt o, ∃ m ∈ nodes, m.id = far.node ∧
    (∃ kind, n.kindAt? .outlet o = some kind ∧ m.kindAt? .inlet far.portlet = some kind) ∧
    ⟨n.id, o⟩ ∈ m.sourcesAt far.portlet
  /-- A connection comes from a node that lists it. -/
  source : ∀ i, ∀ far ∈ n.sourcesAt i, ∃ m ∈ nodes, m.id = far.node ∧
    ⟨n.id, i⟩ ∈ m.sinksAt far.portlet
  /-- A signal inlet has one source at most. -/
  single : ∀ i, n.kindAt? .inlet i = some .signal → (n.sourcesAt i).length ≤ 1

end Node

/-! ### The check of a node -/

namespace Patch

open Store (checkPortlets checkSinks checkSources checkNode place)

variable {p q : Patch} {id : NodeId} {n : Node} {nodes : List Node}

theorem find?_eq_some_iff :
  p.find? id = some n ↔ n ∈ p.nodes ∧ n.id = id
  := by
  constructor
  · intro h
    exact ⟨mem_nodes_of_find? h, id_of_find? h⟩
  · rintro ⟨hn, rfl⟩
    apply find?_of_mem hn

theorem checkPortlets_eq_ok_iff_labelled {side : Side} {portlets : Portlets} :
  checkPortlets id side portlets = .ok () ↔ portlets.Labelled
  := by
  rw [checkPortlets_eq_ok_iff]
  simp only [Table.find?_eq_some_iff, Portlets.Labelled, Prod.forall]

/-- Connections that pass the check leave from outlets, and lead to inlets that list them. -/
theorem checkSinks_eq_ok_iff_declared :
  checkSinks p n = .ok () ↔ (∀ o ∈ n.sinks.keys, o ∈ n.outlets.keys) ∧
    ∀ o, ∀ far ∈ n.sinksAt o, ∃ m ∈ p.nodes, m.id = far.node ∧
      (∃ kind, n.kindAt? .outlet o = some kind ∧ m.kindAt? .inlet far.portlet = some kind) ∧
      ⟨n.id, o⟩ ∈ m.sourcesAt far.portlet
  := by
  rw [checkSinks_eq_ok_iff]
  constructor
  · intro h
    constructor
    · intro o ho
      obtain ⟨ends, hends⟩ := Option.isSome_iff_exists.mp (Table.isSome_find?_iff.mpr ho)
      obtain ⟨outlet, houtlet, -⟩ := h o ends hends
      apply Table.mem_keys_of_find? houtlet
    · intro o far hfar
      obtain ⟨ends, hends, hmem⟩ := Links.mem_ends_iff.mp hfar
      obtain ⟨outlet, houtlet, hsink⟩ := h o ends (Table.find?_eq_some_iff.mpr hends)
      obtain ⟨m, inlet, hm, hinlet, hkind, hsource⟩ := hsink far hmem
      obtain ⟨hm, hid⟩ := find?_eq_some_iff.mp hm
      refine ⟨m, hm, hid, ⟨outlet.kind, ?_, ?_⟩, hsource⟩
      · rw [Node.kindAt?, houtlet, Option.map_some]
      · rw [Node.kindAt?, hinlet, Option.map_some, hkind]
  · rintro ⟨hdeclared, hsink⟩ o ends ho
    obtain ⟨outlet, houtlet⟩ := Option.isSome_iff_exists.mp
      (Table.isSome_find?_iff.mpr (hdeclared o (Table.mem_keys_of_find? ho)))
    use outlet, houtlet
    intro far hfar
    rw [← Links.ends_of_find? ho] at hfar
    obtain ⟨m, hm, hid, ⟨kind, hout, hin⟩, hsource⟩ := hsink o far hfar
    obtain ⟨inlet, hinlet, hkind⟩ := Option.map_eq_some_iff.mp hin
    rw [Node.kindAt?, houtlet, Option.map_some] at hout
    exact ⟨m, inlet, find?_eq_some_iff.mpr ⟨hm, hid⟩, hinlet, hkind.trans (Option.some.inj hout).symm,
      hsource⟩

/-- Connections that pass the check arrive at inlets, one at most at an inlet for a signal, and come
from nodes that list them. -/
theorem checkSources_eq_ok_iff_declared :
  checkSources p n = .ok () ↔ (∀ i ∈ n.sources.keys, i ∈ n.inlets.keys) ∧
    (∀ i, ∀ far ∈ n.sourcesAt i, ∃ m ∈ p.nodes, m.id = far.node ∧
      ⟨n.id, i⟩ ∈ m.sinksAt far.portlet) ∧
    ∀ i, n.kindAt? .inlet i = some .signal → (n.sourcesAt i).length ≤ 1
  := by
  rw [checkSources_eq_ok_iff]
  constructor
  · intro h
    refine ⟨?_, ?_, ?_⟩
    · intro i hi
      obtain ⟨ends, hends⟩ := Option.isSome_iff_exists.mp (Table.isSome_find?_iff.mpr hi)
      obtain ⟨inlet, hinlet, -⟩ := h i ends hends
      apply Table.mem_keys_of_find? hinlet
    · intro i far hfar
      obtain ⟨ends, hends, hmem⟩ := Links.mem_ends_iff.mp hfar
      obtain ⟨-, -, -, hsource⟩ := h i ends (Table.find?_eq_some_iff.mpr hends)
      obtain ⟨m, hm, hsink⟩ := hsource far hmem
      obtain ⟨hm, hid⟩ := find?_eq_some_iff.mp hm
      exact ⟨m, hm, hid, hsink⟩
    · intro i hi
      obtain ⟨inlet, hinlet, hkind⟩ := Option.map_eq_some_iff.mp hi
      rw [Node.sourcesAt, Links.ends]
      cases hends : n.sources.find? i with
      | none => simp
      | some ends =>
          obtain ⟨inlet', hinlet', hlength, -⟩ := h i ends hends
          obtain rfl := Option.some.inj (hinlet.symm.trans hinlet')
          apply hlength hkind
  · rintro ⟨hdeclared, hsource, hsingle⟩ i ends hi
    have hends : n.sourcesAt i = ends := Links.ends_of_find? hi
    obtain ⟨inlet, hinlet⟩ := Option.isSome_iff_exists.mp
      (Table.isSome_find?_iff.mpr (hdeclared i (Table.mem_keys_of_find? hi)))
    refine ⟨inlet, hinlet, ?_, ?_⟩
    · intro hkind
      rw [← hends]
      apply hsingle i
      rw [Node.kindAt?, hinlet, Option.map_some, hkind]
    · intro far hfar
      rw [← hends] at hfar
      obtain ⟨m, hm, hid, hsink⟩ := hsource i far hfar
      exact ⟨m, find?_eq_some_iff.mpr ⟨hm, hid⟩, hsink⟩

theorem checkNode_eq_ok_iff_fits :
  checkNode p n = .ok () ↔ n.Fits p.nodes
  := by
  rw [checkNode_eq_ok_iff, checkPortlets_eq_ok_iff_labelled, checkPortlets_eq_ok_iff_labelled,
    checkSinks_eq_ok_iff_declared, checkSources_eq_ok_iff_declared]
  constructor
  · rintro ⟨hinlets, houtlets, ⟨hsinks, hsink⟩, hsources, hsource, hsingle⟩
    exact ⟨⟨hinlets, houtlets⟩, hsinks, hsources, hsink, hsource, hsingle⟩
  · rintro ⟨⟨hinlets, houtlets⟩, hsinks, hsources, hsink, hsource, hsingle⟩
    exact ⟨hinlets, houtlets, ⟨hsinks, hsink⟩, hsources, hsource, hsingle⟩

/-- A patch passes the check exactly if every node fits. -/
theorem validate_eq_ok_iff_fits :
  p.validate = .ok () ↔ ∀ n ∈ p.nodes, n.Fits p.nodes
  := by
  rw [validate, Store.validate, forM_eq_ok_iff]
  simp only [checkNode_eq_ok_iff_fits, store_nodes]

/-! ### Loading -/

theorem place_of_contains (h : p.contains n.id) :
  place p n = .error (.duplicateNode n.id)
  := by
  rw [place, Store.insert_of_contains h]
  rfl

theorem place_of_not_contains (h : ¬ p.contains n.id) :
  place p n = .ok (p.append n h)
  := by
  rw [place, Store.insert_of_not_contains h]
  rfl

/-- Nodes with new and different ids take the next slots. -/
theorem exists_foldlM_place (h : ((p.nodes ++ nodes).map Node.id).Nodup) :
  ∃ q, nodes.foldlM place p = .ok q ∧ q.slots = p.slots ++ nodes.map some
  := by
  induction nodes generalizing p with
  | nil => exact ⟨p, rfl, by simp⟩
  | cons n rest ih =>
      have hn : ¬ p.contains n.id := by
        rw [contains_iff]
        intro hmem
        rw [List.map_append] at h
        apply (List.nodup_append.mp h).2.2 _ hmem _ List.mem_cons_self rfl
      have hrest : (((p.append n hn).nodes ++ rest).map Node.id).Nodup := by
        rw [nodes_append, List.append_assoc]
        apply h
      obtain ⟨q, hq, hslots⟩ := ih hrest
      refine ⟨q, ?_, ?_⟩
      · rw [List.foldlM_cons, place_of_not_contains hn]
        apply hq
      · rw [hslots, append, List.append_assoc]
        rfl

theorem slots_of_foldlM_place (h : nodes.foldlM place p = .ok q) :
  q.slots = p.slots ++ nodes.map some
  := by
  induction nodes generalizing p with
  | nil =>
      obtain rfl := Except.ok.inj h
      simp
  | cons n rest ih =>
      rw [List.foldlM_cons] at h
      obtain ⟨r, hr, h⟩ := bind_eq_ok_iff.mp h
      by_cases hn : p.contains n.id
      · rw [place_of_contains hn] at hr
        cases hr
      · rw [place_of_not_contains hn] at hr
        obtain rfl := Except.ok.inj hr
        rw [ih h, append, List.append_assoc]
        rfl

/-- The nodes of a valid patch make a patch without empty slots. -/
theorem exists_ofNodes (hp : p.validate = .ok ()) :
  ∃ q, ofNodes p.nodes = .ok q ∧ q.slots = p.nodes.map some
  := by
  have hids : ((empty.nodes ++ p.nodes).map Node.id).Nodup := p.nodup_ids
  obtain ⟨q, hq, hslots⟩ := exists_foldlM_place hids
  have hnodes : q.nodes = p.nodes := by
    rw [nodes, hslots]
    simp [empty]
  refine ⟨q, ?_, hslots⟩
  have hvalid : Store.validate q = .ok () := (store_same_of_nodes hnodes).validate_eq.trans hp
  rw [ofNodes, Store.ofNodes]
  show (p.nodes.foldlM place empty >>= _) = _
  rw [hq, ok_bind, hvalid]
  rfl

theorem nodes_of_slots (h : p.slots = nodes.map some) :
  p.nodes = nodes
  := by
  rw [Patch.nodes, h]
  simp

/-- A patch is loaded from its nodes, which are checked. -/
theorem ofNodes_eq_ok_iff :
  ofNodes nodes = .ok p ↔ p.slots = nodes.map some ∧ p.validate = .ok ()
  := by
  constructor
  · intro h
    obtain ⟨q, hq, h⟩ := bind_eq_ok_iff.mp h
    obtain ⟨⟨⟩, hvalid, heq⟩ := bind_eq_ok_iff.mp h
    obtain rfl := Except.ok.inj heq
    exact ⟨slots_of_foldlM_place hq, hvalid⟩
  · rintro ⟨hslots, hvalid⟩
    obtain ⟨q, hq, hslots'⟩ := exists_ofNodes hvalid
    rw [nodes_of_slots hslots] at hq hslots'
    rw [hq, eq_of_slots (hslots'.trans hslots.symm)]

/-- The check decides whether nodes make a patch: they do exactly if they have different ids and
every one fits among them all. Then the patch has these nodes, and a connection that a sink lists
comes from a declared outlet of the kind of its inlet. -/
theorem ofNodes_ok_iff_fits (nodes : List Node) :
  (∀ p : Patch, p.validate = .ok () ↔ ∀ n ∈ p.nodes, n.Fits p.nodes) ∧
    ((∃ p, ofNodes nodes = .ok p) ↔
      (nodes.map Node.id).Nodup ∧ ∀ n ∈ nodes, n.Fits nodes) ∧
    ∀ p, ofNodes nodes = .ok p → p.nodes = nodes ∧
      ∀ n ∈ nodes, ∀ i, ∀ far ∈ n.sourcesAt i, ∃ m ∈ nodes, m.id = far.node ∧
        ⟨n.id, i⟩ ∈ m.sinksAt far.portlet ∧
        ∃ kind, m.kindAt? .outlet far.portlet = some kind ∧ n.kindAt? .inlet i = some kind
  := by
  refine ⟨fun p => validate_eq_ok_iff_fits, ?_, ?_⟩
  · constructor
    · rintro ⟨p, hp⟩
      obtain ⟨hslots, hvalid⟩ := ofNodes_eq_ok_iff.mp hp
      obtain rfl := nodes_of_slots hslots
      exact ⟨p.nodup_ids, validate_eq_ok_iff_fits.mp hvalid⟩
    · rintro ⟨hids, hfits⟩
      have hnew : ((empty.nodes ++ nodes).map Node.id).Nodup := hids
      obtain ⟨p, -, hslots⟩ := exists_foldlM_place hnew
      obtain rfl := nodes_of_slots hslots
      exact ⟨p, ofNodes_eq_ok_iff.mpr ⟨hslots, validate_eq_ok_iff_fits.mpr hfits⟩⟩
  · intro p hp
    obtain ⟨hslots, hvalid⟩ := ofNodes_eq_ok_iff.mp hp
    obtain rfl := nodes_of_slots hslots
    refine ⟨rfl, ?_⟩
    intro n hn i far hfar
    obtain ⟨inlet, m, outlet, hinlet, hm, houtlet, hkind, hsink⟩ :=
      (coherent_of_validate hvalid).source_outlet hn hfar
    obtain ⟨hm, hid⟩ := find?_eq_some_iff.mp hm
    refine ⟨m, hm, hid, hsink, inlet.kind, ?_, ?_⟩
    · rw [Node.kindAt?, houtlet, Option.map_some, hkind]
    · rw [Node.kindAt?, hinlet, Option.map_some]

end Patch

end AudioPatch
