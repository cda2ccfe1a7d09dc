import AudioPatch.Compile.Wiring
import AudioPatch.Proofs.Patch.Effects
import AudioPatch.Proofs.Patch.Loading
import AudioPatch.Proofs.Repetition
import Mathlib.Data.Prod.Basic

/-!
# Patches that are built anew

What has been loaded can be built by edits: the nodes are added without their connections, and the
connections are made in the order in which the patch lists them. No edit is refused. What is built
has the same nodes, and lists every connection once, in the same order.

A patch that passes the check may list a connection several times, since the check asks whether a
connection is listed at its other end, and not how often. Edits never lead to such a patch.
-/

namespace AudioPatch

/-- Of lists in a row all but one are empty. -/
theorem flatMap_ite_eq {ι α : Type} [DecidableEq ι] {l : List ι} (hl : l.Nodup) (i : ι)
    (block : List α) :
  (l.flatMap fun j => if j = i then block else []) = if i ∈ l then block else []
  := by
  induction l with
  | nil => rfl
  | cons j rest ih =>
      obtain ⟨hj, hrest⟩ := List.nodup_cons.mp hl
      rw [List.flatMap_cons, ih hrest]
      by_cases h : j = i
      · subst h
        rw [if_pos rfl, if_neg hj, if_pos List.mem_cons_self, List.append_nil]
      · simp [h, Ne.symm h]

/-! ### The connections of a patch in a row -/

namespace Links

variable {links links' : Links} {k : PortletId}

/-- Portlets without connections do not count. -/
theorem flatten_eq_of_ends (h : ∀ k, links.ends k = links'.ends k) :
  links.flatten = links'.flatten
  := by
  have hall : ∀ links : Links, (links.retain fun _ _ => true).flatten = links.flatten := by
    intro links
    rw [flatten_retain, List.filter_true]
  have hretain : (links.retain fun _ _ => true) = links'.retain fun _ _ => true := by
    apply tidy_retain.eq_of_ends tidy_retain
    intro k
    rw [ends_retain, ends_retain, h]
  rw [← hall links, hretain, hall]

/-- Far ends that are listed once at every portlet are listed once in the row. -/
theorem flatten_eraseDups (h : ∀ k, links'.ends k = (links.ends k).eraseDups) :
  links'.flatten = links.flatten.eraseDups
  := by
  have hends : ∀ k, links'.ends k = Links.ends (links.map fun _ ends => ends.eraseDups) k := by
    intro k
    rw [h, Links.ends, Links.ends, Table.find?_map]
    cases links.find? k <;> rfl
  have hapart : links.entries.Pairwise fun a b =>
      (a.2.map (a.1, ·)).Disjoint (b.2.map (b.1, ·)) := by
    apply (List.pairwise_map.mp links.nodup_keys).imp
    intro a b hne x ha hb
    obtain ⟨far, -, rfl⟩ := List.mem_map.mp ha
    obtain ⟨far', -, heq⟩ := List.mem_map.mp hb
    apply hne (Prod.mk.inj heq).1.symm
  rw [flatten_eq_of_ends hends, Links.flatten, Links.flatten, eraseDups_flatMap hapart, Table.map,
    List.flatMap_map]
  congr 1
  funext e
  rw [eraseDups_map (Prod.mk_right_injective e.1)]

theorem flatten_eq_flatMap_keys :
  links.flatten = links.keys.flatMap fun k => (links.ends k).map (k, ·)
  := by
  rw [Links.flatten, Table.keys, List.flatMap_map]
  apply List.flatMap_congr
  intro e he
  rw [ends_of_find? (Table.find?_eq_some_iff.mpr he)]

/-- The far ends at a portlet can be picked out of the row. -/
theorem ends_eq_filter_flatten :
  links.ends k = (links.flatten.filter (·.1 = k)).map Prod.snd
  := by
  have hblock : ∀ k', ((links.ends k').map (k', ·)).filter (·.1 = k) =
      if k' = k then (links.ends k).map (k, ·) else [] := by
    intro k'
    by_cases hk : k' = k
    · simp [hk]
    · simp [hk]
  rw [flatten_eq_flatMap_keys, List.filter_flatMap, List.flatMap_congr fun k' _ => hblock k',
    flatMap_ite_eq links.nodup_keys]
  by_cases hk : k ∈ links.keys
  · simp [hk]
  · have hnil : links.ends k = [] := by
      apply List.eq_nil_iff_forall_not_mem.mpr
      intro far hfar
      apply hk (mem_keys_of_mem_ends hfar)
    rw [hnil, if_neg hk, List.map_nil]

end Links

namespace Edge

/-- The far ends of connections at a portlet. -/
def farEnds (edges : List Edge) (side : Side) (x : Endpoint) : List Endpoint :=
  (edges.filter fun e => e.near side = x).map fun e => e.far side

variable {edges : List Edge} {side : Side} {x : Endpoint} {e : Edge}

theorem far_mem_farEnds_iff :
  e.far side ∈ farEnds edges side (e.near side) ↔ e ∈ edges
  := by
  rw [farEnds, List.mem_map]
  constructor
  · rintro ⟨e', he', hfar⟩
    obtain ⟨hmem, hnear⟩ := List.mem_filter.mp he'
    rwa [← Edge.eq_of_near_far side (of_decide_eq_true hnear) hfar]
  · intro he
    exact ⟨e, List.mem_filter.mpr ⟨he, decide_eq_true rfl⟩, rfl⟩

theorem farEnds_append_singleton :
  farEnds (edges ++ [e]) side x =
    if x = e.near side then farEnds edges side x ++ [e.far side] else farEnds edges side x
  := by
  rw [farEnds, List.filter_append, List.map_append, List.filter_singleton]
  by_cases hx : x = e.near side
  · simp [hx, farEnds]
  · simp [hx, Ne.symm hx, farEnds]

end Edge

namespace Patch

variable {p q : Patch} {side : Side} {x : Endpoint} {e : Edge} {edges : List Edge}
  {nodes : List Node}

/-- The connections that leave a node, if it is there. -/
def outgoingOf (p : Patch) (id : NodeId) : List Edge := (p.find? id).elim [] Node.outgoing

theorem edges_eq_flatMap_ids :
  p.edges = p.ids.flatMap p.outgoingOf
  := by
  rw [Patch.edges, ids, List.flatMap_map]
  apply List.flatMap_congr
  intro n hn
  rw [outgoingOf, find?_of_mem hn]
  rfl

theorem source_of_mem_outgoingOf {id : NodeId} (he : e ∈ p.outgoingOf id) :
  e.source.node = id
  := by
  rw [outgoingOf] at he
  cases hn : p.find? id with
  | none => simp [hn] at he
  | some n =>
      rw [hn] at he
      apply ((mem_outgoing_iff hn).mp he).1

/-- The far ends at an outlet can be picked out of the connections. -/
theorem farEnds_outlet_eq :
  p.farEnds .outlet x = Edge.farEnds p.edges .outlet x
  := by
  have hblock : ∀ id, (p.outgoingOf id).filter (fun e => e.near .outlet = x) =
      if id = x.node then (p.outgoingOf x.node).filter fun e => e.near .outlet = x else [] := by
    intro id
    by_cases hid : id = x.node
    · rw [if_pos hid, hid]
    · rw [if_neg hid, List.filter_eq_nil_iff]
      intro e he heq
      apply hid
      rw [← source_of_mem_outgoingOf he, ← of_decide_eq_true heq, Edge.near]
  rw [Edge.farEnds, edges_eq_flatMap_ids, List.filter_flatMap,
    List.flatMap_congr fun id _ => hblock id, flatMap_ite_eq p.nodup_ids]
  by_cases hx : x.node ∈ p.ids
  · obtain ⟨n, hn⟩ := mem_ids_iff.mp hx
    obtain ⟨id, k⟩ := x
    obtain rfl : n.id = id := id_of_find? hn
    rw [farEnds_of_find? hn, Node.linksOn, Links.ends_eq_filter_flatten, if_pos hx, outgoingOf, hn,
      Option.elim_some, Node.outgoing, List.filter_map, List.map_map]
    simp [Function.comp_def, Edge.near, Edge.far]
  · rw [farEnds_of_not_mem hx, if_neg hx, List.map_nil]

/-- A patch with the same ids that lists the same connections, once at every outlet, lists them once
and in the same order. -/
theorem edges_eq_eraseDups (hids : q.ids = p.ids)
    (hends : ∀ x, q.farEnds .outlet x = (p.farEnds .outlet x).eraseDups) :
  q.edges = p.edges.eraseDups
  := by
  have hapart : p.ids.Pairwise fun id id' => (p.outgoingOf id).Disjoint (p.outgoingOf id') := by
    apply List.Pairwise.imp _ p.nodup_ids
    intro id id' hne e he he'
    apply hne
    rw [← source_of_mem_outgoingOf he, source_of_mem_outgoingOf he']
  rw [edges_eq_flatMap_ids, edges_eq_flatMap_ids, eraseDups_flatMap hapart, hids]
  apply List.flatMap_congr
  intro id hid
  obtain ⟨n, hn⟩ := mem_ids_iff.mp hid
  obtain ⟨m, hm⟩ := mem_ids_iff.mp (hids ▸ hid)
  have hflatten : m.sinks.flatten = n.sinks.flatten.eraseDups := by
    apply Links.flatten_eraseDups
    intro k
    have hk := hends ⟨id, k⟩
    rw [farEnds_of_find? hm, farEnds_of_find? hn] at hk
    apply hk
  have hinjective : Function.Injective fun e : PortletId × Endpoint => Edge.mk ⟨id, e.1⟩ e.2 := by
    rintro ⟨k, far⟩ ⟨k', far'⟩ h
    simpa using h
  rw [outgoingOf, outgoingOf, hm, hn, Option.elim_some, Option.elim_some, Node.outgoing,
    Node.outgoing, id_of_find? hm, id_of_find? hn, hflatten, eraseDups_map hinjective]

/-- No connection of a consistent patch is listed twice. -/
theorem Consistent.nodup_edges (hp : p.Consistent) :
  p.edges.Nodup
  := by
  apply eraseDups_eq_self_iff.mp
  symm
  apply edges_eq_eraseDups rfl
  intro x
  rw [eraseDups_eq_self_iff.mpr (hp.once .outlet x)]

/-! ### Making connections -/

/-- A patch lists the connections of a list and no others, each once, at every portlet in the order
in which they first occur. -/
def Retraces (p : Patch) (edges : List Edge) : Prop :=
  ∀ side x, p.farEnds side x = (Edge.farEnds edges side x).eraseDups

namespace Retraces

theorem lists_iff (hp : p.Retraces edges) :
  p.Lists side e ↔ e ∈ edges
  := by
  rw [Lists, hp, List.mem_eraseDups, Edge.far_mem_farEnds_iff]

/-- A connection that has been made adds nothing. -/
theorem again (hp : p.Retraces edges) (he : e ∈ edges) :
  p.Retraces (edges ++ [e])
  := by
  intro side x
  rw [hp, Edge.farEnds_append_singleton]
  by_cases hx : x = e.near side
  · subst hx
    rw [if_pos rfl, eraseDups_append_singleton,
      if_pos (List.contains_iff_mem.mpr (Edge.far_mem_farEnds_iff.mpr he))]
  · rw [if_neg hx]

/-- A new connection comes last at both its ends. -/
theorem link (hp : p.Retraces edges) (he : e ∉ edges) (hids : ∀ side, (e.near side).node ∈ p.ids) :
  (p.link e).Retraces (edges ++ [e])
  := by
  intro side x
  rw [farEnds_link (hids side), hp, Edge.farEnds_append_singleton]
  by_cases hx : x = e.near side
  · subst hx
    rw [if_pos rfl, if_pos rfl, eraseDups_append_singleton,
      if_neg (mt List.contains_iff_mem.mp (mt Edge.far_mem_farEnds_iff.mp he))]
  · rw [if_neg hx, if_neg hx]

end Retraces

/-! ### Patches with the same nodes -/

theorem map_bare_nodes :
  p.nodes.map Node.bare = p.bareSlots.filterMap id
  := by
  rw [Patch.nodes, bareSlots, List.map_filterMap, List.filterMap_map]
  rfl

theorem ids_congr (h : q.bareSlots = p.bareSlots) :
  q.ids = p.ids
  := by
  have hids : ∀ p : Patch, p.ids = (p.bareSlots.filterMap id).map Node.id := by
    intro p
    rw [← map_bare_nodes, List.map_map]
    rfl
  rw [hids, hids, h]

/-- The kinds of portlets do not depend on the connections. -/
theorem kindAt?_congr (h : q.bareSlots = p.bareSlots) :
  q.kindAt? side x = p.kindAt? side x
  := by
  have hfind : ∀ p : Patch, (p.find? x.node).map Node.bare =
      (p.bareSlots.filterMap id).find? (·.id = x.node) := by
    intro p
    rw [← map_bare_nodes, List.find?_map]
    rfl
  have hkind : ∀ p : Patch, p.kindAt? side x =
      ((p.find? x.node).map Node.bare).bind (·.kindAt? side x.portlet) := by
    intro p
    rw [kindAt?]
    cases p.find? x.node with
    | none => rfl
    | some n => cases side <;> rfl
  rw [hkind, hkind, hfind, hfind, h]

/-- The next connection of a coherent patch can be made, after others of it have been made among the
same nodes. -/
theorem Coherent.exists_connect (hp : p.Coherent) (hdone : ∀ e' ∈ edges, e' ∈ p.edges)
    (he : e ∈ p.edges) (hslots : q.bareSlots = p.bareSlots) (hq : q.Retraces edges) :
  ∃ r, q.connect e = .ok r ∧ r.bareSlots = p.bareSlots ∧ r.Retraces (edges ++ [e])
  := by
  have hlisted : ∀ e ∈ p.edges, p.Lists .inlet e := by
    intro e he
    rw [← hp.mirrored, ← mem_edges_iff_lists]
    apply he
  obtain ⟨kind, hkind⟩ := hp.joined (mem_edges_iff_lists.mp he)
  have hkind' : ∀ side, q.kindAt? side (e.near side) = some kind := by
    intro side
    rw [kindAt?_congr hslots, hkind]
  by_cases hmade : e ∈ edges
  · refine ⟨q, connect_eq_ok_iff.mpr ⟨kind, hkind', .inl ⟨?_, rfl⟩⟩, hslots, hq.again hmade⟩
    apply hq.lists_iff.mpr hmade
  · -- A source of the signal inlet is one that the patch lists, and it lists no other.
    have hfree : kind = .signal → q.farEnds .inlet e.sink = [] := by
      rintro rfl
      apply List.eq_nil_iff_forall_not_mem.mpr
      intro far hfar
      have hlists : q.Lists .inlet ⟨far, e.sink⟩ := hfar
      have hother := hq.lists_iff.mp hlists
      have hsame : far = e.source := by
        have hfar : far ∈ p.farEnds .inlet e.sink := hlisted ⟨far, e.sink⟩ (hdone _ hother)
        have hsource : e.source ∈ p.farEnds .inlet e.sink := hlisted e he
        obtain ⟨only, honly⟩ : ∃ only, p.farEnds .inlet e.sink = [only] := by
          apply List.length_eq_one_iff.mp
          apply Nat.le_antisymm (hp.single (hkind .inlet)) (List.length_pos_of_mem hfar)
        rw [honly, List.mem_singleton] at hfar hsource
        rw [hfar, hsource]
      subst hsame
      apply hmade hother
    refine ⟨q.link e, connect_eq_ok_iff.mpr ⟨kind, hkind', .inr ⟨?_, hfree, rfl⟩⟩, ?_, ?_⟩
    · rw [hq.lists_iff]
      apply hmade
    · rw [Patch.link, bareSlots_modifyEnds, hslots]
    · apply hq.link hmade fun side => mem_ids_of_kindAt? (hkind' side)

/-- The connections of a coherent patch can be made in their order, among the same nodes. -/
theorem Coherent.exists_foldlM_connect (hp : p.Coherent) (hslots : q.bareSlots = p.bareSlots)
    (hq : q.Retraces []) :
  ∃ r, p.edges.foldlM connect q = .ok r ∧ r.bareSlots = p.bareSlots ∧ r.Retraces p.edges
  := by
  apply Meets.never_iff.mp
  apply Meets.foldlM fun done (r : Patch) => r.bareSlots = p.bareSlots ∧ r.Retraces done
  · exact ⟨hslots, hq⟩
  · rintro done e rest hedges r ⟨hslots, hr⟩
    apply Meets.never_iff.mpr
    apply hp.exists_connect _ _ hslots hr
    · intro e' he'
      rw [hedges]
      apply List.mem_append_left _ he'
    · simp [hedges]

/-! ### Adding nodes -/

theorem edit_add_eq_place (n : Node) :
  p.edit (.add n) = Store.place p n.bare
  := by
  rw [edit_add]
  by_cases h : p.contains n.id
  · rw [add_of_contains h, place_of_contains (n := n.bare) h]
    rfl
  · rw [add_of_not_contains h, place_of_not_contains (n := n.bare) h]
    rfl

/-- Nodes without connections list none. -/
theorem retraces_nil (h : ∀ n ∈ p.nodes, n.bare = n) :
  p.Retraces []
  := by
  intro side x
  cases hn : p.find? x.node with
  | none => simp [farEnds, hn, Edge.farEnds]
  | some n =>
      rw [farEnds_of_find? hn, ← h n (mem_nodes_of_find? hn)]
      cases side <;> rfl

/-- The nodes of a patch without empty slots can be added in their order, and come without their
connections. -/
theorem exists_foldlM_add (h : p.slots = nodes.map some) :
  ∃ q, (nodes.map Edit.add).foldlM edit empty = .ok q ∧ q.bareSlots = p.bareSlots ∧ q.Retraces []
  := by
  have hids : ((empty.nodes ++ nodes.map Node.bare).map Node.id).Nodup := by
    have hnodes := p.nodup_ids
    rw [ids, nodes_of_slots h] at hnodes
    simpa [Patch.nodes, empty, Function.comp_def] using hnodes
  obtain ⟨q, hq, hslots⟩ := exists_foldlM_place hids
  refine ⟨q, ?_, ?_, ?_⟩
  · rw [List.foldlM_map] at hq ⊢
    simp only [edit_add_eq_place]
    apply hq
  · rw [bareSlots, hslots, bareSlots, h]
    simp [empty, Function.comp_def]
  · apply retraces_nil
    rw [nodes_of_slots (p := q) hslots]
    simp

/-! ### Building anew -/

/-- A run of edits none of which is refused. -/
theorem afterAll_of_foldlM {edits : List Edit} (h : edits.foldlM edit p = .ok q) :
  p.afterAll edits = q
  := by
  induction edits generalizing p with
  | nil => apply Except.ok.inj h
  | cons first rest ih =>
      rw [List.foldlM_cons] at h
      obtain ⟨r, hr, h⟩ := bind_eq_ok_iff.mp h
      rw [← ih h, ← after_of_edit hr]
      rfl

/-- The nodes of a patch added in their order, and its connections made in their order. -/
def construction (p : Patch) : List Edit := p.nodes.map .add ++ p.edges.map .connect

theorem Coherent.exists_construction (hp : p.Coherent) (hslots : p.slots = nodes.map some) :
  ∃ q, p.construction.foldlM edit empty = .ok q ∧ q.bareSlots = p.bareSlots ∧
    q.edges = p.edges.eraseDups
  := by
  obtain ⟨q, hq, hbare, hnone⟩ := exists_foldlM_add hslots
  obtain ⟨r, hr, hbare, hr'⟩ := hp.exists_foldlM_connect hbare hnone
  refine ⟨r, ?_, hbare, ?_⟩
  · rw [construction, nodes_of_slots hslots, List.foldlM_append, hq, ok_bind, List.foldlM_map]
    apply hr
  · apply edges_eq_eraseDups (ids_congr hbare)
    intro x
    rw [hr', farEnds_outlet_eq]

end Patch

/-- What an outlet sends to starts with the receivers of its sinks. -/
theorem Plan.targetsOf_eq_append {plan : Plan Patch} {names : Names} {n : Node} {o : PortletId}
    {targets : List String} (h : plan.targetsOf names n o = .ok targets) :
  ∃ receivers others, (n.sinksAt o).mapM (receiverAt names) = .ok receivers ∧
    targets = receivers ++ others
  := by
  obtain ⟨receivers, hreceivers, h⟩ := bind_eq_ok_iff.mp h
  obtain ⟨listener, h⟩ : ∃ listener, (plan.coldFunctions names ((n.sinksAt o).map (·.node)) >>=
      fun cold => .ok (receivers ++ listener ++ cold)) = .ok targets := by
    dsimp only at h
    split at h
    · obtain ⟨hook, -, h⟩ := bind_eq_ok_iff.mp h
      exact ⟨[hook], h⟩
    · exact ⟨[], h⟩
  obtain ⟨cold, -, h⟩ := bind_eq_ok_iff.mp h
  obtain rfl := Except.ok.inj h
  exact ⟨receivers, listener ++ cold, hreceivers, List.append_assoc _ _ _⟩

/-- A clock that lists the bell twice, which lists the clock once. -/
def Chime.stutter : Patch :=
  ⟨[some { clock with sources := .empty, sinks := .ofList [(0, [⟨"bell", 0⟩, ⟨"bell", 0⟩])] },
    some bell], by decide⟩

namespace Patch

variable {p : Patch} {nodes : List Node}

/-- A patch that has been loaded can be built anew without an edit being refused. What is built has
the same nodes and lists every connection once, in the same order. So the connections are the same
exactly if none is repeated, and only then does any run of edits lead to them. A message is sent to
a receiver as often as the connection to it is listed. -/
theorem construction_of_ofNodes (h : ofNodes nodes = .ok p) :
  p.nodes = nodes ∧
    (∃ q, p.construction.foldlM edit empty = .ok q ∧ q.bareSlots = p.bareSlots ∧
      q.edges = p.edges.eraseDups ∧ (q.edges = p.edges ↔ p.edges.Nodup)) ∧
    ((∃ edits, (afterAll empty edits).edges = p.edges) ↔ p.edges.Nodup) ∧
    ∀ (plan : Plan Patch) names, ∀ n ∈ p.nodes, ∀ o targets, Plan.targetsOf plan names n o = .ok targets →
      ∃ receivers others, targets = receivers ++ others ∧
        (Edge.farEnds p.edges .outlet ⟨n.id, o⟩).mapM (Plan.receiverAt names) = .ok receivers
  := by
  obtain ⟨hslots, hvalid⟩ := ofNodes_eq_ok_iff.mp h
  obtain ⟨q, hq, hbare, hedges⟩ := (coherent_of_validate hvalid).exists_construction hslots
  have hsame : q.edges = p.edges ↔ p.edges.Nodup := by
    rw [hedges, eraseDups_eq_self_iff]
  refine ⟨nodes_of_slots hslots, ⟨q, hq, hbare, hedges, hsame⟩, ?_, ?_⟩
  · constructor
    · rintro ⟨edits, hedits⟩
      rw [← hedits]
      apply (consistent_empty.afterAll edits).nodup_edges
    · intro honce
      use p.construction
      rw [afterAll_of_foldlM hq]
      apply hsame.mpr honce
  · intro plan names n hn o targets htargets
    obtain ⟨receivers, others, hreceivers, htargets⟩ := Plan.targetsOf_eq_append htargets
    refine ⟨receivers, others, htargets, ?_⟩
    rw [← farEnds_outlet_eq, ← ends_eq_farEnds hn]
    apply hreceivers

/-- The clock that lists the bell twice is loaded with both connections, and built with one. -/
theorem construction_of_ofNodes_stutter :
  ofNodes Chime.stutter.nodes = .ok Chime.stutter ∧
    Chime.stutter.edges = [⟨⟨"clock", 0⟩, "bell", 0⟩, ⟨⟨"clock", 0⟩, "bell", 0⟩] ∧
    ∃ q, Chime.stutter.construction.foldlM edit empty = .ok q ∧
      q.edges = [⟨⟨"clock", 0⟩, "bell", 0⟩]
  := by
  have hload : ofNodes Chime.stutter.nodes = .ok Chime.stutter := by decide
  obtain ⟨-, ⟨q, hq, -, hedges, -⟩, -⟩ := construction_of_ofNodes hload
  refine ⟨hload, by decide, q, hq, ?_⟩
  rw [hedges]
  decide

/-- Not every patch that is loaded can be built with the connections that it lists. -/
theorem not_forall_edges_constructed :
  ¬ ∀ nodes p, ofNodes nodes = .ok p →
    ∃ q, p.construction.foldlM edit empty = .ok q ∧ q.edges = p.edges
  := by
  intro h
  obtain ⟨q, hq, hedges⟩ := h Chime.stutter.nodes Chime.stutter (by decide)
  have honce : q.edges.Nodup := by
    rw [← afterAll_of_foldlM hq]
    apply (consistent_empty.afterAll _).nodup_edges
  rw [hedges] at honce
  revert honce
  decide

end Patch

end AudioPatch
