import AudioPatch.Proofs.Patch.Removal

/-!
# What edits do

An edit changes one thing in a patch and nothing else. A new connection comes last at both its ends,
and taking it away again gives the patch as it was; what takes something away gives the patch
*without* it. An edit that is refused leaves the patch as it was, even if the edit is a sequence of
changes that are made in place.

This holds of the patches that runs of edits lead to. There both ends of every connection agree, and
the patch is *tidy*: no portlet is listed without connections.
-/

namespace AudioPatch

/-! ### Tidy patches -/

namespace Links

variable {links : Links} {k : PortletId} {e : Endpoint}

theorem tidy_empty :
  Links.Tidy .empty
  := fun _ _ => nofun

theorem Tidy.add (h : links.Tidy) :
  (links.add k e).Tidy
  := by
  intro k' ends hends
  rw [Links.add, Table.find?_insert_eq_some_iff] at hends
  rcases hends with ⟨-, rfl⟩ | ⟨-, hends⟩
  · simp
  · apply h k' ends hends

theorem Tidy.remove (h : links.Tidy) :
  (links.remove k e).Tidy
  := by
  intro k' ends hends
  rw [Links.remove] at hends
  split at hends
  · apply h k' ends hends
  · dsimp only at hends
    split at hends
    · rw [Table.erase, Table.find?_filter_eq_some_iff] at hends
      apply h k' ends hends.1
    · rename_i hne
      rw [Table.find?_insert_eq_some_iff] at hends
      rcases hends with ⟨-, rfl⟩ | ⟨-, hends⟩
      · apply hne
      · apply h k' ends hends

end Links

namespace Node

/-- No portlet of the node is listed without connections. -/
def Tidy (n : Node) : Prop := ∀ side, (n.linksOn side).Tidy

variable {n m : Node} {gone : Edge → Bool}

theorem tidy_bare :
  n.bare.Tidy
  := by
  intro side
  cases side <;> apply Links.tidy_empty

theorem tidy_without :
  (n.without gone).Tidy
  := by
  intro side
  cases side <;> apply Links.tidy_retain

/-- A tidy node is known by the far ends of its connections and by what it is without them. -/
theorem Tidy.eq_of_ends (hn : n.Tidy) (hm : m.Tidy) (hbare : n.bare = m.bare)
    (hends : ∀ side k, (n.linksOn side).ends k = (m.linksOn side).ends k) :
  n = m
  := by
  have hsources : n.sources = m.sources := (hn .inlet).eq_of_ends (hm .inlet) (hends .inlet)
  have hsinks : n.sinks = m.sinks := (hn .outlet).eq_of_ends (hm .outlet) (hends .outlet)
  calc n = { n.bare with sources := n.sources, sinks := n.sinks } := rfl
    _ = { m.bare with sources := m.sources, sinks := m.sinks } := by rw [hbare, hsources, hsinks]
    _ = m := rfl

end Node

namespace Patch

/-- No portlet is listed without connections. -/
def Tidy (p : Patch) : Prop := ∀ n ∈ p.nodes, n.Tidy

/-- The slots with the nodes as they are without their connections. -/
def bareSlots (p : Patch) : List (Option Node) := p.slots.map (Option.map Node.bare)

variable {p q : Patch} {lost lost' : NodeId → Bool} {gone gone' : Edge → Bool} {id : NodeId}
  {n : Node} {e : Edge} {edges : List Edge}

theorem ends_eq_farEnds (hn : n ∈ p.nodes) (side : Side) (k : PortletId) :
  (n.linksOn side).ends k = p.farEnds side ⟨n.id, k⟩
  := by
  rw [farEnds_of_find? (n := n)]
  apply find?_of_mem hn

/-- A tidy patch is known by its far ends and by its slots without connections. -/
theorem Tidy.eq_of_farEnds (hp : p.Tidy) (hq : q.Tidy) (hslots : p.bareSlots = q.bareSlots)
    (hends : ∀ side x, p.farEnds side x = q.farEnds side x) :
  p = q
  := by
  have hnode : ∀ n m, some n ∈ p.slots → some m ∈ q.slots → n.bare = m.bare → n = m := by
    intro n m hn hm hbare
    have hid : n.bare.id = m.bare.id := by rw [hbare]
    change n.id = m.id at hid
    apply (hp n (mem_nodes_of_slots hn)).eq_of_ends (hq m (mem_nodes_of_slots hm)) hbare
    intro side k
    rw [ends_eq_farEnds (mem_nodes_of_slots hn), ends_eq_farEnds (mem_nodes_of_slots hm), hends,
      hid]
  apply eq_of_slots
  apply List.ext_getElem?
  intro k
  have hk : (p.slots[k]?).map (Option.map Node.bare) = (q.slots[k]?).map (Option.map Node.bare) := by
    rw [← List.getElem?_map, ← List.getElem?_map]
    exact congrArg (·[k]?) hslots
  cases hs : p.slots[k]? with
  | none =>
      rw [hs, Option.map_none, eq_comm, Option.map_eq_none_iff] at hk
      rw [hk]
  | some s =>
      rw [hs] at hk
      obtain ⟨s', hs', heq⟩ := Option.map_eq_some_iff.mp hk.symm
      rw [hs']
      cases s with
      | none => rw [Option.map_eq_none_iff.mp heq]
      | some n =>
          obtain ⟨m, rfl, hbare⟩ := Option.map_eq_some_iff.mp heq
          rw [hnode n m (List.mem_of_getElem? hs) (List.mem_of_getElem? hs') hbare.symm]

/-! ### Single changes -/

theorem bareSlots_mapNodes (taken : NodeId → Bool) {f : Node → Option Node}
    (hf : ∀ n, ∀ m ∈ f n, m.id = n.id)
    (hbare : ∀ n, (f n).map Node.bare = if taken n.id then none else some n.bare) :
  (p.mapNodes f hf).bareSlots =
    p.bareSlots.map (·.bind fun n => if taken n.id then none else some n)
  := by
  rw [bareSlots, mapNodes, bareSlots, List.map_map, List.map_map]
  apply List.map_congr_left
  intro s _
  cases s with
  | none => rfl
  | some n => apply hbare n

theorem bareSlots_without :
  (p.without lost gone).bareSlots =
    p.bareSlots.map (·.bind fun n => if lost n.id then none else some n)
  := by
  apply bareSlots_mapNodes lost
  intro n
  cases lost n.id <;> rfl

theorem bareSlots_vacate :
  (p.vacate id).bareSlots =
    p.bareSlots.map (·.bind fun n => if decide (n.id = id) then none else some n)
  := by
  apply bareSlots_mapNodes (· = id)
  intro n
  by_cases h : n.id = id <;> simp [h]

theorem bareSlots_modify {f : Node → Node} (hf : ∀ n, (f n).id = n.id)
    (hbare : ∀ n, (f n).bare = n.bare) :
  (p.modify id f hf).bareSlots = p.bareSlots
  := by
  rw [modify, bareSlots_mapNodes fun _ => false]
  · simp
  · intro n
    by_cases h : n.id = id <;> simp [h, hbare]

theorem bareSlots_modifyEnds {a b : NodeId} {f g : Links → Links} :
  ((p.modifySinks a f).modifySources b g).bareSlots = p.bareSlots
  := by
  rw [modifySources, bareSlots_modify, modifySinks, bareSlots_modify]
  · exact fun _ => rfl
  · exact fun _ => rfl

theorem tidy_empty :
  Patch.empty.Tidy
  := fun _ => nofun

theorem tidy_without :
  (p.without lost gone).Tidy
  := by
  intro n hn
  rw [nodes_without] at hn
  obtain ⟨m, -, rfl⟩ := List.mem_map.mp hn
  apply Node.tidy_without

theorem Tidy.append (hp : p.Tidy) (h : ¬ p.contains n.id) (hn : n.Tidy) :
  (p.append n h).Tidy
  := by
  rw [Tidy, nodes_append h]
  apply List.forall_mem_append.mpr ⟨hp, by simpa using hn⟩

theorem Tidy.vacate (hp : p.Tidy) (id : NodeId) :
  (p.vacate id).Tidy
  := by
  intro n hn
  apply hp n
  have hfind := find?_of_mem hn
  rw [find?_vacate, Option.ite_none_left_eq_some] at hfind
  apply mem_nodes_of_find? hfind.2

theorem Tidy.modifyEnds (hp : p.Tidy) {a b : NodeId} {f g : Links → Links}
    (hf : ∀ links, links.Tidy → (f links).Tidy) (hg : ∀ links, links.Tidy → (g links).Tidy) :
  ((p.modifySinks a f).modifySources b g).Tidy
  := by
  intro n hn
  have hfind := find?_of_mem hn
  generalize n.id = id at hfind
  rw [find?_modifyEnds] at hfind
  obtain ⟨m, hm, rfl⟩ := Option.map_eq_some_iff.mp hfind
  have htidy := hp m (mem_nodes_of_find? hm)
  intro side
  cases side with
  | inlet =>
      show Links.Tidy (if id = b then g m.sources else m.sources)
      split
      · apply hg _ (htidy .inlet)
      · apply htidy .inlet
  | outlet =>
      show Links.Tidy (if id = a then f m.sinks else m.sinks)
      split
      · apply hf _ (htidy .outlet)
      · apply htidy .outlet

/-- Taking away a connection gives the patch without it. -/
theorem Tidy.unlink_eq (hp : p.Tidy) (e : Edge) :
  p.unlink e = p.without (fun _ => false) (· = e)
  := by
  apply (hp.modifyEnds _ _).eq_of_farEnds tidy_without
  · rw [bareSlots_modifyEnds, bareSlots_without]
    simp
  · intro side x
    rw [← unlink, farEnds_unlink, farEnds_without]
    by_cases hx : x = e.near side
    · simp [Edge.ofEnds_eq_iff, hx]
    · simp [Edge.ofEnds_eq_iff, hx]
  · exact fun links h => h.remove
  · exact fun links h => h.remove

theorem Tidy.vacate_eq (hp : p.Tidy) (id : NodeId) :
  p.vacate id = p.without (· = id) fun _ => false
  := by
  apply (hp.vacate id).eq_of_farEnds tidy_without
  · rw [bareSlots_vacate, bareSlots_without]
  · intro side x
    rw [farEnds_vacate, farEnds_without]
    simp

theorem without_without :
  (p.without lost gone).without lost' gone' =
    p.without (fun id => lost id || lost' id) fun e => gone e || gone' e
  := by
  apply tidy_without.eq_of_farEnds tidy_without
  · rw [bareSlots_without, bareSlots_without, bareSlots_without, List.map_map]
    apply List.map_congr_left
    intro s _
    cases s with
    | none => rfl
    | some n => cases h : lost n.id <;> simp [h]
  · intro side x
    rw [farEnds_without, farEnds_without, farEnds_without]
    cases lost x.node with
    | true => simp
    | false => cases lost' x.node <;> simp [List.filter_filter, Bool.and_comm]

/-- Only what is listed matters. -/
theorem without_congr (h : ∀ side e, p.Lists side e → gone e = gone' e) :
  p.without lost gone = p.without lost gone'
  := by
  apply tidy_without.eq_of_farEnds tidy_without
  · rw [bareSlots_without, bareSlots_without]
  · intro side x
    rw [farEnds_without, farEnds_without]
    congr 1
    apply List.filter_congr
    intro far hfar
    rw [h side]
    cases side <;> apply hfar

theorem Tidy.without_none (hp : p.Tidy) :
  p.without (fun _ => false) (fun _ => false) = p
  := by
  apply tidy_without.eq_of_farEnds hp
  · rw [bareSlots_without]
    simp
  · intro side x
    rw [farEnds_without]
    simp

/-- Taking away connections one after the other gives the patch without them. -/
theorem Tidy.unlinkAll_eq (hp : p.Tidy) (edges : List Edge) :
  p.unlinkAll edges = p.without (fun _ => false) (· ∈ edges)
  := by
  induction edges generalizing p with
  | nil =>
      simp only [List.not_mem_nil, decide_false]
      apply hp.without_none.symm
  | cons e rest ih =>
      rw [unlinkAll, List.foldl_cons, ← unlinkAll, hp.unlink_eq, ih tidy_without, without_without]
      simp

theorem Tidy.link (hp : p.Tidy) (e : Edge) :
  (p.link e).Tidy
  := hp.modifyEnds (fun _ h => h.add) fun _ h => h.add

/-- Without a connection that is new, a patch is as it was. -/
theorem Tidy.without_link (hp : p.Tidy) (hsource : e.source.node ∈ p.ids)
    (hsink : e.sink.node ∈ p.ids) (hnew : ∀ side, ¬ p.Lists side e) :
  (p.link e).without (fun _ => false) (· = e) = p
  := by
  apply tidy_without.eq_of_farEnds hp
  · rw [bareSlots_without, Patch.link, bareSlots_modifyEnds]
    simp
  · intro side x
    have hnear : (e.near side).node ∈ p.ids := by
      cases side
      · apply hsink
      · apply hsource
    have hold : ∀ far ∈ p.farEnds side x, ¬ Edge.ofEnds side x far = e := by
      intro far hfar heq
      obtain ⟨rfl, rfl⟩ := Edge.ofEnds_eq_iff.mp heq
      apply hnew side hfar
    have hkept : ((p.farEnds side x).filter fun far => !decide (Edge.ofEnds side x far = e)) =
        p.farEnds side x := List.filter_eq_self.mpr (by simpa using hold)
    rw [farEnds_without, farEnds_link hnear, if_neg Bool.false_ne_true]
    split
    · rename_i hx
      rw [List.filter_append, hkept]
      simp [Edge.ofEnds_eq_iff, hx]
    · apply hkept

/-! ### Edits -/

/-- A patch has lost some nodes and some connections, and nothing else. -/
structure Loses (p q : Patch) (lost : NodeId → Bool) (gone : Edge → Bool) : Prop where
  eq_without : q = p.without lost gone
  /-- The connections that are left are in the order in which they were. -/
  edges_eq : q.edges = p.edges.filter fun e => !gone e

/-- A patch has gained a connection, and nothing else. -/
structure Gains (p q : Patch) (e : Edge) : Prop where
  /-- Without the connection the patch is as it was. -/
  without_eq : q.without (fun _ => false) (· = e) = p
  mem_edges_iff : ∀ e', e' ∈ q.edges ↔ e' ∈ p.edges ∨ e' = e
  /-- At both its ends the connection comes last. -/
  last : ∀ side, q.farEnds side (e.near side) = p.farEnds side (e.near side) ++ [e.far side]

theorem mem_edges_iff_lists :
  e ∈ p.edges ↔ p.Lists .outlet e
  := by
  rw [mem_edges_iff]
  constructor
  · rintro ⟨n, hn, he⟩
    apply (lists_outlet_iff hn).mpr he
  · intro he
    obtain ⟨n, hn⟩ := mem_ids_iff.mp he.mem_ids
    exact ⟨n, hn, (lists_outlet_iff hn).mp he⟩

/-- A connection can be made between declared portlets of one kind, if it is there already or the
inlet can take it. -/
theorem Consistent.connect_ok_iff (hp : p.Consistent) :
  (∃ q, p.connect e = .ok q) ↔ e.source.node ∈ p.ids ∧ e.sink.node ∈ p.ids ∧
    ∃ kind, p.kindAt? .outlet e.source = some kind ∧ p.kindAt? .inlet e.sink = some kind ∧
      (e ∈ p.edges ∨ ¬ (kind = .signal ∧ p.farEnds .inlet e.sink ≠ []))
  := by
  simp only [connect_eq_ok_iff, mem_edges_iff_lists, hp.mirrored]
  constructor
  · rintro ⟨q, kind, hkind, h⟩
    have hids := fun side => mem_ids_of_kindAt? (hkind side)
    refine ⟨hids .outlet, hids .inlet, kind, hkind .outlet, hkind .inlet, ?_⟩
    rcases h with ⟨hlisted, -⟩ | ⟨-, hfree, -⟩
    · exact .inl hlisted
    · right
      rintro ⟨hsignal, hsource⟩
      apply hsource (hfree hsignal)
  · rintro ⟨-, -, kind, hout, hin, h⟩
    have hkind : ∀ side, p.kindAt? side (e.near side) = some kind := by
      intro side
      cases side with
      | inlet => apply hin
      | outlet => apply hout
    by_cases hlisted : p.Lists .inlet e
    · exact ⟨p, kind, hkind, .inl ⟨hlisted, rfl⟩⟩
    · refine ⟨p.link e, kind, hkind, .inr ⟨hlisted, ?_, rfl⟩⟩
      intro hsignal
      by_contra hsource
      apply h.resolve_left hlisted ⟨hsignal, hsource⟩

/-- A connection that is there is left alone, and another one is added. -/
theorem Consistent.connect_gains (hp : p.Consistent) (htidy : p.Tidy) (h : p.connect e = .ok q) :
  (e ∈ p.edges → q = p) ∧ (e ∉ p.edges → p.Gains q e)
  := by
  rw [mem_edges_iff_lists, hp.mirrored]
  obtain ⟨kind, hkind, ⟨hlisted, rfl⟩ | ⟨hnew, -, rfl⟩⟩ := connect_eq_ok_iff.mp h
  · exact ⟨fun _ => rfl, fun hnew => absurd hlisted hnew⟩
  · refine ⟨fun hlisted => absurd hlisted hnew, fun _ => ?_⟩
    have hids := fun side => mem_ids_of_kindAt? (hkind side)
    constructor
    case without_eq =>
      apply htidy.without_link (hids .outlet) (hids .inlet)
      intro side
      rw [hp.lists_iff side, ← hp.lists_iff .inlet]
      apply hnew
    case mem_edges_iff =>
      intro e'
      rw [mem_edges_iff_lists, mem_edges_iff_lists, lists_link (hids .outlet)]
    case last =>
      intro side
      rw [farEnds_link (hids side), if_pos rfl]

theorem disconnect_ok_iff :
  (∃ q, p.disconnect e = .ok q) ↔ e.source.node ∈ p.ids ∧ e.sink.node ∈ p.ids
  := by
  simp [disconnect_eq_ok_iff]

theorem Tidy.disconnect_loses (htidy : p.Tidy) (h : p.disconnect e = .ok q) :
  p.Loses q (fun _ => false) (· = e)
  := by
  obtain ⟨-, -, rfl⟩ := disconnect_eq_ok_iff.mp h
  rw [htidy.unlink_eq]
  exact ⟨rfl, edges_without fun _ _ => nofun⟩

theorem Consistent.disconnectNodes_loses (hp : p.Consistent) (htidy : p.Tidy)
    {source sink : NodeId} (h : p.disconnectNodes source sink = .ok q) :
  p.Loses q (fun _ => false) fun e => e.source.node = source ∧ e.sink.node = sink
  := by
  obtain ⟨hsource, hsink⟩ := hp.disconnectNodes_ok_iff.mp ⟨q, h⟩
  obtain ⟨n, hn⟩ := mem_ids_iff.mp hsource
  obtain rfl := Except.ok.inj ((hp.disconnectNodes_eq hn hsink).symm.trans h)
  have hgone : ∀ side e, p.Lists side e →
      decide (e ∈ n.outgoing.filter fun e => e.sink.node = sink) =
        decide (e.source.node = source ∧ e.sink.node = sink) := by
    intro side e he
    rw [hp.lists_iff side] at he
    simp [mem_outgoing_iff hn, he]
  rw [htidy.unlinkAll_eq, without_congr hgone]
  exact ⟨rfl, edges_without fun _ _ => nofun⟩

/-- A node that is deleted leaves with all connections that touch it, and is answered as it is
without them. -/
theorem Consistent.delete_loses (hp : p.Consistent) (htidy : p.Tidy) {m : Node}
    (h : p.delete id = .ok (m, q)) :
  (∃ n, p.find? id = some n ∧ m = n.bare) ∧
    p.Loses q (· = id) fun e => e.source.node = id ∨ e.sink.node = id
  := by
  obtain ⟨n, hn⟩ := mem_ids_iff.mp (hp.delete_ok_iff.mp ⟨_, h⟩)
  obtain ⟨m', hm, hdelete⟩ := hp.delete_eq hn
  obtain ⟨rfl, rfl⟩ := Prod.mk.inj (Except.ok.inj (h.symm.trans hdelete))
  have hgone : ∀ side e, p.Lists side e → decide (e ∈ n.incoming ++ n.outgoing) =
      decide (e.source.node = id ∨ e.sink.node = id) := by
    intro side e he
    rw [hp.lists_iff side] at he
    have he' := (hp.mirrored e).mp he
    simp [mem_outgoing_iff hn, mem_incoming_iff hn, he, he', or_comm]
  rw [htidy.unlinkAll_eq, without_congr hgone] at hm ⊢
  constructor
  · use n, hn
    rw [find?_without, if_neg Bool.false_ne_true, hn, Option.map_some] at hm
    obtain rfl := Option.some.inj hm
    obtain rfl := id_of_find? hn
    apply Node.tidy_without.eq_of_ends Node.tidy_bare rfl
    intro side k
    rw [Node.ends_without]
    cases side <;> simp [Edge.ofEnds, Node.bare, Node.linksOn, Links.ends, Table.find?, Table.empty]
  · rw [tidy_without.vacate_eq, without_without]
    simp only [Bool.false_or, Bool.or_false]
    refine ⟨rfl, edges_without ?_⟩
    intro e _ hsource
    apply decide_eq_true
    exact .inl (of_decide_eq_true hsource)

/-! ### Runs of edits -/

/-- An edit keeps a patch tidy. -/
theorem Tidy.edit (htidy : p.Tidy) (hp : p.Consistent) (edit : Edit) (h : p.edit edit = .ok q) :
  q.Tidy
  := by
  cases edit with
  | add n =>
      obtain ⟨hid, rfl⟩ := edit_add_eq_ok_iff.mp h
      apply htidy.append (n := n.bare) hid Node.tidy_bare
  | connect e =>
      obtain ⟨kind, -, ⟨-, rfl⟩ | ⟨-, -, rfl⟩⟩ := connect_eq_ok_iff.mp h
      · apply htidy
      · apply htidy.link
  | disconnect e =>
      rw [(htidy.disconnect_loses h).eq_without]
      apply tidy_without
  | disconnectNodes source sink =>
      rw [(hp.disconnectNodes_loses htidy h).eq_without]
      apply tidy_without
  | delete id =>
      obtain ⟨m, hdelete⟩ := edit_delete_eq_ok_iff.mp h
      rw [(hp.delete_loses htidy hdelete).2.eq_without]
      apply tidy_without
  | trim ids =>
      rw [edit_trim] at h
      obtain rfl := Except.ok.inj h
      rw [trim_eq_without]
      apply tidy_without

/-- A run of edits keeps a patch tidy. -/
theorem Tidy.afterAll (htidy : p.Tidy) (hp : p.Consistent) (edits : List Edit) :
  (p.afterAll edits).Tidy
  := by
  induction edits generalizing p with
  | nil => apply htidy
  | cons edit rest ih =>
      apply ih _ (hp.after edit)
      rw [hp.after_eq]
      cases h : p.edit edit with
      | ok q => apply htidy.edit hp edit h
      | error e => apply htidy

end Patch

/-! ### A patch that is built -/

/-- A clock that is built to start itself over and to ring a bell. -/
def Chime.built : Patch :=
  .afterAll .empty
    [.add clock, .add bell, .connect ⟨⟨"clock", 0⟩, "clock", 0⟩, .connect ⟨⟨"clock", 0⟩, "bell", 0⟩]

namespace Patch

variable {p : Patch}

/-- What edits do to a patch that edits have led to. Made in place, an edit leaves the patch that it
makes, or the patch as it was if it is refused. A connection is made exactly if its nodes and
portlets are there, with one kind, and it is there already or the inlet can take it; the other edits
are refused exactly if a node is missing. What an edit gains or loses is what it is for, and no
more. -/
theorem edit_gains_or_loses (hp : ∃ edits, p = .afterAll .empty edits) :
  (∀ edit : Edit, (∀ q, edit.perform.run p = .ok () q ↔ p.edit edit = .ok q) ∧
      ∀ reason q, edit.perform.run p = .error reason q ↔ p.edit edit = .error reason ∧ q = p) ∧
    (∀ e, ((∃ q, p.connect e = .ok q) ↔ e.source.node ∈ p.ids ∧ e.sink.node ∈ p.ids ∧
        ∃ kind, p.kindAt? .outlet e.source = some kind ∧ p.kindAt? .inlet e.sink = some kind ∧
          (e ∈ p.edges ∨ ¬ (kind = .signal ∧ p.farEnds .inlet e.sink ≠ []))) ∧
      ∀ q, p.connect e = .ok q → (e ∈ p.edges → q = p) ∧ (e ∉ p.edges → p.Gains q e)) ∧
    (∀ e, ((∃ reason, p.disconnect e = .error reason) ↔
        e.source.node ∉ p.ids ∨ e.sink.node ∉ p.ids) ∧
      ∀ q, p.disconnect e = .ok q → p.Loses q (fun _ => false) (· = e)) ∧
    (∀ source sink, ((∃ reason, p.disconnectNodes source sink = .error reason) ↔
        source ∉ p.ids ∨ sink ∉ p.ids) ∧
      ∀ q, p.disconnectNodes source sink = .ok q →
        p.Loses q (fun _ => false) fun e => e.source.node = source ∧ e.sink.node = sink) ∧
    ∀ id, ((∃ reason, p.delete id = .error reason) ↔ id ∉ p.ids) ∧
      ∀ m q, p.delete id = .ok (m, q) → (∃ n, p.find? id = some n ∧ m = n.bare) ∧
        p.Loses q (· = id) fun e => e.source.node = id ∨ e.sink.node = id
  := by
  obtain ⟨edits, rfl⟩ := hp
  have hp := consistent_empty.afterAll edits
  have htidy := tidy_empty.afterAll consistent_empty edits
  generalize afterAll .empty edits = p at hp htidy
  refine ⟨?_, ?_, ?_, ?_, ?_⟩
  · intro edit
    refine ⟨fun q => edit_eq_ok_iff.symm, ?_⟩
    intro reason q
    rw [edit_eq_error_iff]
    constructor
    · intro h
      exact ⟨⟨q, h⟩, hp.atomic edit reason q h⟩
    · rintro ⟨⟨q', h⟩, rfl⟩
      obtain rfl := hp.atomic edit reason q' h
      apply h
  · exact fun e => ⟨hp.connect_ok_iff, fun q => hp.connect_gains htidy⟩
  · intro e
    refine ⟨?_, fun q => htidy.disconnect_loses⟩
    rw [exists_error_iff, disconnect_ok_iff, not_and_or]
  · intro source sink
    refine ⟨?_, fun q => hp.disconnectNodes_loses htidy⟩
    rw [exists_error_iff, hp.disconnectNodes_ok_iff, not_and_or]
  · intro id
    refine ⟨?_, fun m q => hp.delete_loses htidy⟩
    rw [exists_error_iff, hp.delete_ok_iff]

/-- The bell has no outlet, and a connection from it is refused. The clock leaves with the connection
to itself, which both its inlet and its outlet list, and with that to the bell. -/
theorem edit_gains_or_loses_chime :
  (∃ edits, Chime.built = .afterAll .empty edits) ∧
    Chime.built.edges = [⟨⟨"clock", 0⟩, "clock", 0⟩, ⟨⟨"clock", 0⟩, "bell", 0⟩] ∧
    (Edit.connect ⟨⟨"bell", 0⟩, "clock", 0⟩).perform.run Chime.built =
      .error (.unknownOutlet "bell" 0) Chime.built ∧
    ∃ q, Chime.built.delete "clock" = .ok (Chime.clock.bare, q) ∧
      q = Chime.built.without (· = "clock") (fun e => e.source.node = "clock" ∨ e.sink.node = "clock") ∧
      q.edges = []
  := by
  have hbuilt : ∃ edits, Chime.built = .afterAll .empty edits := ⟨_, rfl⟩
  obtain ⟨hplace, -, -, -, hdelete⟩ := edit_gains_or_loses hbuilt
  have hclock : Chime.built.delete "clock" =
      .ok (Chime.clock.bare, ⟨[none, some Chime.bell.bare], by decide⟩) := by decide
  have hloses := ((hdelete "clock").2 _ _ hclock).2
  refine ⟨hbuilt, by decide, ?_, _, hclock, hloses.eq_without, ?_⟩
  · apply ((hplace _).2 _ _).mpr ⟨by decide, rfl⟩
  · rw [hloses.edges_eq]
    decide

end Patch

end AudioPatch
