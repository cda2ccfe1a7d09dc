import AudioPatch.Proofs.Patch.Programs

/-!
# Patches under edits

Edits are the only way in which a patch changes. In a *consistent* patch every connection is listed
at both its ends, once at each, between declared portlets of one kind, and a signal inlet has one
source at most. Every edit keeps a patch consistent, and so does every run of edits.
-/

namespace AudioPatch

namespace Patch

open Store (Atomic outcome outcome_eq_ok_iff outcome_eq_error_iff outcome_ask_bind outcome_bind_pure
  outcome_of_ok outcome_of_error bind_of_ok left_eq)

/-- The two ends of every connection agree. -/
structure Consistent (p : Patch) : Prop where
  /-- A connection is listed at its source exactly if it is listed at its sink. -/
  mirrored : ∀ e, p.Lists .outlet e ↔ p.Lists .inlet e
  /-- No connection is listed twice at one of its ends. -/
  once : ∀ side x, (p.farEnds side x).Nodup
  /-- The nodes of a connection are there, with declared portlets of one kind. -/
  joined : ∀ e, p.Lists .outlet e → ∃ kind, ∀ side, p.kindAt? side (e.near side) = some kind
  /-- A signal inlet has one source at most. -/
  single : ∀ x, p.kindAt? .inlet x = some .signal → (p.farEnds .inlet x).length ≤ 1

variable {p q : Patch} {id : NodeId} {n : Node} {side : Side} {x : Endpoint} {e : Edge}
  {edges : List Edge}

/-! ### Single changes -/

namespace Consistent

/-- A listed connection joins nodes that are there. -/
theorem mem_ids (hp : p.Consistent) (he : p.Lists .outlet e) :
  e.source.node ∈ p.ids ∧ e.sink.node ∈ p.ids
  := by
  obtain ⟨kind, hkind⟩ := hp.joined e he
  exact ⟨mem_ids_of_kindAt? (hkind .outlet), mem_ids_of_kindAt? (hkind .inlet)⟩

theorem lists_iff (hp : p.Consistent) (side : Side) :
  p.Lists side e ↔ p.Lists .outlet e
  := by
  cases side with
  | inlet => exact (hp.mirrored e).symm
  | outlet => rfl

theorem append (hp : p.Consistent) (h : ¬ p.contains n.id)
    (hlinks : ∀ side, n.linksOn side = .empty) :
  (p.append n h).Consistent
  := by
  have hnew : n.id ∉ p.ids := by
    rw [← contains_iff]
    apply h
  constructor
  case mirrored =>
    intro e
    rw [lists_append h hlinks, lists_append h hlinks]
    apply hp.mirrored
  case once =>
    intro side x
    rw [farEnds_append h hlinks]
    apply hp.once
  case joined =>
    intro e he
    obtain ⟨kind, hkind⟩ := hp.joined e ((lists_append h hlinks).mp he)
    use kind
    intro side
    rw [kindAt?_append h, hkind]
    intro heq
    apply hnew
    rw [← heq]
    apply mem_ids_of_kindAt? (hkind side)
  case single =>
    intro x hx
    rw [farEnds_append h hlinks]
    by_cases heq : x.node = n.id
    · rw [farEnds_of_not_mem (heq ▸ hnew)]
      simp
    · rw [kindAt?_append h heq] at hx
      apply hp.single x hx

/-- A new connection between portlets of one kind, at a signal inlet without a source. -/
theorem link (hp : p.Consistent) {kind : PortletKind}
    (hkind : ∀ side, p.kindAt? side (e.near side) = some kind) (he : ¬ p.Lists .inlet e)
    (hfree : kind = .signal → p.farEnds .inlet e.sink = []) :
  (p.link e).Consistent
  := by
  have hids : ∀ side, (e.near side).node ∈ p.ids := fun side => mem_ids_of_kindAt? (hkind side)
  constructor
  case mirrored =>
    intro e'
    rw [lists_link (hids .outlet), lists_link (hids .inlet), hp.mirrored]
  case once =>
    intro side x
    rw [farEnds_link (hids side)]
    by_cases hx : x = e.near side
    · rw [if_pos hx, ← List.concat_eq_append]
      apply List.Nodup.concat _ (hp.once side x)
      intro hmem
      apply he
      rw [hp.lists_iff .inlet, ← hp.lists_iff side]
      rw [hx] at hmem
      apply hmem
    · rw [if_neg hx]
      apply hp.once
  case joined =>
    intro e' he'
    rcases (lists_link (hids .outlet)).mp he' with he' | rfl
    · obtain ⟨kind', hkind'⟩ := hp.joined e' he'
      use kind'
      intro side
      rw [kindAt?_link, hkind']
    · use kind
      intro side
      rw [kindAt?_link, hkind]
  case single =>
    intro x hx
    rw [kindAt?_link] at hx
    rw [farEnds_link (hids .inlet)]
    by_cases heq : x = e.near .inlet
    · rw [heq, hkind] at hx
      rw [if_pos heq, heq, Edge.near, hfree (Option.some.inj hx)]
      simp
    · rw [if_neg heq]
      apply hp.single x hx

theorem unlink (hp : p.Consistent) (e : Edge) :
  (p.unlink e).Consistent
  := by
  constructor
  case mirrored =>
    intro e'
    rw [lists_unlink, lists_unlink, hp.mirrored]
  case once =>
    intro side x
    rw [farEnds_unlink]
    by_cases hx : x = e.near side
    · rw [if_pos hx]
      apply (hp.once side x).filter
    · rw [if_neg hx]
      apply hp.once
  case joined =>
    intro e' he'
    obtain ⟨kind, hkind⟩ := hp.joined e' (lists_unlink.mp he').1
    use kind
    intro side
    rw [kindAt?_unlink, hkind]
  case single =>
    intro x hx
    rw [kindAt?_unlink] at hx
    rw [farEnds_unlink]
    by_cases heq : x = e.near .inlet
    · rw [if_pos heq]
      apply Nat.le_trans (List.length_filter_le _ _) (hp.single x hx)
    · rw [if_neg heq]
      apply hp.single x hx

/-- A node without connections is taken out. -/
theorem vacate (hp : p.Consistent)
    (hfree : ∀ e, p.Lists .outlet e → e.source.node ≠ id ∧ e.sink.node ≠ id) :
  (p.vacate id).Consistent
  := by
  constructor
  case mirrored =>
    intro e
    rw [lists_vacate, lists_vacate, ← hp.mirrored]
    apply and_congr_right
    intro he
    exact iff_of_true (hfree e he).1 (hfree e he).2
  case once =>
    intro side x
    rw [farEnds_vacate]
    by_cases hx : x.node = id
    · rw [if_pos hx]
      apply List.nodup_nil
    · rw [if_neg hx]
      apply hp.once
  case joined =>
    intro e he
    obtain ⟨he, -⟩ := lists_vacate.mp he
    obtain ⟨kind, hkind⟩ := hp.joined e he
    use kind
    intro side
    rw [kindAt?_vacate, hkind]
    cases side with
    | inlet => exact (hfree e he).2
    | outlet => exact (hfree e he).1
  case single =>
    intro x hx
    rw [farEnds_vacate]
    by_cases heq : x.node = id
    · rw [if_pos heq]
      simp
    · rw [kindAt?_vacate heq] at hx
      rw [if_neg heq]
      apply hp.single x hx

theorem trim (hp : p.Consistent) (ids : List NodeId) :
  (p.trim ids).Consistent
  := by
  constructor
  case mirrored =>
    intro e
    rw [lists_trim, lists_trim, hp.mirrored]
    apply and_congr_right'
    apply and_comm
  case once =>
    intro side x
    rw [farEnds_trim]
    by_cases hx : x.node ∈ ids
    · rw [if_pos hx]
      apply (hp.once side x).filter
    · rw [if_neg hx]
      apply List.nodup_nil
  case joined =>
    intro e he
    obtain ⟨he, hnear, hfar⟩ := lists_trim.mp he
    obtain ⟨kind, hkind⟩ := hp.joined e he
    use kind
    intro side
    rw [kindAt?_trim, hkind]
    cases side with
    | inlet => exact hfar
    | outlet => exact hnear
  case single =>
    intro x hx
    have hids := (mem_ids_trim_iff.mp (mem_ids_of_kindAt? hx)).2
    rw [kindAt?_trim hids] at hx
    rw [farEnds_trim, if_pos hids]
    apply Nat.le_trans (List.length_filter_le _ _) (hp.single x hx)

end Consistent

/-! ### Many connections taken away -/

theorem mem_ids_unlinkAll :
  id ∈ (p.unlinkAll edges).ids ↔ id ∈ p.ids
  := by
  induction edges generalizing p with
  | nil => rfl
  | cons e rest ih => rw [unlinkAll, List.foldl_cons, ← unlinkAll, ih, mem_ids_unlink]

theorem lists_unlinkAll :
  (p.unlinkAll edges).Lists side e ↔ p.Lists side e ∧ e ∉ edges
  := by
  induction edges generalizing p with
  | nil => simp [unlinkAll]
  | cons e' rest ih =>
      rw [unlinkAll, List.foldl_cons, ← unlinkAll, ih, lists_unlink, List.mem_cons, not_or,
        and_assoc]

theorem Consistent.unlinkAll (hp : p.Consistent) (edges : List Edge) :
  (p.unlinkAll edges).Consistent
  := by
  induction edges generalizing p with
  | nil => apply hp
  | cons e rest ih => apply ih (hp.unlink e)

/-! ### Edits -/

theorem edit_eq_ok_iff {edit : Edit} :
  p.edit edit = .ok q ↔ edit.perform p = .ok () q
  := by
  rw [Patch.edit, map_eq_ok_iff]
  constructor
  · rintro ⟨⟨⟨⟩, q'⟩, h, rfl⟩
    apply outcome_eq_ok_iff.mp h
  · intro h
    exact ⟨_, outcome_of_ok h, rfl⟩

theorem after_of_edit {edit : Edit} (h : p.edit edit = .ok q) :
  p.after edit = q
  := by
  rw [Patch.after, Store.after, Store.left, edit_eq_ok_iff.mp h]

theorem edit_eq_error_iff {edit : Edit} {reason : PatchError} :
  p.edit edit = .error reason ↔ ∃ q, edit.perform p = .error reason q
  := by
  rw [← outcome_eq_error_iff, Patch.edit]
  cases outcome edit.perform p <;> simp [Except.map]

theorem edit_add :
  p.edit (.add n) = (p.add n).map (·.2)
  := by
  rw [edit, Edit.perform, outcome_bind_pure, add]
  cases outcome (Store.add n) p <;> rfl

theorem edit_delete :
  p.edit (.delete id) = (p.delete id).map (·.2)
  := by
  rw [edit, Edit.perform, outcome_bind_pure, delete]
  cases outcome (Store.delete id) p <;> rfl

/-- The connections at a node join nodes that are there. -/
theorem Consistent.mem_ids_of_mem (hp : p.Consistent) (hn : p.find? id = some n)
    (he : e ∈ n.incoming ++ n.outgoing) :
  e.source.node ∈ p.ids ∧ e.sink.node ∈ p.ids
  := by
  apply hp.mem_ids
  rcases List.mem_append.mp he with he | he
  · rw [hp.mirrored]
    apply ((mem_incoming_iff hn).mp he).2
  · apply ((mem_outgoing_iff hn).mp he).2

/-- Between nodes that are there, all connections can be taken away. -/
theorem Consistent.disconnectNodes_run (hp : p.Consistent) {source sink : NodeId}
    (hsource : p.find? source = some n) (hsink : sink ∈ p.ids) :
  Store.disconnectNodes source sink p =
    .ok () (p.unlinkAll (n.outgoing.filter fun e => e.sink.node = sink))
  := by
  obtain ⟨k, hk⟩ := exists_slot hsink
  rw [Store.disconnectNodes, locate_bind hk, node_bind hsource]
  apply forM_disconnect_run
  intro e he
  apply hp.mem_ids_of_mem hsource (List.mem_append_right _ (List.mem_filter.mp he).1)

theorem Consistent.disconnectNodes_eq (hp : p.Consistent) {source sink : NodeId}
    (hsource : p.find? source = some n) (hsink : sink ∈ p.ids) :
  p.disconnectNodes source sink =
    .ok (p.unlinkAll (n.outgoing.filter fun e => e.sink.node = sink))
  := by
  rw [disconnectNodes, outcome_of_ok (hp.disconnectNodes_run hsource hsink)]
  rfl

/-- A node that is there can be deleted, and leaves after its connections. -/
theorem Consistent.delete_run (hp : p.Consistent) (hn : p.find? id = some n) :
  ∃ m, (p.unlinkAll (n.incoming ++ n.outgoing)).find? id = some m ∧
    Store.delete id p = .ok m ((p.unlinkAll (n.incoming ++ n.outgoing)).vacate id)
  := by
  obtain ⟨k, hk, hat⟩ := find?_eq_some_iff_slot.mp hn
  have hk' : (p.unlinkAll (n.incoming ++ n.outgoing)).slot? id = some k := by
    rw [slot?_unlinkAll, hk]
  obtain ⟨m, hm, -⟩ := slot?_eq_some_iff.mp hk'
  use m, find?_eq_some_iff_slot.mpr ⟨k, hk', hm⟩
  rw [Store.delete, locate_bind hk, read_bind hat,
    bind_of_ok (forM_disconnect_run fun e he => hp.mem_ids_of_mem hn he), take_eq hm]

theorem Consistent.delete_eq (hp : p.Consistent) (hn : p.find? id = some n) :
  ∃ m, (p.unlinkAll (n.incoming ++ n.outgoing)).find? id = some m ∧
    p.delete id = .ok (m, (p.unlinkAll (n.incoming ++ n.outgoing)).vacate id)
  := by
  obtain ⟨m, hm, hrun⟩ := hp.delete_run hn
  exact ⟨m, hm, outcome_of_ok hrun⟩

theorem Consistent.disconnectNodes_ok_iff (hp : p.Consistent) {source sink : NodeId} :
  (∃ q, p.disconnectNodes source sink = .ok q) ↔ source ∈ p.ids ∧ sink ∈ p.ids
  := by
  constructor
  · rintro ⟨q, hq⟩
    obtain ⟨r, hr, -⟩ := map_eq_ok_iff.mp hq
    rw [Store.disconnectNodes, outcome_ask_bind] at hr
    obtain ⟨k, hk, hr⟩ := bind_eq_ok_iff.mp hr
    rw [outcome_ask_bind] at hr
    obtain ⟨n, hn, -⟩ := bind_eq_ok_iff.mp hr
    exact ⟨mem_ids_iff.mpr ⟨n, node_eq_ok_iff.mp hn⟩, mem_ids_of_slot? (locate_eq_ok_iff.mp hk)⟩
  · rintro ⟨hsource, hsink⟩
    obtain ⟨n, hn⟩ := mem_ids_iff.mp hsource
    exact ⟨_, hp.disconnectNodes_eq hn hsink⟩

theorem Consistent.delete_ok_iff (hp : p.Consistent) :
  (∃ r, p.delete id = .ok r) ↔ id ∈ p.ids
  := by
  constructor
  · rintro ⟨r, hr⟩
    rw [delete, Store.delete, outcome_ask_bind] at hr
    obtain ⟨k, hk, -⟩ := bind_eq_ok_iff.mp hr
    apply mem_ids_of_slot? (locate_eq_ok_iff.mp hk)
  · intro hid
    obtain ⟨n, hn⟩ := mem_ids_iff.mp hid
    obtain ⟨m, -, hm⟩ := hp.delete_eq hn
    exact ⟨_, hm⟩

/-- Without its connections, a node touches none. -/
theorem Consistent.vacate_unlinkAll (hp : p.Consistent) (hn : p.find? id = some n) :
  ((p.unlinkAll (n.incoming ++ n.outgoing)).vacate id).Consistent
  := by
  apply (hp.unlinkAll _).vacate
  intro e he
  obtain ⟨he, hgone⟩ := lists_unlinkAll.mp he
  rw [List.mem_append, not_or, mem_incoming_iff hn, mem_outgoing_iff hn, ← hp.mirrored] at hgone
  tauto

theorem edit_trim {ids : List NodeId} :
  p.edit (.trim ids) = .ok (p.trim ids)
  := rfl

theorem add_of_contains (h : p.contains n.id) :
  p.add n = .error (.duplicateNode n.id)
  := outcome_of_error (Store.add_of_contains h)

theorem add_of_not_contains (h : ¬ p.contains n.id) :
  p.add n = .ok (p.slots.length, p.append n.bare h)
  := outcome_of_ok (Store.add_of_not_contains h)

theorem edit_add_eq_ok_iff :
  p.edit (.add n) = .ok q ↔ ∃ h : ¬ p.contains n.id, p.append n.bare h = q
  := by
  by_cases h : p.contains n.id
  · simp [edit_add, add_of_contains h, Except.map, h]
  · simp [edit_add, add_of_not_contains h, Except.map, h]

theorem edit_delete_eq_ok_iff :
  p.edit (.delete id) = .ok q ↔ ∃ m, p.delete id = .ok (m, q)
  := by
  rw [edit_delete, map_eq_ok_iff]
  simp

/-- An edit that is refused leaves a consistent patch as it was. -/
theorem Consistent.atomic (hp : p.Consistent) (edit : Edit) :
  Atomic edit.perform p
  := by
  cases edit with
  | add n =>
      apply Atomic.bind_pure
      apply Atomic.ask_bind
      intro r _
      exact .of_ok rfl
  | connect e => apply atomic_connect
  | disconnect e => apply atomic_disconnect
  | disconnectNodes source sink =>
      apply Atomic.ask_bind
      intro k hk
      apply Atomic.ask_bind
      intro n hn
      refine .of_ok (forM_disconnect_run ?_)
      intro e he
      rw [store_node, node_eq_ok_iff] at hn
      apply hp.mem_ids_of_mem hn (List.mem_append_right _ (List.mem_filter.mp he).1)
  | delete id =>
      apply Atomic.bind_pure
      by_cases hid : id ∈ p.ids
      · obtain ⟨n, hn⟩ := mem_ids_iff.mp hid
        obtain ⟨m, -, hrun⟩ := hp.delete_run hn
        exact .of_ok hrun
      · apply Atomic.ask_bind
        intro k hk
        cases hid (mem_ids_of_slot? (locate_eq_ok_iff.mp hk))
  | trim ids => exact .of_ok rfl

theorem Consistent.after_eq (hp : p.Consistent) (edit : Edit) :
  p.after edit = (p.edit edit).toOption.getD p
  := left_eq (hp.atomic edit)

/-- An edit keeps a patch consistent. -/
theorem Consistent.edit (hp : p.Consistent) (edit : Edit) (h : p.edit edit = .ok q) :
  q.Consistent
  := by
  cases edit with
  | add n =>
      obtain ⟨hid, rfl⟩ := edit_add_eq_ok_iff.mp h
      apply hp.append (n := n.bare) hid
      intro side
      cases side with
      | inlet => rfl
      | outlet => rfl
  | connect e =>
      obtain ⟨kind, hkind, ⟨-, rfl⟩ | ⟨hnew, hfree, rfl⟩⟩ := connect_eq_ok_iff.mp h
      · apply hp
      · apply hp.link hkind hnew hfree
  | disconnect e =>
      obtain ⟨-, -, rfl⟩ := disconnect_eq_ok_iff.mp h
      apply hp.unlink
  | disconnectNodes source sink =>
      obtain ⟨hsource, hsink⟩ := hp.disconnectNodes_ok_iff.mp ⟨q, h⟩
      obtain ⟨n, hn⟩ := mem_ids_iff.mp hsource
      obtain rfl := Except.ok.inj ((hp.disconnectNodes_eq hn hsink).symm.trans h)
      apply hp.unlinkAll
  | delete id =>
      obtain ⟨m, hm⟩ := edit_delete_eq_ok_iff.mp h
      obtain ⟨n, hn⟩ := mem_ids_iff.mp (hp.delete_ok_iff.mp ⟨_, hm⟩)
      obtain ⟨m', -, hm'⟩ := hp.delete_eq hn
      cases hm'.symm.trans hm
      apply hp.vacate_unlinkAll hn
  | trim ids =>
      rw [edit_trim] at h
      obtain rfl := Except.ok.inj h
      apply hp.trim

theorem Consistent.after (hp : p.Consistent) (edit : Edit) :
  (p.after edit).Consistent
  := by
  rw [hp.after_eq]
  cases h : p.edit edit with
  | ok q => apply hp.edit edit h
  | error e => apply hp

/-- A run of edits keeps a patch consistent. -/
theorem Consistent.afterAll (hp : p.Consistent) (edits : List Edit) :
  (p.afterAll edits).Consistent
  := by
  induction edits generalizing p with
  | nil => apply hp
  | cons edit rest ih => apply ih (hp.after edit)

/-! ### Where runs start -/

theorem consistent_empty :
  empty.Consistent
  := by
  constructor
  case mirrored => exact fun _ => iff_of_false nofun nofun
  case once => exact fun _ _ => List.nodup_nil
  case joined => exact fun _ => nofun
  case single => exact fun _ => nofun

/-- A connection of a coherent patch joins declared portlets of one kind. -/
theorem Coherent.joined (hp : p.Coherent) (he : p.Lists .outlet e) :
  ∃ kind, ∀ side, p.kindAt? side (e.near side) = some kind
  := by
  obtain ⟨n, hn⟩ : ∃ n, p.find? e.source.node = some n := mem_ids_iff.mp he.mem_ids
  rw [lists_outlet_iff hn] at he
  obtain ⟨outlet, m, inlet, houtlet, hm, hinlet, hkind, -⟩ :=
    hp.sink_inlet (mem_nodes_of_find? hn) he
  use inlet.kind
  intro side
  cases side with
  | inlet => rw [Edge.near, kindAt?_of_find? hm, Node.kindAt?, hinlet, Option.map_some]
  | outlet => rw [Edge.near, kindAt?_of_find? hn, Node.kindAt?, houtlet, Option.map_some, hkind]

/-- A connection of a coherent patch is listed at both its ends. -/
theorem Coherent.mirrored (hp : p.Coherent) (e : Edge) :
  p.Lists .outlet e ↔ p.Lists .inlet e
  := by
  constructor
  · intro he
    obtain ⟨n, hn⟩ : ∃ n, p.find? e.source.node = some n := mem_ids_iff.mp he.mem_ids
    rw [lists_outlet_iff hn] at he
    obtain ⟨-, m, -, -, hm, -, -, hsource⟩ := hp.sink_inlet (mem_nodes_of_find? hn) he
    rw [id_of_find? hn] at hsource
    apply (lists_inlet_iff hm).mpr hsource
  · intro he
    obtain ⟨n, hn⟩ : ∃ n, p.find? e.sink.node = some n := mem_ids_iff.mp he.mem_ids
    rw [lists_inlet_iff hn] at he
    obtain ⟨m, hm, hsink⟩ := hp.source n (mem_nodes_of_find? hn) _ _ he
    rw [id_of_find? hn] at hsink
    apply (lists_outlet_iff hm).mpr hsink

theorem Coherent.single (hp : p.Coherent) (hx : p.kindAt? .inlet x = some .signal) :
  (p.farEnds .inlet x).length ≤ 1
  := by
  obtain ⟨n, hn, hkind⟩ := Option.bind_eq_some_iff.mp hx
  obtain ⟨inlet, hinlet, hkind⟩ := Option.map_eq_some_iff.mp hkind
  rw [farEnds_of_find? hn]
  apply hp.signal_source n (mem_nodes_of_find? hn) _ inlet hinlet hkind

theorem Coherent.consistent (hp : p.Coherent) (honce : p.Unrepeated) :
  p.Consistent
  := by
  constructor
  case mirrored => apply hp.mirrored
  case once => exact fun _ _ => honce.nodup_farEnds
  case joined => exact fun _ => hp.joined
  case single => exact fun _ => hp.single

end Patch

/-! ### A clock that drives itself and a bell -/

namespace Chime

/-- A clock starts itself over and rings a bell. -/
def clock : Node :=
  { id := "clock", type := "delay"
    inlets := .ofList [(0, ⟨0, .message⟩)], outlets := .ofList [(0, ⟨0, .message⟩)]
    sources := .ofList [(0, [⟨"clock", 0⟩])], sinks := .ofList [(0, [⟨"clock", 0⟩, ⟨"bell", 0⟩])] }

def bell : Node :=
  { id := "bell", type := "strike"
    inlets := .ofList [(0, ⟨0, .message⟩)], sources := .ofList [(0, [⟨"clock", 0⟩])] }

def patch : Patch := ⟨[some clock, some bell], by decide⟩

/-- The clock is replaced by a new one, which comes to ring the bell; a second new clock is
refused. -/
def edits : List Edit :=
  [.delete "clock", .add clock, .connect ⟨⟨"clock", 0⟩, "bell", 0⟩, .add clock,
    .connect ⟨⟨"clock", 0⟩, "clock", 0⟩, .trim ["bell", "clock"]]

end Chime

end AudioPatch
