import AudioPatch.Patch.Arena
import AudioPatch.Proofs.Patch.Agreement
import AudioPatch.Proofs.Patch.Handles

/-!
# Arenas that stand for patches

An arena *represents* a patch if its cells are the slots of the patch and its register knows the
slots of the ids. Every program that edits the arena then ends as it does on the patch, and leaves
an arena that represents the patch that is left. So no handle in the register dangles, and none is
missing. This goes on as long as there are handles for new cells.
-/

namespace AudioPatch

open Store hiding read

namespace Arena

/-- An arena has the slots of a patch as its cells, and its register knows the slots of the ids. -/
structure Represents (a : Arena) (p : Patch) : Prop where
  cells_eq : a.cells = p.slots
  map_handle? : ∀ id, (a.handle? id).map UInt32.toNat = p.slot? id

/-- A handle and a slot are the same number. -/
def SamePlace (handle : UInt32) (k : Nat) : Prop := handle.toNat = k

variable {a b : Arena} {p q : Patch} {id : NodeId} {handle : UInt32} {e : Edge} {n : Node}

/-- The register without the ids of some nodes. -/
theorem find?_foldl_erase {nodes : List Node} {t : Table NodeId UInt32} :
  (nodes.foldl (fun t n => t.erase n.id) t).find? id =
    if id ∈ nodes.map Node.id then none else t.find? id
  := by
  induction nodes generalizing t with
  | nil => rfl
  | cons n rest ih =>
      rw [List.foldl_cons, ih, Table.find?_erase]
      by_cases hrest : id ∈ rest.map Node.id
      · simp [hrest]
      · by_cases hid : id = n.id <;> simp [hrest, hid]

theorem represents_empty :
  Arena.empty.Represents .empty
  := ⟨rfl, fun _ => rfl⟩

namespace Represents

section Reading

variable (h : a.Represents p)

include h

theorem at?_eq (handle : UInt32) :
  a.at? handle = p.at? handle.toNat
  := by
  rw [Arena.at?, h.cells_eq, Patch.at?]

theorem nodes_eq :
  a.nodes = p.nodes
  := congrArg (List.filterMap id) h.cells_eq

theorem isSome_handle? (id : NodeId) :
  (a.handle? id).isSome ↔ id ∈ p.ids
  := by
  rw [← Patch.isSome_slot?_iff, ← h.map_handle?, Option.isSome_map]

/-- An arena finds the nodes that the patch has. -/
theorem same :
  Store.Same a p
  := by
  constructor
  case nodes_eq => exact h.nodes_eq
  case contains_eq =>
    funext id
    show a.register.contains id = p.contains id
    rw [Table.contains_eq_isSome, ← Arena.handle?, Bool.eq_iff_iff, h.isSome_handle?,
      Patch.contains_iff]
  case find?_eq =>
    funext id
    show (a.handle? id).bind a.at? = p.find? id
    rw [Patch.find?_eq_bind_slot?, ← h.map_handle?]
    cases a.handle? id with
    | none => rfl
    | some handle => apply h.at?_eq

/-- The handle of an id is its slot. -/
theorem locate (id : NodeId) :
  SameOutcome (fun handle k => SamePlace handle k ∧ p.slot? id = some k) (Store.locate a id)
    (Store.locate p id)
  := by
  have hslot := h.map_handle? id
  cases hhandle : a.handle? id with
  | none =>
      rw [hhandle, Option.map_none] at hslot
      rw [locate_of_none hhandle, locate_of_none (s := p) hslot.symm]
      exact .error
  | some handle =>
      rw [hhandle, Option.map_some] at hslot
      rw [locate_of_some hhandle, locate_of_some (s := p) hslot.symm]
      exact .ok ⟨rfl, hslot.symm⟩

/-- The register has as many ids as there are nodes. -/
theorem size_eq :
  a.size = p.size
  := by
  have hkeys : a.register.keys.Perm p.ids := by
    rw [List.perm_ext_iff_of_nodup a.register.nodup_keys p.nodup_ids]
    intro id
    rw [← Table.isSome_find?_iff, ← Arena.handle?, h.isSome_handle?]
  have hlength := hkeys.length_eq
  rwa [Table.keys, List.length_map, Patch.ids, List.length_map] at hlength

end Reading

/-! ### Changing cells -/

/-- Connections are changed in the cell of a node, if there is one. -/
theorem relink (h : a.Represents p) (side : Side) (f : Links → Links) :
  (a.relink handle side f).Represents (p.relink handle.toNat side f)
  := by
  rw [Arena.relink, Patch.relink]
  cases hn : p.at? handle.toNat with
  | none =>
      rw [alterAt, h.cells_eq, Patch.modify_slots_of_none hn, ← h.cells_eq]
      exact h
  | some n =>
      have hslot : p.slot? n.id = some handle.toNat := Patch.slot?_eq_some_iff.mpr ⟨n, hn, rfl⟩
      constructor
      case cells_eq => rw [Patch.slots_modify hslot, ← h.cells_eq, alterAt]
      case map_handle? =>
        intro id
        rw [Patch.slot?_modify]
        apply h.map_handle?

/-- A node is taken out of its cell, and its id out of the register. -/
theorem vacate (h : a.Represents p) (hslot : p.slot? id = some handle.toNat) :
  (a.vacate id handle).Represents (p.vacate id)
  := by
  constructor
  case cells_eq => rw [Patch.slots_vacate hslot, ← h.cells_eq, Arena.vacate, alterAt]
  case map_handle? =>
    intro id'
    rw [Arena.handle?, Arena.vacate, Table.find?_erase, Patch.slot?_vacate]
    by_cases hid : id' = id
    · rw [if_pos hid, if_pos hid, Option.map_none]
    · rw [if_neg hid, if_neg hid]
      apply h.map_handle?

/-- A node gets a handle, if there is one left. -/
theorem append (h : a.Represents p) (hn : ¬ p.contains n.id)
    (hroom : p.slots.length < UInt32.size) :
  (a.append n).1.toNat = p.slots.length ∧ (a.append n).2.Represents (p.append n hn)
  := by
  have hhandle : (UInt32.ofNat p.slots.length).toNat = p.slots.length :=
    UInt32.toNat_ofNat_of_lt' hroom
  rw [Arena.append, h.cells_eq]
  refine ⟨hhandle, rfl, ?_⟩
  intro id
  rw [Arena.handle?, Table.find?_insert, Patch.slot?_append]
  by_cases hid : id = n.id
  · rw [if_pos hid, if_pos hid, Option.map_some, hhandle]
  · rw [if_neg hid, if_neg hid]
    apply h.map_handle?

/-- Of the nodes that are not kept, the cells are emptied and the ids leave the register. -/
theorem trim (h : a.Represents p) (ids : List NodeId) :
  (a.trim ids).Represents (p.trim ids)
  := by
  constructor
  case cells_eq =>
    rw [Arena.trim, retain, h.cells_eq, Patch.trim, Patch.mapNodes, List.map_map]
    apply List.map_congr_left
    intro s _
    cases s with
    | none => rfl
    | some n =>
        show (Option.filter _ (some n)).map _ = if ids.contains n.id then _ else _
        by_cases hn : n.id ∈ ids <;> simp [Option.filter, hn]
  case map_handle? =>
    intro id
    rw [Arena.handle?, Arena.trim, retain, find?_foldl_erase, h.nodes_eq, ← Arena.handle?,
      Patch.trim_eq_without, Patch.slot?_without]
    by_cases hid : id ∈ ids
    · have hkept : id ∉ (p.nodes.filter fun n => !ids.contains n.id).map Node.id := by
        intro hmem
        obtain ⟨n, hn, rfl⟩ := List.mem_map.mp hmem
        simp [hid] at hn
      rw [if_neg hkept, if_neg (by simpa using hid), h.map_handle?]
    · have hlost : decide (id ∉ ids) = true := decide_eq_true hid
      rw [if_pos hlost]
      by_cases hmem : id ∈ p.ids
      · obtain ⟨n, hn, rfl⟩ := List.mem_map.mp hmem
        rw [if_pos, Option.map_none]
        apply List.mem_map_of_mem
        apply List.mem_filter.mpr ⟨hn, by simpa using hid⟩
      · rw [← h.isSome_handle?, Option.not_isSome_iff_eq_none] at hmem
        rw [hmem, ite_self, Option.map_none]

end Represents

/-! ### Programs that change connections -/

/-- An arena represents a patch in which the slots of the ids are given. -/
def RepresentsAt (slots : NodeId → Option Nat) (a : Arena) (p : Patch) : Prop :=
  a.Represents p ∧ p.slot? = slots

section Links

variable {slots : NodeId → Option Nat} {k l : Nat} {handle' : UInt32}

theorem follows_locate (id : NodeId) :
  Follows (RepresentsAt slots) (fun handle k => SamePlace handle k ∧ slots id = some k)
    (ask (locate · id)) (ask (locate · id))
  := by
  apply Follows.ask
  rintro a p ⟨h, rfl⟩
  apply h.locate

theorem follows_read (hk : SamePlace handle k) :
  Follows (RepresentsAt slots) Eq (ask (Store.read · handle)) (ask (Store.read · k))
  := by
  apply Follows.ask_of_eq
  rintro a p ⟨h, -⟩
  obtain rfl : handle.toNat = k := hk
  have hat : Store.at? a handle = Store.at? p handle.toNat := h.at?_eq handle
  rw [Store.read, Store.read, hat]
  rfl

theorem follows_node (id : NodeId) :
  Follows (RepresentsAt slots) Eq (ask (Store.node · id)) (ask (Store.node · id))
  := by
  apply Follows.ask_of_eq
  rintro a p ⟨h, -⟩
  rw [h.same.node_eq]

theorem follows_rewire (hk : SamePlace handle k) (side : Side) (f : Links → Links) :
  Follows (RepresentsAt slots) Eq (rewire handle side f) (rewire k side f)
  := by
  apply (follows_read hk).bind
  rintro n _ rfl
  apply Follows.modify
  rintro a p ⟨h, rfl⟩
  obtain rfl : handle.toNat = k := hk
  refine ⟨h.relink side f, ?_⟩
  funext id
  apply Patch.slot?_relink

theorem follows_join (hk : SamePlace handle k) (hl : SamePlace handle' l) (e : Edge)
    (outlet inlet : PortletKind) (existing : List Endpoint) :
  Follows (RepresentsAt slots) Eq (join e handle handle' outlet inlet existing)
    (join e k l outlet inlet existing)
  := by
  have hrewire : Follows (RepresentsAt slots) Eq
      (rewire handle .outlet (·.add e.source.portlet e.sink) >>= fun _ =>
        rewire handle' .inlet (·.add e.sink.portlet e.source))
      (rewire k .outlet (·.add e.source.portlet e.sink) >>= fun _ =>
        rewire l .inlet (·.add e.sink.portlet e.source)) := by
    apply (follows_rewire hk _ _).bind
    intro _ _ _
    apply follows_rewire hl
  unfold join
  by_cases hkinds : outlet = inlet
  · rw [if_neg (not_not.mpr hkinds), if_neg (not_not.mpr hkinds)]
    by_cases hmem : e.source ∈ existing
    · rw [if_pos hmem, if_pos hmem]
      exact Follows.pure rfl
    · rw [if_neg hmem, if_neg hmem]
      cases inlet with
      | message => exact hrewire
      | signal =>
          cases existing with
          | nil => exact hrewire
          | cons first rest => exact Follows.throw _
  · rw [if_pos hkinds, if_pos hkinds]
    exact Follows.throw _

theorem follows_connect (e : Edge) :
  Follows (RepresentsAt slots) Eq (Store.connect e) (Store.connect e)
  := by
  apply (follows_locate _).bind
  rintro source _ ⟨hsource, -⟩
  apply (follows_locate _).bind
  rintro sink _ ⟨hsink, -⟩
  apply (follows_read hsource).bind
  rintro n _ rfl
  apply (Follows.ask_of_eq fun _ _ _ => rfl).bind
  rintro outlet _ rfl
  apply (follows_read hsink).bind
  rintro m _ rfl
  apply (Follows.ask_of_eq fun _ _ _ => rfl).bind
  rintro inlet _ rfl
  apply follows_join hsource hsink

theorem follows_disconnect (e : Edge) :
  Follows (RepresentsAt slots) Eq (Store.disconnect e) (Store.disconnect e)
  := by
  apply (follows_locate _).bind
  rintro source _ ⟨hsource, -⟩
  apply (follows_locate _).bind
  rintro sink _ ⟨hsink, -⟩
  apply (follows_rewire hsource _ _).bind
  intro _ _ _
  apply follows_rewire hsink

theorem follows_disconnectNodes (source sink : NodeId) :
  Follows (RepresentsAt slots) Eq (Store.disconnectNodes source sink)
    (Store.disconnectNodes source sink)
  := by
  apply (follows_locate _).bind
  intro _ _ _
  apply (follows_node _).bind
  rintro n _ rfl
  apply Follows.forM
  intro e _
  apply follows_disconnect

end Links

/-! ### Edits -/

namespace Represents

theorem add (h : a.Represents p) (hroom : ¬ p.contains n.id → p.slots.length < UInt32.size) :
  Alike Represents SamePlace (Store.add n a) (Store.add n p)
  := by
  have hcontains := congrFun h.same.contains_eq n.id
  by_cases hn : p.contains n.id
  · rw [Store.add_of_contains (s := a) (hcontains.trans hn), Store.add_of_contains (s := p) hn]
    exact .error h
  · have hn' : ¬ Store.contains a n.id := by rwa [hcontains]
    obtain ⟨hhandle, hrepresents⟩ := h.append (n := n.bare) hn (hroom hn)
    rw [Store.add_of_not_contains hn', Store.add_of_not_contains (s := p) hn]
    exact .ok hhandle hrepresents

theorem take (h : a.Represents p) (hslot : p.slot? id = some handle.toNat) :
  Alike Represents Eq (Store.take id handle a) (Store.take id handle.toNat p)
  := by
  obtain ⟨m, hm, -⟩ := Patch.slot?_eq_some_iff.mp hslot
  have hm' : Store.at? a handle = some m := (h.at?_eq handle).trans hm
  rw [Patch.take_eq hm, Store.take, hm']
  exact .ok rfl (h.vacate hslot)

theorem delete (h : a.Represents p) (id : NodeId) :
  Alike Represents Eq (Store.delete id a) (Store.delete id p)
  := by
  have hforget : ∀ b q, RepresentsAt p.slot? b q → b.Represents q := fun _ _ h => h.1
  unfold Store.delete
  apply (follows_locate id a p ⟨h, rfl⟩).bind hforget
  rintro handle _ b q ⟨rfl, hslot⟩ hplaced
  apply (follows_read rfl b q hplaced).bind hforget
  rintro n _ b q rfl hplaced
  -- The handle is looked up once, and is still that of the id when all connections are gone.
  apply (Follows.forM (fun e _ => follows_disconnect e) b q hplaced).bind hforget
  rintro _ _ b q - ⟨h, hslots⟩
  apply h.take
  rw [hslots, hslot]

/-- An edit of an arena ends as the edit of the patch, if there is a handle for a new node. -/
theorem perform (h : a.Represents p) (edit : Edit)
    (hroom : (p.addition? edit).isSome → p.slots.length < UInt32.size) :
  Alike Represents Eq (edit.perform a) (edit.perform p)
  := by
  have hlinks {x : EStateM PatchError Arena Unit} {y : EStateM PatchError Patch Unit}
      (hxy : Follows (RepresentsAt p.slot?) Eq x y) : Alike Represents Eq (x a) (y p) :=
    (hxy a p ⟨h, rfl⟩).imp fun _ _ h => h.1
  cases edit with
  | add n =>
      have hadd := h.add (n := n) fun hn => hroom (by
        rw [Patch.addition?_add, Patch.add_of_not_contains hn]
        rfl)
      apply hadd.bind fun _ _ h => h
      intro _ _ _ _ _ h
      exact .ok rfl h
  | connect e => apply hlinks (follows_connect e)
  | disconnect e => apply hlinks (follows_disconnect e)
  | disconnectNodes source sink => apply hlinks (follows_disconnectNodes source sink)
  | delete id =>
      apply (h.delete id).bind fun _ _ h => h
      intro _ _ _ _ _ h
      exact .ok rfl h
  | trim ids => exact .ok rfl (h.trim ids)

theorem after (h : a.Represents p) (edit : Edit)
    (hroom : (p.addition? edit).isSome → p.slots.length < UInt32.size) :
  Represents (Store.after a edit) (p.after edit)
  := (h.perform edit hroom).left

/-- An arena adds a node if the patch does. -/
theorem isSome_addition? (h : a.Represents p) (edit : Edit) :
  (Store.addition? a edit).isSome = (p.addition? edit).isSome
  := by
  cases edit with
  | add n =>
      have hcontains := congrFun h.same.contains_eq n.id
      rw [Store.addition?, Patch.addition?_add]
      by_cases hn : p.contains n.id
      · rw [outcome_of_error (Store.add_of_contains (s := a) (hcontains.trans hn)),
          Patch.add_of_contains hn]
        rfl
      · have hn' : ¬ Store.contains a n.id := by rwa [hcontains]
        rw [outcome_of_ok (Store.add_of_not_contains hn'), Patch.add_of_not_contains hn]
        rfl
  | _ => rfl

/-- The handle that is given out is the slot. -/
theorem addition? (h : a.Represents p) (edit : Edit)
    (hroom : (p.addition? edit).isSome → p.slots.length < UInt32.size) :
  (Store.addition? a edit).map (fun x => (x.1.toNat, x.2)) = p.addition? edit
  := by
  cases edit with
  | add n =>
      have hadd := h.add (n := n) fun hn => hroom (by
        rw [Patch.addition?_add, Patch.add_of_not_contains hn]
        rfl)
      have hsame := hadd.outcome
      rw [Store.addition?, Patch.addition?_add, Patch.add]
      generalize outcome (Store.add n) a = x at hsame
      generalize outcome (Store.add n) p = y at hsame
      cases hsame with
      | ok h => exact congrArg (fun k => some (k, n)) h.1
      | error => rfl
  | _ => rfl

/-- A run of edits of an arena follows that of the patch, until there are no handles left. -/
theorem afterAll_or_full (h : a.Represents p) (hp : p.Consistent) (edits : List Edit) :
  (a.afterAll edits).Represents (p.afterAll edits) ∧
      (a.additions edits).map (fun x => (x.1.toNat, x.2)) = p.additions edits ∨
    UInt32.size < a.cells.length + (a.additions edits).length ∧
      UInt32.size < p.slots.length + (p.additions edits).length
  := by
  induction edits generalizing a p with
  | nil => exact .inl ⟨h, rfl⟩
  | cons edit rest ih =>
      have hcons : a.additions (edit :: rest) =
        (Store.addition? a edit).toList ++ additions (Store.after a edit) rest := rfl
      have hcount : (Store.addition? a edit).toList.length = (p.addition? edit).toList.length := by
        have hsome := h.isSome_addition? edit
        cases ha : Store.addition? a edit <;> cases hb : p.addition? edit <;> simp_all
      by_cases hroom : (p.addition? edit).isSome → p.slots.length < UInt32.size
      · have hafter := h.after edit hroom
        have hlength := hp.length_slots_after edit
        rcases ih hafter (hp.after edit) with ⟨hrest, hhandles⟩ | ⟨hfull, hfull'⟩
        · refine .inl ⟨hrest, ?_⟩
          rw [hcons, Patch.additions_cons, List.map_append, hhandles, ← h.addition? edit hroom]
          cases Store.addition? a edit <;> rfl
        · rw [hafter.cells_eq] at hfull
          rw [hcons, Patch.additions_cons, List.length_append, List.length_append, h.cells_eq]
          omega
      · obtain ⟨hsome, hlength⟩ := Classical.not_imp.mp hroom
        rw [hcons, Patch.additions_cons, List.length_append, List.length_append, h.cells_eq, hcount]
        obtain ⟨x, hx⟩ := Option.isSome_iff_exists.mp hsome
        rw [hx, Option.toList_some, List.length_singleton]
        omega

/-- While there are handles for the nodes that are added, an arena follows the patch. -/
theorem afterAll (h : a.Represents p) (hp : p.Consistent) (edits : List Edit)
    (hroom : p.slots.length + (p.additions edits).length ≤ UInt32.size) :
  (a.afterAll edits).Represents (p.afterAll edits) ∧
    (a.additions edits).map (fun x => (x.1.toNat, x.2)) = p.additions edits
  := (h.afterAll_or_full hp edits).resolve_right fun hfull => absurd hfull.2 (Nat.not_lt.mpr hroom)

end Represents

end Arena

/-! ### Handles over a run of edits -/

/-- A clock and a bell are added, and the clock is taken away. -/
def Chime.scrapped : List Edit := [.add clock, .add bell, .delete "clock"]

namespace Patch

variable {edits later : List Edit} {p q : Patch} {a : Arena}

/-- Handles over a run of edits, at some point and at a later one. They are given out in order. A
handle stands for the node that was added with it, whatever becomes of its connections, until an
edit takes the node away, and then for none for ever. While it stands for the node, it is the handle
of the node's id. The nodes come in the order of their handles, and are counted right. An arena,
whose handles are machine words, answers the same. -/
theorem handles_stable (hp : p = .afterAll .empty edits) (hq : q = .afterAll p later)
    (ha : a = .afterAll .empty (edits ++ later))
    (hroom : (empty.additions (edits ++ later)).length < UInt32.size) :
  (empty.additions (edits ++ later)).map Prod.fst = List.range q.slots.length ∧
    (∀ n k r, q.add n = .ok (k, r) → k = q.slots.length ∧ r.at? k = some n.bare) ∧
    (∀ k n, (k, n) ∈ empty.additions edits →
      (q.at? k = none ∨ (q.at? k).map Node.bare = some n.bare) ∧
      (p.at? k = none → q.at? k = none) ∧
      ((q.at? k).isSome ↔ q.slot? n.id = some k) ∧
      ((q.at? k).isSome → ∀ edit, (q.after edit).at? k = none ↔ edit.takes n.id)) ∧
    q.nodes = (List.range q.slots.length).filterMap q.at? ∧
    q.size = ((List.range q.slots.length).filter fun k => (q.at? k).isSome).length ∧
    (Arena.empty.additions (edits ++ later)).map (fun x => (x.1.toNat, x.2)) =
      empty.additions (edits ++ later) ∧
    (∀ handle, a.at? handle = q.at? handle.toNat) ∧
    (∀ id, (a.handle? id).map UInt32.toNat = q.slot? id) ∧
    a.nodes = q.nodes ∧ a.size = q.size
  := by
  have hall : q = .afterAll .empty (edits ++ later) := by
    rw [hq, hp, afterAll_append]
  have hlength := consistent_empty.length_slots_afterAll (edits ++ later)
  have hnodes := nodes_eq_filterMap_at? (p := q)
  obtain ⟨hrepresents, hhandles⟩ :=
    Arena.represents_empty.afterAll consistent_empty (edits ++ later)
      (by simpa [empty] using Nat.le_of_lt hroom)
  rw [← hall] at hlength hrepresents
  rw [← ha] at hrepresents
  refine ⟨?_, ?_, ?_, hnodes, ?_, hhandles, hrepresents.at?_eq, hrepresents.map_handle?,
    hrepresents.nodes_eq, hrepresents.size_eq⟩
  · rw [consistent_empty.map_fst_additions, hlength, List.range_eq_range']
    simp [empty]
  · intro n k r
    apply at?_of_add
  · intro k n hk
    have hlater : (k, n) ∈ empty.additions (edits ++ later) := by
      rw [additions_append]
      apply List.mem_append_left _ hk
    have hat := consistent_empty.at?_of_mem_additions hlater
    rw [← hall] at hat
    refine ⟨hat, ?_, isSome_at?_iff hat, ?_⟩
    · intro hnone
      rw [hq]
      apply Consistent.at?_afterAll_of_none _ _ hnone
      · rw [hp]
        apply consistent_empty.afterAll
      · rw [hp]
        apply consistent_empty.lt_length_of_mem_additions hk
    · intro hsome edit
      obtain ⟨m, hm⟩ := Option.isSome_iff_exists.mp hsome
      have hconsistent : q.Consistent := by
        rw [hall]
        apply consistent_empty.afterAll
      rw [hconsistent.at?_after_eq_none_iff hm, id_of_at? hat hm]
  · rw [size, hnodes, List.length_filterMap_eq_countP, List.countP_eq_length_filter]

/-- A new clock gets a handle of its own, and the handle of the old one stands for none. -/
theorem handles_stable_chime :
  (empty.additions (Chime.scrapped ++ [.add Chime.clock])).length < UInt32.size ∧
    (0, Chime.clock) ∈ empty.additions Chime.scrapped ∧
    (afterAll empty Chime.scrapped).at? 0 = none ∧
    ((afterAll empty Chime.scrapped).afterAll [.add Chime.clock]).at? 0 = none ∧
    (((Arena.afterAll .empty (Chime.scrapped ++ [.add Chime.clock])).handle? "clock").map
      UInt32.toNat) = some 2
  := by
  have hroom : (empty.additions (Chime.scrapped ++ [.add Chime.clock])).length < UInt32.size := by
    decide
  have hadded : (0, Chime.clock) ∈ empty.additions Chime.scrapped := by decide
  have hnone : (afterAll empty Chime.scrapped).at? 0 = none := by decide
  obtain ⟨-, -, hhandles, -, -, -, -, hregister, -⟩ := handles_stable rfl rfl rfl hroom
  refine ⟨hroom, hadded, hnone, (hhandles 0 _ hadded).2.1 hnone, ?_⟩
  rw [hregister]
  decide

end Patch

end AudioPatch
