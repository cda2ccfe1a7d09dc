import AudioPatch.Proofs.Compile.Obstacle
import AudioPatch.Proofs.Compile.Schedule
import AudioPatch.Proofs.Patch.MessageWalk
import AudioPatch.Proofs.Patch.Trim

/-!
# Plans of compilations

Once the hooks are checked and all the nodes that take part have implementations, nothing can
go wrong in making a plan. A plan is sound: its nodes fit together, are listed once, and can be
scheduled.
-/

namespace AudioPatch

variable {p : Patch} {registry : Registry} {settings : Settings}

/-! ### Finding nodes, portlets and implementations -/

theorem Patch.meets_node (p : Patch) (id : NodeId) :
  Meets (p.node id) (fun n => p.find? id = some n) (fun e => id ∉ p.ids ∧ e = .unknownNode id)
  := by
  rw [Patch.node, Store.node, Patch.store_find?, Patch.mem_ids_iff]
  cases p.find? id with
  | none => simp
  | some n => simp

theorem Node.meets_portlet (n : Node) (side : Side) (q : PortletId) :
  Meets (n.portlet side q) (fun portlet => (n.portletsOn side).find? q = some portlet)
    (fun e => q ∉ (n.portletsOn side).keys ∧ e = .unknownPortlet side n.id q)
  := by
  rw [← Table.find?_eq_none_iff]
  cases side with
  | inlet =>
      rw [Node.portlet, Node.inlet, Node.portletsOn]
      cases n.inlets.find? q with
      | none => exact ⟨rfl, rfl⟩
      | some portlet => rfl
  | outlet =>
      rw [Node.portlet, Node.outlet, Node.portletsOn]
      cases n.outlets.find? q with
      | none => exact ⟨rfl, rfl⟩
      | some portlet => rfl

theorem Registry.meets_get (registry : Registry) (type : String) :
  Meets (registry.get type) (fun i => registry.find? type = some i)
    (fun e => type ∉ registry.keys ∧ e = .unknownType type)
  := by
  rw [Registry.get, ← Table.find?_eq_none_iff]
  cases registry.find? type with
  | none => simp
  | some i => simp

/-! ### Hooks -/

theorem Hooks.mem_pairs_iff {hooks : Hooks} {id : NodeId} {q : PortletId} :
  (id, q) ∈ hooks.pairs ↔ ∃ portlets, hooks.find? id = some portlets ∧ q ∈ portlets
  := by
  simp only [Hooks.pairs, List.mem_flatMap, List.mem_map, Table.find?_eq_some_iff, Prod.exists,
    Prod.mk.injEq]
  constructor
  · rintro ⟨id', portlets, hmem, q', hq', rfl, rfl⟩
    exact ⟨portlets, hmem, hq'⟩
  · rintro ⟨portlets, hmem, hq⟩
    exact ⟨id, portlets, hmem, q, hq, rfl, rfl⟩

theorem Hooks.contains_iff {hooks : Hooks} {id : NodeId} {q : PortletId} :
  hooks.contains id q ↔ (id, q) ∈ hooks.pairs
  := by
  rw [Hooks.mem_pairs_iff, Hooks.contains]
  cases hooks.find? id with
  | none => simp
  | some portlets => simp

/-- The pairs at one node are its portlets. -/
theorem Hooks.filter_pairs {hooks : Hooks} {id : NodeId} {portlets : List PortletId}
    (h : hooks.find? id = some portlets) :
  hooks.pairs.filter (fun e => e.1 = id) = portlets.map fun q => (id, q)
  := by
  obtain ⟨before, after, hsplit⟩ := List.append_of_mem (Table.mem_of_find? h)
  have hnodup := hooks.nodup_keys
  rw [Table.keys, hsplit, List.map_append, List.map_cons] at hnodup
  have hothers : ∀ e ∈ before ++ after, e.1 ≠ id := by
    intro e he heq
    have hmem := List.mem_map_of_mem (f := Prod.fst) he
    rw [heq, List.map_append] at hmem
    apply (List.nodup_middle.mp hnodup).notMem hmem
  have hnone : ∀ entries : List (NodeId × List PortletId), (∀ e ∈ entries, e.1 ≠ id) →
      (entries.flatMap fun e => e.2.map fun q => (e.1, q)).filter (fun e => e.1 = id) = [] := by
    intro entries hentries
    simp only [List.filter_eq_nil_iff, List.mem_flatMap, List.mem_map, decide_eq_true_iff]
    rintro e ⟨entry, hentry, q, -, rfl⟩
    apply hentries entry hentry
  rw [Hooks.pairs, hsplit, List.flatMap_append, List.flatMap_cons, List.filter_append,
    List.filter_append, hnone before fun e he => hothers e (List.mem_append_left _ he),
    hnone after fun e he => hothers e (List.mem_append_right _ he)]
  simp [List.filter_map, Function.comp_def]

/-- A pair is listed twice if its portlet is. -/
theorem Hooks.twice_iff {hooks : Hooks} {id : NodeId} {q : PortletId} :
  [(id, q), (id, q)].Sublist hooks.pairs
    ↔ ∃ portlets, hooks.find? id = some portlets ∧ [q, q].Sublist portlets
  := by
  constructor
  · intro htwice
    obtain ⟨portlets, hportlets, -⟩ := Hooks.mem_pairs_iff.mp (mem_of_pair_sublist htwice).1
    have hown := htwice.filter fun e => e.1 = id
    rw [Hooks.filter_pairs hportlets] at hown
    use portlets, hportlets
    simpa [Function.comp_def] using hown.map Prod.snd
  · rintro ⟨portlets, hportlets, htwice⟩
    have hown := htwice.map fun q => (id, q)
    rw [← Hooks.filter_pairs hportlets] at hown
    apply hown.trans List.filter_sublist

/-- Hooks are at message portlets of nodes of a patch. -/
def Hooks.Fit (hooks : Hooks) (p : Patch) (side : Side) : Prop :=
  ∀ id portlets, hooks.find? id = some portlets → ∃ n, p.find? id = some n ∧
    ∀ q ∈ portlets, ∃ portlet, (n.portletsOn side).find? q = some portlet ∧
      portlet.kind = .message

theorem Node.meets_checkHook (n : Node) (side : Side) (q : PortletId) :
  Meets (n.checkHook side q)
    (fun _ => ∃ portlet, (n.portletsOn side).find? q = some portlet ∧ portlet.kind = .message)
    (fun e => (q ∉ (n.portletsOn side).keys ∧ e = .patch (.unknownPortlet side n.id q)) ∨
      (∃ portlet, (n.portletsOn side).find? q = some portlet ∧ portlet.kind ≠ .message) ∧
        e = .invalidHook side n.id q)
  := by
  have hportlet := n.meets_portlet side q
  cases hresult : n.portlet side q with
  | error e =>
      rw [hresult] at hportlet
      rw [Node.checkHook, hresult]
      obtain ⟨hq, rfl⟩ := hportlet
      exact .inl ⟨hq, rfl⟩
  | ok portlet =>
      rw [hresult] at hportlet
      rw [Node.checkHook, hresult]
      show Meets (if portlet.kind = .message then _ else _) _ _
      by_cases hkind : portlet.kind = .message
      · rw [if_pos hkind]
        exact ⟨portlet, hportlet, hkind⟩
      · rw [if_neg hkind]
        exact .inr ⟨⟨portlet, hportlet, hkind⟩, rfl⟩

/-- The check of the hooks of one side. -/
theorem Hooks.meets_check (side : Side) :
  Meets ((settings.hooks side).check p side) (fun _ => (settings.hooks side).Fit p side)
    (Obstacle p registry settings)
  := by
  have hcheck : Meets ((settings.hooks side).check p side)
      (fun _ => ∀ e ∈ (settings.hooks side).entries, ∃ n, p.find? e.1 = some n ∧
        ∀ q ∈ e.2, ∃ portlet, (n.portletsOn side).find? q = some portlet ∧
          portlet.kind = .message)
      (Obstacle p registry settings) := by
    apply Meets.forM
    rintro ⟨id, portlets⟩ hentry
    have hfind := Table.find?_eq_some_iff.mpr hentry
    have hnode : Meets (p.node id) (fun n => p.find? id = some n)
        (fun e => Obstacle p registry settings (.patch e)) := by
      apply (p.meets_node id).imp fun n hn => hn
      rintro e ⟨hid, rfl⟩
      apply Obstacle.hookWithoutNode side (Table.isSome_find?_iff.mp _) hid
      rw [hfind]
      rfl
    apply hnode.liftPatch.bind
    intro n _ hn
    obtain rfl := Patch.id_of_find? hn
    apply Meets.imp_good (Meets.forM _)
    · intro _ hall
      exact ⟨n, hn, hall⟩
    · intro q hq
      have hpair := Hooks.mem_pairs_iff.mpr ⟨portlets, hfind, hq⟩
      apply (n.meets_checkHook side q).imp fun _ h => h
      rintro e (⟨hnone, rfl⟩ | ⟨⟨portlet, hportlet, hkind⟩, rfl⟩)
      · apply Obstacle.hookWithoutPortlet side hpair hn hnone
      · apply Obstacle.hookOfSignal side hpair hn hportlet hkind
  apply hcheck.imp_good
  intro _ hall id portlets hfind
  apply hall (id, portlets) (Table.find?_eq_some_iff.mp hfind)

theorem Settings.meets_checkHooks :
  Meets (settings.checkHooks p) (fun _ => ∀ side, (settings.hooks side).Fit p side)
    (Obstacle p registry settings)
  := by
  apply (Hooks.meets_check .inlet).bind
  intro _ _ hinlets
  apply (Hooks.meets_check .outlet).imp_good
  intro _ houtlets side
  cases side with
  | inlet => apply hinlets
  | outlet => apply houtlets

/-- Hooks that pass the check fit. -/
theorem Settings.fit_of_checkHooks (h : settings.checkHooks p = .ok ()) (side : Side) :
  (settings.hooks side).Fit p side
  := by
  have hmeets : Meets (settings.checkHooks p) _ (Obstacle p .empty settings) := meets_checkHooks
  apply hmeets.of_eq_ok h

/-- The nodes of hooks that fit are there. -/
theorem Hooks.Fit.mem_ids {hooks : Hooks} {side : Side} (h : hooks.Fit p side) :
  ∀ id ∈ hooks.keys, id ∈ p.ids
  := by
  intro id hid
  obtain ⟨portlets, hportlets⟩ := Option.isSome_iff_exists.mp (Table.isSome_find?_iff.mpr hid)
  obtain ⟨n, hn, -⟩ := h id portlets hportlets
  apply Patch.mem_ids_iff.mpr ⟨n, hn⟩

/-! ### Plans -/

namespace Plan

variable {plan : Plan Patch}

/-- What the parts of a plan have to do with each other. -/
structure Sound (plan : Plan Patch) : Prop where
  coherent : plan.patch.Coherent
  nodup : plan.order.Nodup
  /-- The nodes of the plan are those of its patch. -/
  mem_order_iff : ∀ id, id ∈ plan.order ↔ id ∈ plan.patch.ids
  implemented : ∀ n ∈ plan.patch.nodes, ∃ i, plan.registry.find? n.type = some i
  arranged : ∃ cold, Schedule.Arranges plan.patch plan.registry cold plan.schedule
  /-- Callers are at message inlets of nodes of the plan. -/
  caller : ∀ id q, (id, q) ∈ plan.callers.pairs → ∃ n inlet, plan.patch.find? id = some n ∧
    n.inlets.find? q = some inlet ∧ inlet.kind = .message

theorem Sound.mem_order (h : plan.Sound) {n : Node} (hn : n ∈ plan.patch.nodes) :
  n.id ∈ plan.order
  := (h.mem_order_iff n.id).mpr (Patch.mem_ids_iff.mpr ⟨n, Patch.find?_of_mem hn⟩)

/-- Where a plan comes from. -/
structure IsFor (p : Patch) (registry : Registry) (settings : Settings) (plan : Plan Patch) :
    Prop where
  participants : p.participants settings.allCallers.keys = .ok plan.order
  patch_eq : plan.patch = p.trim plan.order
  registry_eq : plan.registry = registry
  settings_eq : plan.settings = settings
  callers_eq : plan.callers = settings.allCallers
  listeners_eq : plan.listeners = settings.allListeners

/-- A node of a plan takes part, but for its connections to nodes that do not. -/
theorem IsFor.takesPart (h : plan.IsFor p registry settings) {n : Node}
    (hn : n ∈ plan.patch.nodes) :
  ∃ m, TakesPart p settings m ∧ m.id = n.id ∧ m.type = n.type
  := by
  rw [h.patch_eq] at hn
  obtain ⟨m, hm, hid, rfl⟩ := Patch.mem_nodes_trim_iff.mp hn
  exact ⟨m, ⟨hm, plan.order, h.participants, hid⟩, rfl, rfl⟩

/-- A node that takes part is in the plan. -/
theorem IsFor.exists_node (h : plan.IsFor p registry settings) {m : Node}
    (hm : TakesPart p settings m) :
  ∃ n ∈ plan.patch.nodes, n.id = m.id ∧ n.type = m.type
  := by
  obtain ⟨hmem, order, horder, hid⟩ := hm
  obtain rfl := Except.ok.inj (h.participants.symm.trans horder)
  use m.restrict plan.order.contains
  rw [h.patch_eq]
  exact ⟨Patch.mem_nodes_trim_iff.mpr ⟨m, hmem, hid, rfl⟩, rfl, rfl⟩

/-- A plan can be made if the hooks fit, unless a node that takes part has no
implementation. -/
theorem meets_make (hp : p.Coherent) (hfit : settings.allCallers.Fit p .inlet) :
  Meets (make p registry settings) (fun plan => plan.IsFor p registry settings ∧ plan.Sound)
    (Obstacle p registry settings)
  := by
  have hcallers := hfit.mem_ids
  obtain ⟨order, hok, horder⟩ := Meets.never_iff.mp (Patch.meets_participants hp hcallers)
  rw [make, Patch.graph_participants, hok]
  have hcoherent := hp.trim order
  have htypes : Meets ((p.trim order).nodes.forM fun n => do let _ ← registry.get n.type)
      (fun _ => ∀ n ∈ (p.trim order).nodes, ∃ i, registry.find? n.type = some i)
      (Obstacle p registry settings) := by
    apply Meets.forM
    intro n hn
    obtain ⟨m, hm, hid, rfl⟩ := Patch.mem_nodes_trim_iff.mp hn
    have htake : TakesPart p settings m := ⟨hm, order, hok, hid⟩
    have hget : Meets (registry.get m.type) (fun i => registry.find? m.type = some i)
        (Obstacle p registry settings) := by
      apply (registry.meets_get m.type).imp fun i hi => hi
      rintro e ⟨htype, rfl⟩
      apply Obstacle.unknownType htake htype
    apply hget.bind
    intro i _ hi
    exact ⟨i, hi⟩
  apply htypes.bind
  intro _ _ himplemented
  have hcovers : registry.Covers (p.trim order) := by
    intro n hn _
    obtain ⟨i, hi⟩ := himplemented n hn
    rw [Table.contains_eq_isSome, hi]
    rfl
  apply (Schedule.meets_make hcoherent hcovers).of_total.bind
  intro schedule _ harranged
  constructor
  · exact ⟨hok, rfl, rfl, rfl, rfl, rfl⟩
  · constructor
    · apply hcoherent
    · apply horder.nodup
    · intro id
      show id ∈ order ↔ id ∈ (p.trim order).ids
      rw [Patch.mem_ids_trim_iff]
      exact ⟨fun hid => ⟨horder.mem_ids hp hcallers hid, hid⟩, And.right⟩
    · apply himplemented
    · apply harranged
    · intro id q hpair
      obtain ⟨portlets, hportlets, hq⟩ := Hooks.mem_pairs_iff.mp hpair
      obtain ⟨n, hn, hall⟩ := hfit id portlets hportlets
      obtain ⟨inlet, hinlet, hkind⟩ := hall q hq
      have hid : id ∈ order := by
        apply horder.mem_of_caller
        apply Table.isSome_find?_iff.mp
        rw [hportlets]
        rfl
      have htrim := Patch.find?_trim_eq_some_iff.mpr ⟨n, hn, hid, rfl⟩
      exact ⟨n.restrict order.contains, inlet, htrim, hinlet, hkind⟩

/-! ### Passes through the nodes -/

/-- A pass through the nodes of a sound plan meets a condition that holds at the start and is
kept at every node. -/
theorem Sound.meets_forNodes (h : plan.Sound) {pass : Draft → Node → Except CompileError Draft}
    {d : Draft} {bad : CompileError → Prop} (inv : List NodeId → Draft → Prop)
    (hstart : inv [] d)
    (hround : ∀ done n rest, plan.order = done ++ n.id :: rest → n.id ∉ done →
      n ∈ plan.patch.nodes → ∀ d', done.foldlM (plan.atNode pass) d = .ok d' → inv done d' →
        Meets (pass d' n) (inv (done ++ [n.id])) bad) :
  Meets (plan.forNodes d pass) (inv plan.order) bad
  := by
  have hfold : Meets (plan.order.foldlM (plan.atNode pass) d)
      (fun d' => plan.order.foldlM (plan.atNode pass) d = .ok d' ∧ inv plan.order d') bad := by
    apply Meets.foldlM fun done d' => done.foldlM (plan.atNode pass) d = .ok d' ∧ inv done d'
    · exact ⟨rfl, hstart⟩
    · rintro done id rest hsplit d' ⟨hok, hinv⟩
      have hid : id ∈ plan.patch.ids := (h.mem_order_iff id).mp (by simp [hsplit])
      obtain ⟨n, hn⟩ := Patch.mem_ids_iff.mp hid
      obtain rfl := Patch.id_of_find? hn
      have hnew : n.id ∉ done := not_mem_of_split h.nodup hsplit
      have hatNode : plan.atNode pass d' n.id = pass d' n := by
        rw [atNode, Patch.store_node, Patch.node_eq_ok_iff.mpr hn]
        rfl
      have hpass := hround done n rest hsplit hnew (Patch.mem_nodes_of_find? hn) d' hok hinv
      rw [← hatNode] at hpass
      cases hresult : plan.atNode pass d' n.id with
      | error e =>
          rw [hresult] at hpass
          apply hpass
      | ok d'' =>
          rw [hresult] at hpass
          constructor
          · rw [List.foldlM_append, hok]
            show plan.atNode pass d' n.id >>= _ = _
            rw [hresult]
            rfl
          · apply hpass
  apply hfold.imp_good
  rintro d' ⟨-, hinv⟩
  apply hinv

end Plan

end AudioPatch
