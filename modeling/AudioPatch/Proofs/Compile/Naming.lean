import AudioPatch.Proofs.Compile.Plan
import AudioPatch.Proofs.Symbol.Names

/-!
# The passes that name things

Nodes are named first, each by a stem of its own, then cold groups, listeners and callers. What
can go wrong is that an id cannot be part of a name, that two nodes have one stem, and that
a state field or a hook is listed twice.
-/

namespace AudioPatch

variable {p : Patch} {registry : Registry} {settings : Settings} {plan : Plan Patch} {d : Draft}

/-- What naming something meets. -/
theorem Draft.meets_declare {result : Except SymbolError String × Names} {good : String → Prop}
    {bad : CompileError → Prop} (h : Meets result.1 good (fun e => bad (.symbol e))) :
  Meets (d.declare result) (fun r => good r.1 ∧ r.2 = { d with names := result.2 }) bad
  := by
  apply h.liftSymbol.bind
  intro name _ hname
  exact ⟨hname, rfl⟩

namespace Plan

/-! ### Nodes -/

/-- A node of a plan has a stem. -/
def HasStem (plan : Plan Patch) (n : Node) (stem : String) : Prop :=
  nodeStem plan.settings.debug n.id n.type = .ok stem

/-- Nodes that can be named: their ids can be parts of names, their stems differ, and so do the
keys of their state fields. -/
structure Nameable (plan : Plan Patch) (ids : List NodeId) : Prop where
  valid : ∀ id ∈ ids, isNamePart id
  stems_differ : ∀ n ∈ plan.patch.nodes, ∀ m ∈ plan.patch.nodes, n.id ∈ ids → m.id ∈ ids →
    ∀ stem, plan.HasStem n stem → plan.HasStem m stem → n.id = m.id
  fields_differ : ∀ n ∈ plan.patch.nodes, n.id ∈ ids →
    ∀ i shape, plan.registry.find? n.type = some i → i.stateFields = some shape →
      (shape.map canonicalKey).Nodup

/-- What is known once some of the nodes are named. -/
structure NodesNamed (plan : Plan Patch) (done : List NodeId) (d : Draft) : Prop where
  nameable : plan.Nameable done
  known : ∀ n ∈ plan.patch.nodes, n.id ∈ done → ∀ i, plan.registry.find? n.type = some i →
    ∃ names, d.names.nodes.get? n.id = some names ∧ plan.HasStem n names.stem ∧
      names.Fresh i.stateFields
  unknown : ∀ id, isNamePart id → id ∉ done → d.names.nodes.get? id = none
  mem_stems_iff : ∀ stem, stem ∈ d.names.stems ↔ ∃ n ∈ plan.patch.nodes, n.id ∈ done ∧
    plan.HasStem n stem
  programs : ∀ id ∈ done, id ∈ d.nodes.keys
  rest : d.names = { debug := plan.settings.debug, nodes := d.names.nodes, stems := d.names.stems }

theorem nodesNamed_nil (plan : Plan Patch) :
  plan.NodesNamed [] { names := { debug := plan.settings.debug } }
  := by
  constructor
  case nameable =>
    constructor
    all_goals simp
  case unknown =>
    intro id _ _
    rfl
  case rest => rfl
  all_goals simp

/-- A refusal to name a node is an obstacle. -/
theorem NodesNamed.obstacle {done : List NodeId} (h : plan.NodesNamed done d)
    (hfor : plan.IsFor p registry settings) {n : Node} (hn : n ∈ plan.patch.nodes)
    (hnew : n.id ∉ done) {i : Implementation} (hi : plan.registry.find? n.type = some i)
    {e : SymbolError} (he : d.names.Refuses n.id n.type i.stateFields e) :
  Obstacle p registry settings (.symbol e)
  := by
  have hdebug : d.names.debug = plan.settings.debug := by rw [h.rest]
  obtain ⟨m, hm, hid, htype⟩ := hfor.takesPart hn
  rw [hfor.registry_eq] at hi
  cases he with
  | invalidId hinvalid =>
      rw [← hid] at hinvalid ⊢
      apply Obstacle.invalidId hm
      by_contra hvalid
      apply hinvalid
      apply isNamePart_iff.mpr
      push Not at hvalid
      exact ⟨hvalid.1, fun c hc => hvalid.2 c hc⟩
  | stemTaken hstem htaken =>
      obtain ⟨n', hn', hdone', hstem'⟩ := (h.mem_stems_iff _).mp htaken
      obtain ⟨m', hm', hid', htype'⟩ := hfor.takesPart hn'
      rw [hdebug, hfor.settings_eq, ← hid, ← htype] at hstem
      rw [HasStem, hfor.settings_eq, ← hid', ← htype'] at hstem'
      apply Obstacle.sharedStem hm hm' _ hstem hstem'
      rw [hid, hid']
      intro heq
      apply hnew (heq ▸ hdone')
  | fieldTwice hshape htwice =>
      rw [← hid]
      apply Obstacle.fieldTwice hm (htype ▸ hi) hshape htwice

/-- A node among some nodes and one more is that one or among the others. -/
theorem mem_done_or_eq {n m : Node} {done : List NodeId} (hn : n ∈ plan.patch.nodes)
    (hm : m ∈ plan.patch.nodes) (h : m.id ∈ done ++ [n.id]) :
  m.id ∈ done ∨ m = n
  := by
  apply (List.mem_append.mp h).imp_right
  intro heq
  have hfound := Patch.find?_of_mem hm
  rw [List.mem_singleton.mp heq, Patch.find?_of_mem hn] at hfound
  apply (Option.some.inj hfound).symm

/-- One more node can be named if its stem is new. -/
theorem Nameable.append {done : List NodeId} (h : plan.Nameable done) {n : Node}
    (hn : n ∈ plan.patch.nodes) (hvalid : isNamePart n.id)
    (hnew : ∀ stem, plan.HasStem n stem → ∀ m ∈ plan.patch.nodes, m.id ∈ done →
      ¬ plan.HasStem m stem)
    (hfields : ∀ i shape, plan.registry.find? n.type = some i → i.stateFields = some shape →
      (shape.map canonicalKey).Nodup) :
  plan.Nameable (done ++ [n.id])
  := by
  constructor
  case valid =>
    intro id hid
    rcases List.mem_append.mp hid with hdone | heq
    · apply h.valid id hdone
    · rw [List.mem_singleton.mp heq]
      apply hvalid
  case stems_differ =>
    intro m hm m' hm' hid hid' stem hstem hstem'
    rcases mem_done_or_eq hn hm hid with hdone | rfl
    · rcases mem_done_or_eq hn hm' hid' with hdone' | rfl
      · apply h.stems_differ m hm m' hm' hdone hdone' stem hstem hstem'
      · cases hnew stem hstem' m hm hdone hstem
    · rcases mem_done_or_eq hn hm' hid' with hdone' | rfl
      · cases hnew stem hstem m' hm' hdone' hstem'
      · rfl
  case fields_differ =>
    intro m hm hid
    rcases mem_done_or_eq hn hm hid with hdone | rfl
    · apply h.fields_differ m hm hdone
    · apply hfields

/-- What is known once one more node is named. -/
theorem NodesNamed.append {done : List NodeId} (h : plan.NodesNamed done d) {n : Node}
    (hn : n ∈ plan.patch.nodes) (hnew : n.id ∉ done)
    (hnameable : plan.Nameable (done ++ [n.id])) {names : NodeNames}
    (hstem : plan.HasStem n names.stem)
    (hfresh : ∀ i, plan.registry.find? n.type = some i → names.Fresh i.stateFields)
    (program : NodeProgram) :
  plan.NodesNamed (done ++ [n.id])
    ⟨{ d.names with stems := names.stem :: d.names.stems, nodes := d.names.nodes.put n.id names },
      d.nodes.insert n.id program⟩
  := by
  have hother : ∀ id, isNamePart id → id ≠ n.id →
      (d.names.nodes.put n.id names).get? id = d.names.nodes.get? id := by
    intro id hid hne
    apply Scope.get?_put_of_ne
    rw [canonicalKey_of_isNamePart hid,
      canonicalKey_of_isNamePart (hnameable.valid n.id (by simp))]
    apply hne
  constructor
  case nameable => apply hnameable
  case known =>
    intro m hm hid i hi
    rcases mem_done_or_eq hn hm hid with hdone | rfl
    · rw [hother m.id (hnameable.valid m.id hid) fun heq => hnew (heq ▸ hdone)]
      apply h.known m hm hdone i hi
    · exact ⟨names, Scope.get?_put_self .., hstem, hfresh i hi⟩
  case unknown =>
    intro id hid hnot
    rw [List.mem_append, List.mem_singleton, not_or] at hnot
    rw [hother id hid hnot.2]
    apply h.unknown id hid hnot.1
  case mem_stems_iff =>
    intro stem'
    rw [List.mem_cons, h.mem_stems_iff]
    constructor
    · rintro (rfl | ⟨m, hm, hid, hstem'⟩)
      · exact ⟨n, hn, by simp, hstem⟩
      · exact ⟨m, hm, List.mem_append_left _ hid, hstem'⟩
    · rintro ⟨m, hm, hid, hstem'⟩
      rcases mem_done_or_eq hn hm hid with hdone | rfl
      · exact .inr ⟨m, hm, hdone, hstem'⟩
      · exact .inl (Except.ok.inj (hstem'.symm.trans hstem))
  case programs =>
    intro id hid
    rw [Table.mem_keys_insert_iff]
    rcases List.mem_append.mp hid with hdone | heq
    · exact .inr (h.programs id hdone)
    · exact .inl (List.mem_singleton.mp heq)
  case rest => rw [h.rest]

/-- One more node is named, or there is an obstacle. -/
theorem NodesNamed.meets_declareNode {done : List NodeId} (h : plan.NodesNamed done d)
    (hfor : plan.IsFor p registry settings) (hsound : plan.Sound) {n : Node}
    (hn : n ∈ plan.patch.nodes) (hnew : n.id ∉ done) :
  Meets (plan.declareNode d n) (plan.NodesNamed (done ++ [n.id])) (Obstacle p registry settings)
  := by
  have hdebug : d.names.debug = plan.settings.debug := by rw [h.rest]
  obtain ⟨i, hi⟩ := hsound.implemented n hn
  rw [declareNode, Registry.get_eq_ok_iff.mpr hi]
  apply (Draft.meets_declare ((Names.meets_declareNode _ _ _ _ _).imp (fun _ hgood => hgood)
    fun e he => h.obstacle hfor hn hnew hi he)).bind
  · rintro ⟨stem, d'⟩ - ⟨⟨names, ⟨hvalid, hstem, hstemNew⟩, ⟨rfl, hfresh, hfields⟩, hnames⟩, rfl⟩
    rw [hdebug] at hstem
    show plan.NodesNamed _ ⟨_, _⟩
    rw [hnames]
    apply h.append hn hnew _ hstem
    · intro i' hi'
      rw [hi] at hi'
      rw [← Option.some.inj hi']
      apply hfresh
    · apply h.nameable.append hn hvalid
      · intro stem' hstem' m hm hdone hstem''
        rw [HasStem, hstem] at hstem'
        obtain rfl := Except.ok.inj hstem'
        apply hstemNew ((h.mem_stems_iff _).mpr ⟨m, hm, hdone, hstem''⟩)
      · intro i' shape hi' hshape
        rw [hi] at hi'
        obtain rfl := Option.some.inj hi'
        apply hfields shape hshape
  · intro hvalid
    apply h.unknown n.id hvalid hnew

/-! ### Cold groups -/

/-- Some of the cold groups of a draft are named, and nothing else has changed. -/
structure GroupsNamed (d : Draft) (done : List Nat) (d' : Draft) : Prop where
  get?_eq : ∀ i, d'.names.coldGroups.get? (toString i) =
    if i ∈ done then some s!"COLD_{i}" else none
  rest : d' = { d with names := { d.names with coldGroups := d'.names.coldGroups } }

/-- All cold groups are named if none is. -/
theorem meets_declareColdGroups (plan : Plan Patch)
    (h : ∀ key, d.names.coldGroups.get? key = none) :
  Meets (plan.declareColdGroups d) (GroupsNamed d (List.range plan.schedule.cold.length))
    (fun _ => False)
  := by
  apply Meets.foldlM (GroupsNamed d)
  · constructor
    · simp [h]
    · rfl
  · intro done i rest hsplit d' hd'
    have hnew : i ∉ done := not_mem_of_split List.nodup_range hsplit
    have hnone : d'.names.coldGroups.get? (toString i) = none := by
      rw [hd'.get?_eq, if_neg hnew]
    rw [Names.declareColdGroup_eq hnone]
    constructor
    · intro j
      show Scope.get? _ _ = _
      simp only [Scope.get?_put, canonicalKey_toString, toString_nat_injective.eq_iff,
        List.mem_append, List.mem_singleton, hd'.get?_eq]
      by_cases hj : j = i
      · simp [hj]
      · simp [hj]
    · rw [hd'.rest]

/-! ### Hooks -/

/-- Some hooks on one side are named in a draft, and nothing else has changed. -/
structure HooksNamed (side : Side) (d : Draft) (done : List (NodeId × PortletId)) (d' : Draft) :
    Prop where
  nodup : done.Nodup
  name : (d'.names.hooks side).name = side.hookScope
  hooked : Names.Hooked side (d'.names.hooks side) done
  rest : d' = { d with names := d.names.withHooks (d'.names.hooks side) side }

/-- The error at a hook that is listed twice. -/
def ListedTwice (side : Side) (hooks : List (NodeId × PortletId)) (e : CompileError) : Prop :=
  ∃ id q, [(id, q), (id, q)].Sublist hooks ∧
    e = .symbol (.alreadyAssigned s!"{side.hookScope}.{id}" (toString q))

/-- One more hook is named. -/
theorem HooksNamed.append {side : Side} {d' : Draft} {done : List (NodeId × PortletId)}
    (h : HooksNamed side d done d') {hook : NodeId × PortletId} (hnew : hook ∉ done)
    {scope : Scope (Scope String)} (hname : scope.name = (d'.names.hooks side).name)
    (hhooked : Names.Hooked side scope (done ++ [hook])) :
  HooksNamed side d (done ++ [hook]) { d' with names := d'.names.withHooks scope side }
  := by
  constructor
  · apply List.Nodup.append h.nodup (List.nodup_singleton _)
    simpa using hnew
  · rw [Names.hooks_withHooks_self, hname, h.name]
  · rw [Names.hooks_withHooks_self]
    apply hhooked
  · rw [h.rest, Names.hooks_withHooks_self, Names.withHooks_withHooks]

/-- Hooks on one side with their symbols. -/
def symbolsOf (side : Side) (hooks : List (NodeId × PortletId)) : List (Endpoint × String) :=
  hooks.map fun e => (⟨e.1, e.2⟩, Names.hookSymbol side e.1 e.2)

/-- All hooks on one side are named if none is, unless one is listed twice. -/
theorem meets_declareHooks {side : Side} (h : d.names.hooks side = .empty side.hookScope)
    (hvalid : ∀ e ∈ plan.hooks side, isNamePart e.1) :
  Meets (plan.declareHooks side d)
    (fun r => r.1 = symbolsOf side (plan.hooks side) ∧ HooksNamed side d (plan.hooks side) r.2)
    (ListedTwice side (plan.hooks side))
  := by
  apply Meets.foldlM fun done (r : List (Endpoint × String) × Draft) =>
    r.1 = symbolsOf side done ∧ HooksNamed side d done r.2
  · refine ⟨rfl, ?_⟩
    constructor
    · apply List.nodup_nil
    · rw [h]
      rfl
    · rw [h]
      apply Names.hooked_empty
    · rw [Names.withHooks_hooks]
  · rintro done ⟨id, q⟩ rest hsplit ⟨_, d'⟩ ⟨rfl, hd'⟩
    replace hd' : HooksNamed side d done d' := hd'
    have hid : isNamePart id := hvalid (id, q) (by simp [hsplit])
    have hinner := hd'.hooked.meets_declareInner hid q
    have htwice : (id, q) ∈ done → [(id, q), (id, q)].Sublist (plan.hooks side) := by
      rw [hsplit]
      apply twice_sublist
    rw [hd'.name] at hinner
    show Meets (d'.declare (d'.names.declareHook side id q) >>= _) _ _
    rw [Names.declareHook_eq hid]
    apply (Draft.meets_declare (hinner.imp (fun _ hgood => hgood)
      fun e he => ⟨id, q, htwice he.1, congrArg CompileError.symbol he.2⟩)).bind
    rintro ⟨_, _⟩ - ⟨⟨rfl, hnew, hname, hhooked⟩, rfl⟩
    rw [← hd'.name] at hname
    refine ⟨?_, hd'.append hnew hname hhooked⟩
    rw [symbolsOf, symbolsOf, List.map_append]
    rfl

/-- Hooks are at nodes of the plan. -/
theorem Sound.mem_ids_of_hook (h : plan.Sound) {side : Side} {e : NodeId × PortletId}
    (he : e ∈ plan.hooks side) :
  e.1 ∈ plan.patch.ids
  := by
  cases side with
  | inlet =>
      obtain ⟨n, -, hn, -⟩ := h.caller e.1 e.2 he
      apply Patch.mem_ids_iff.mpr ⟨n, hn⟩
  | outlet => apply Patch.contains_iff.mp (List.mem_filter.mp he).2

/-- A hook at a node of the plan is listed twice if its portlet is in the settings. -/
theorem IsFor.listed_twice_iff (hfor : plan.IsFor p registry settings) {side : Side} {id : NodeId}
    {q : PortletId} (hid : id ∈ plan.patch.ids) :
  [(id, q), (id, q)].Sublist (plan.hooks side)
    ↔ ∃ portlets, (settings.hooks side).find? id = some portlets ∧ [q, q].Sublist portlets
  := by
  rw [← Hooks.twice_iff]
  cases side with
  | inlet => rw [hooks, hfor.callers_eq, Settings.hooks]
  | outlet =>
      rw [hooks, hfor.listeners_eq, Settings.hooks]
      constructor
      · intro htwice
        apply htwice.trans List.filter_sublist
      · intro htwice
        have hown := htwice.filter fun e => plan.patch.contains e.1
        simpa [Patch.contains_iff.mpr hid] using hown

/-- A hook that is listed twice is an obstacle. -/
theorem IsFor.obstacle_of_listedTwice (hfor : plan.IsFor p registry settings)
    (hsound : plan.Sound) {side : Side} {e : CompileError}
    (h : ListedTwice side (plan.hooks side) e) :
  Obstacle p registry settings e
  := by
  obtain ⟨id, q, htwice, rfl⟩ := h
  have hid := hsound.mem_ids_of_hook (mem_of_pair_sublist htwice).1
  obtain ⟨portlets, hportlets, hq⟩ := (hfor.listed_twice_iff hid).mp htwice
  obtain ⟨n, hn⟩ := Patch.mem_ids_iff.mp hid
  obtain ⟨m, hm, hmid, -⟩ := hfor.takesPart (Patch.mem_nodes_of_find? hn)
  obtain rfl : m.id = id := hmid.trans (Patch.id_of_find? hn)
  apply Obstacle.hookTwice side hm hportlets hq

/-! ### All names -/

/-- What can be found in names: the nodes with their states, the cold groups and the hooks. -/
structure Named (plan : Plan Patch) (names : Names) : Prop where
  known : ∀ n ∈ plan.patch.nodes, ∀ i, plan.registry.find? n.type = some i →
    ∃ own, names.nodes.get? n.id = some own ∧ plan.HasStem n own.stem ∧ own.HasState i.stateFields
  coldGroup : ∀ i < plan.schedule.cold.length,
    names.coldGroups.get? (toString i) = some s!"COLD_{i}"
  hooked : ∀ side, Names.Hooked side (names.hooks side) (plan.hooks side)

/-- A draft in which everything is named, with no symbols of nodes but those of some kinds. -/
structure Drafted (plan : Plan Patch) (kinds : List SymbolKind) (d : Draft) : Prop where
  named : plan.Named d.names
  programs : ∀ id ∈ plan.patch.ids, id ∈ d.nodes.keys
  unassigned : ∀ n ∈ plan.patch.nodes, ∀ kind ∉ kinds, ∀ q, ¬ d.names.Assigns n.id kind q

/-- Nothing in a plan hinders naming. -/
structure AllNameable (plan : Plan Patch) : Prop where
  nodes : plan.Nameable plan.order
  hooks : ∀ side, (plan.hooks side).Nodup

/-- What naming the nodes, the cold groups, the listeners and the callers in turn gives. -/
theorem NodesNamed.drafted {d₁ d₂ d₃ d₄ : Draft} (hsound : plan.Sound)
    (hnodes : plan.NodesNamed plan.order d₁)
    (hgroups : GroupsNamed d₁ (List.range plan.schedule.cold.length) d₂)
    (hlisteners : HooksNamed .outlet d₂ (plan.hooks .outlet) d₃)
    (hcallers : HooksNamed .inlet d₃ (plan.hooks .inlet) d₄) :
  plan.Drafted [.state] d₄ ∧ plan.AllNameable
  := by
  have hsame : d₄.names.nodes = d₁.names.nodes ∧ d₄.nodes = d₁.nodes := by
    rw [hcallers.rest, hlisteners.rest, hgroups.rest]
    exact ⟨rfl, rfl⟩
  have hknown : ∀ n ∈ plan.patch.nodes, ∀ i, plan.registry.find? n.type = some i →
      ∃ names, d₄.names.nodes.get? n.id = some names ∧ plan.HasStem n names.stem ∧
        names.Fresh i.stateFields := by
    intro n hn
    rw [hsame.1]
    apply hnodes.known n hn (hsound.mem_order hn)
  refine ⟨⟨⟨?_, ?_, ?_⟩, ?_, ?_⟩, ⟨hnodes.nameable, ?_⟩⟩
  · intro n hn i hi
    obtain ⟨names, hnames, hstem, hfresh⟩ := hknown n hn i hi
    exact ⟨names, hnames, hstem, hfresh.hasState⟩
  · intro i hi
    rw [hcallers.rest, hlisteners.rest]
    apply (hgroups.get?_eq i).trans (if_pos (List.mem_range.mpr hi))
  · intro side
    cases side with
    | inlet => apply hcallers.hooked
    | outlet =>
        rw [hcallers.rest]
        apply hlisteners.hooked
  · intro id hid
    rw [hsame.2]
    apply hnodes.programs id ((hsound.mem_order_iff id).mpr hid)
  · rintro n hn kind hkind q ⟨names, hnames, hsome⟩
    obtain ⟨i, hi⟩ := hsound.implemented n hn
    obtain ⟨names', hnames', -, hfresh⟩ := hknown n hn i hi
    rw [hnames'] at hnames
    obtain rfl := Option.some.inj hnames
    rw [hfresh.unassigned kind (List.ne_of_not_mem_cons hkind)] at hsome
    cases hsome
  · intro side
    cases side with
    | inlet => apply hcallers.nodup
    | outlet => apply hlisteners.nodup

/-- The listeners of the nodes of a plan. -/
def listening (plan : Plan Patch) : List Listener :=
  (symbolsOf .outlet (plan.hooks .outlet)).map fun e => ⟨e.1, e.2⟩

/-- Everything is named, or there is an obstacle. -/
theorem meets_named (hfor : plan.IsFor p registry settings) (hsound : plan.Sound) :
  Meets plan.named
    (fun r => r.1 = plan.listening ∧ plan.Drafted [.state] r.2 ∧ plan.AllNameable)
    (Obstacle p registry settings)
  := by
  have hnodes : Meets (plan.forNodes { names := { debug := plan.settings.debug } } plan.declareNode)
      (plan.NodesNamed plan.order) (Obstacle p registry settings) := by
    apply hsound.meets_forNodes plan.NodesNamed plan.nodesNamed_nil
    intro done n rest _ hnew hn d' _ hd'
    apply hd'.meets_declareNode hfor hsound hn hnew
  apply hnodes.bind
  intro d₁ _ hnodes
  have hvalid : ∀ side, ∀ e ∈ plan.hooks side, isNamePart e.1 := by
    intro side e he
    apply hnodes.nameable.valid
    apply (hsound.mem_order_iff e.1).mpr (hsound.mem_ids_of_hook he)
  have htwice : ∀ side e, ListedTwice side (plan.hooks side) e → Obstacle p registry settings e :=
    fun _ _ => hfor.obstacle_of_listedTwice hsound
  have hnoGroup : ∀ key, d₁.names.coldGroups.get? key = none := by
    rw [hnodes.rest]
    intro key
    rfl
  apply (meets_declareColdGroups plan hnoGroup).of_total.bind
  intro d₂ _ hgroups
  have hnoListener : d₂.names.hooks .outlet = .empty Side.outlet.hookScope := by
    rw [hgroups.rest, hnodes.rest]
    rfl
  apply ((meets_declareHooks hnoListener (hvalid .outlet)).imp (fun _ h => h) (htwice _)).bind
  rintro ⟨_, d₃⟩ - ⟨rfl, hlisteners⟩
  replace hlisteners : HooksNamed .outlet d₂ _ d₃ := hlisteners
  have hnoCaller : d₃.names.hooks .inlet = .empty Side.inlet.hookScope := by
    rw [hlisteners.rest, hgroups.rest, hnodes.rest]
    rfl
  apply ((meets_declareHooks hnoCaller (hvalid .inlet)).imp (fun _ h => h) (htwice _)).bind
  rintro ⟨_, d₄⟩ - ⟨-, hcallers⟩
  exact ⟨rfl, hnodes.drafted hsound hgroups hlisteners hcallers⟩

end Plan

end AudioPatch
