import AudioPatch.Proofs.Compile.Wiring

/-!
# Putting the code together

Once everything is wired, the code of a node can be generated if the implementation of its type
answers, and what it answers fits. The loops, the cold functions and the global code can then
always be put together.
-/

namespace AudioPatch

variable {p : Patch} {registry : Registry} {settings : Settings} {plan : Plan Patch} {d d' : Draft}
  {n : Node} {i : Implementation} {c : NodeContext}

/-! ### Code of nodes -/

/-- The fields of a state are those of the type. -/
def Implementation.FieldsFit (i : Implementation) (fields : Table String Code) : Prop :=
  ∀ f ∈ fields.keys, ∃ shape, i.stateFields = some shape ∧
    canonicalKey f ∈ shape.map canonicalKey

/-- What an implementation answers for a node fits its type and the node. -/
structure Implementation.Fits (i : Implementation) (c : NodeContext) : Prop where
  state : ∀ fields, i.state c = .ok fields → i.FieldsFit fields
  loops : ∀ loops, i.inletLoops c = .ok loops → ∀ q ∈ loops.keys, q ∈ c.node.inlets.keys

namespace Plan

theorem contextOf_eq_ok_iff {names : Names} :
  plan.contextOf names n = .ok c
    ↔ ∃ own, names.nodes.get? n.id = some own ∧ c = ⟨n, own, names.globals, plan.settings⟩
  := by
  rw [← exists_congr fun own => and_congr_left fun _ => Names.node_eq_ok_iff]
  rw [contextOf]
  cases names.node n.id with
  | error e =>
      constructor
      · nofun
      · rintro ⟨own, ⟨⟩, -⟩
  | ok own =>
      constructor
      · rintro ⟨⟩
        exact ⟨own, rfl, rfl⟩
      · rintro ⟨own, ⟨⟩, rfl⟩
        rfl

/-- An implementation sees the node that it is called for, with its state. -/
theorem Named.exists_context {names : Names} (h : plan.Named names) (hn : n ∈ plan.patch.nodes)
    (hi : plan.registry.find? n.type = some i) :
  ∃ c, plan.contextOf names n = .ok c ∧ c.node = n ∧ c.names.HasState i.stateFields
  := by
  obtain ⟨own, hown, -, hstate⟩ := h.known n hn i hi
  use ⟨n, own, names.globals, plan.settings⟩
  exact ⟨contextOf_eq_ok_iff.mpr ⟨own, hown, rfl⟩, rfl, hstate⟩

/-- A node has a state object if the fields of its state fit. -/
theorem meets_stateOf (hsees : Sees p registry settings i c)
    (hown : c.names.HasState i.stateFields) {fields : Table String Code}
    (hstate : i.state c = .ok fields) :
  Meets (stateOf i c) (fun _ => i.FieldsFit fields) (Obstacle p registry settings)
  := by
  rw [stateOf, hstate]
  show Meets (stateObject c fields) _ _
  rw [stateObject]
  have hiff : c.names.stateName.isSome = i.stateFields.isSome := hown.stateName
  cases hname : c.names.stateName with
  | none =>
      rw [hname] at hiff
      have hshape : i.stateFields = none := by simpa using hiff.symm
      by_cases hempty : fields.isEmpty
      · simp only [if_pos hempty]
        intro f hf
        rw [Table.keys, List.isEmpty_iff.mp hempty] at hf
        cases hf
      · simp only [if_neg hempty]
        apply Obstacle.stateWithoutShape hsees hstate hshape
        intro hkeys
        apply hempty
        apply List.isEmpty_iff.mpr
        apply List.map_eq_nil_iff.mp hkeys
  | some name =>
      rw [hname] at hiff
      obtain ⟨shape, hshape⟩ := Option.isSome_iff_exists.mp hiff.symm
      cases hfind : fields.keys.find? fun f => !c.names.state.contains f with
      | none =>
          intro f hf
          have hcontains := List.find?_eq_none.mp hfind f hf
          rw [Bool.not_eq_true, Bool.not_eq_false'] at hcontains
          apply (hown.state f).mp hcontains
      | some field =>
          have hmem := List.mem_of_find?_eq_some hfind
          have hnot := List.find?_some hfind
          apply Obstacle.fieldOutsideShape hsees hstate hshape hmem
          intro hin
          have hcontains : c.names.state.contains field := (hown.state field).mpr ⟨shape, hshape, hin⟩
          simp [hcontains] at hnot

/-- Code may only depend on inlets of the node. -/
theorem meets_checkInlets (hsees : Sees p registry settings i c)
    {loops : Table PortletId Code} (hloops : i.inletLoops c = .ok loops) :
  Meets (loops.keys.forM fun q => do let _ ← c.node.inlet q : Except CompileError Unit)
    (fun _ => ∀ q ∈ loops.keys, q ∈ c.node.inlets.keys) (Obstacle p registry settings)
  := by
  apply Meets.forM
  intro q hq
  have hinlet : Meets (c.node.portlet .inlet q) (fun _ => q ∈ c.node.inlets.keys)
      (fun e => Obstacle p registry settings (.patch e)) := by
    apply (c.node.meets_portlet .inlet q).imp
    · intro inlet hinlet
      apply Table.isSome_find?_iff.mp
      rw [show c.node.inlets.find? q = _ from hinlet]
      rfl
    · rintro e ⟨hnot, rfl⟩
      apply Obstacle.codeWithoutInlet hsees hloops hq hnot
  apply hinlet.liftPatch.bind
  intro _ _ hmem
  apply hmem

/-- A node gets its code if what its implementation answers fits. -/
theorem meets_generate (hi : plan.registry.find? n.type = some i)
    (hc : plan.contextOf d.names n = .ok c) (hsees : Sees p registry settings i c)
    (hown : c.names.HasState i.stateFields) (hanswers : i.Answers c)
    (hprogram : n.id ∈ d.nodes.keys) :
  Meets (plan.generate d n)
    (fun d' => (d'.names = d.names ∧ d'.nodes.keys = d.nodes.keys) ∧ i.Fits c)
    (Obstacle p registry settings)
  := by
  obtain ⟨fields, hfields⟩ := hanswers.state
  have hnode : c.node = n := by
    obtain ⟨own, -, rfl⟩ := contextOf_eq_ok_iff.mp hc
    rfl
  rw [generate, Registry.get_eq_ok_iff.mpr hi]
  show Meets (plan.contextOf d.names n >>= _) _ _
  rw [hc]
  apply (meets_stateOf hsees hown hfields).bind
  intro state hstate hfit
  obtain ⟨⟨initialization, hinitialization⟩, ⟨loop, hloop⟩, ⟨loops, hloops⟩⟩ :=
    hanswers.code state hstate
  rw [hinitialization, ← hnode]
  show Meets (i.loop c >>= _) _ _
  rw [hloop]
  show Meets (i.inletLoops c >>= _) _ _
  rw [hloops]
  apply (meets_checkInlets hsees hloops).bind
  intro _ _ hinlets
  obtain ⟨bodies, hbodies⟩ := hanswers.receivers state loops hstate hloops hinlets
  rw [hbodies, ok_bind, hnode, reviseProgram_eq hprogram]
  constructor
  · exact ⟨rfl, Table.keys_modify _ _ _⟩
  · constructor
    · intro fields' hfields'
      rw [hfields] at hfields'
      rw [← Except.ok.inj hfields']
      apply hfit
    · intro loops' hloops'
      rw [hloops] at hloops'
      rw [← Except.ok.inj hloops']
      apply hinlets

/-- The code of some of the nodes of a draft is generated. -/
structure Generated (plan : Plan Patch) (d : Draft) (done : List NodeId) (d' : Draft) : Prop where
  names_eq : d'.names = d.names
  keys_eq : d'.nodes.keys = d.nodes.keys
  fits : ∀ n ∈ plan.patch.nodes, n.id ∈ done → ∀ i c, plan.registry.find? n.type = some i →
    plan.contextOf d.names n = .ok c → i.Fits c

/-- The code of all nodes is generated if all that is called answers, or there is an
obstacle. -/
theorem meets_generated (hfor : plan.IsFor p registry settings) (hsound : plan.Sound)
    (hwired : plan.IsWired d) (hcomes : Wires p registry settings plan d)
    (hresponds : Responds p registry settings) :
  Meets (plan.forNodes d plan.generate) (plan.Generated d plan.order)
    (Obstacle p registry settings)
  := by
  apply hsound.meets_forNodes (plan.Generated d)
  · constructor
    · rfl
    · rfl
    · simp
  · intro done n rest hsplit _ hn d' hok hd'
    obtain ⟨i, hi⟩ := hsound.implemented n hn
    obtain ⟨c, hc, hnode, hstate⟩ := hwired.named.exists_context hn hi
    have hregistered := hi
    rw [hfor.registry_eq, ← hnode] at hregistered
    have hsees : Sees p registry settings i c := by
      rw [← hnode] at hc hn
      exact ⟨plan, d, hcomes, hn, hregistered, hc⟩
    have hanswers : i.Answers c := by
      rw [hnode] at hregistered
      apply hresponds.nodes plan d hcomes done n rest d' hsplit hok hn i c hregistered hc
    have hnow := hc
    rw [← hd'.names_eq] at hnow
    have hprogram : n.id ∈ d'.nodes.keys := by
      rw [hd'.keys_eq]
      apply hwired.programs n.id (Patch.mem_ids_iff.mpr ⟨n, Patch.find?_of_mem hn⟩)
    apply (meets_generate hi hnow hsees hstate hanswers hprogram).imp_good
    rintro d'' ⟨⟨hnames, hkeys⟩, hfits⟩
    constructor
    · rw [hnames, hd'.names_eq]
    · rw [hkeys, hd'.keys_eq]
    · intro m hm hid i' c' hi' hc'
      rcases mem_done_or_eq hn hm hid with hdone | rfl
      · apply hd'.fits m hm hdone i' c' hi' hc'
      · rw [← Option.some.inj (hi.symm.trans hi'), ← Except.ok.inj (hc.symm.trans hc')]
        apply hfits

/-! ### Loops and functions -/

theorem exists_nodeCode {nodes : Table NodeId NodeProgram} {id : NodeId} (h : id ∈ nodes.keys) :
  ∃ code, plan.nodeCode nodes id = .ok code
  := by
  obtain ⟨program, hprogram⟩ := exists_program h
  rw [nodeCode, hprogram]
  exact ⟨_, rfl⟩

/-- The pulled nodes are nodes of the plan. -/
theorem Sound.mem_ids_of_pulled (h : plan.Sound) {id : NodeId}
    (hid : id ∈ plan.schedule.pulled.nodes) :
  id ∈ plan.patch.ids
  := by
  obtain ⟨cold, harranged⟩ := h.arranged
  apply ((Schedule.mem_pulled_iff harranged.order).mp hid).mem_ids h.coherent

theorem Sound.exists_hotLoop (h : plan.Sound) {nodes : Table NodeId NodeProgram}
    (hnodes : ∀ id ∈ plan.patch.ids, id ∈ nodes.keys) :
  ∃ loop, plan.hotLoop nodes = .ok loop
  := by
  obtain ⟨cold, harranged⟩ := h.arranged
  have hcode : ∀ id ∈ plan.schedule.hot.nodes, ∃ code, plan.nodeCode nodes id = .ok code := by
    intro id hid
    apply exists_nodeCode
    apply hnodes id (h.mem_ids_of_pulled (harranged.hot_sublist.subset hid))
  obtain ⟨loops, hloops⟩ := exists_mapM_eq_ok hcode
  rw [hotLoop, hloops]
  exact ⟨_, rfl⟩

/-- The function of a cold group can be made: its nodes are pulled, and so are those that it
feeds. -/
theorem Sound.exists_coldFunction (h : plan.Sound) (hnamed : plan.Named d.names)
    (hnodes : ∀ id ∈ plan.patch.ids, id ∈ d.nodes.keys) {index : Nat}
    (hindex : index < plan.schedule.cold.length) {g : ColdGroup} (hg : g ∈ plan.schedule.cold) :
  ∃ function, plan.coldFunction d index g = .ok function
  := by
  obtain ⟨cold, harranged⟩ := h.arranged
  have hgroup := harranged.grouping.isGroup g hg
  have hname := hnamed.coldGroup index hindex
  have hcode : ∀ id ∈ g.group.nodes, ∃ code, plan.nodeCode d.nodes id = .ok code := by
    intro id hid
    apply exists_nodeCode
    apply hnodes id (h.mem_ids_of_pulled (hgroup.sublist.subset hid))
  have hsink : ∀ e ∈ g.sinkEdges, ∃ code, sinkCode d.nodes e = .ok code := by
    intro e he
    have hpulled := (Schedule.isHot_iff.mp ((hgroup.mem_sinkEdges_iff e).mp he).2.2).1
    obtain ⟨program, hprogram⟩ := exists_program (hnodes _ (h.mem_ids_of_pulled hpulled))
    rw [sinkCode, hprogram]
    exact ⟨_, rfl⟩
  obtain ⟨loops, hloops⟩ := exists_mapM_eq_ok hcode
  obtain ⟨sinks, hsinks⟩ := exists_mapM_eq_ok hsink
  simp only [coldFunction, Scope.get_eq_ok_iff.mpr hname, hloops, hsinks]
  exact ⟨_, rfl⟩

theorem Sound.exists_coldFunctions (h : plan.Sound) (hnamed : plan.Named d.names)
    (hnodes : ∀ id ∈ plan.patch.ids, id ∈ d.nodes.keys) :
  ∃ functions, plan.coldFunctionsOf d = .ok functions
  := by
  apply exists_mapM_eq_ok
  rintro ⟨g, index⟩ hmem
  obtain ⟨hindex, hg⟩ := List.mem_zipIdx' hmem
  apply h.exists_coldFunction hnamed hnodes hindex
  rw [hg]
  apply List.getElem_mem

/-! ### Global code -/

/-- All nodes have implementations, so the global code that they need is known. -/
theorem Sound.exists_definitions (h : plan.Sound) :
  ∃ definitions, plan.definitions = .ok definitions
  := by
  have hused : ∀ id ∈ plan.order, ∃ used, plan.dependenciesOf id = .ok used := by
    intro id hid
    obtain ⟨n, hn⟩ := Patch.mem_ids_iff.mp ((h.mem_order_iff id).mp hid)
    obtain ⟨i, hi⟩ := h.implemented n (Patch.mem_nodes_of_find? hn)
    use i.dependencies
    rw [dependenciesOf, Patch.store_node, Patch.node_eq_ok_iff.mpr hn]
    show (plan.registry.get n.type >>= _) = _
    rw [Registry.get_eq_ok_iff.mpr hi]
    rfl
  obtain ⟨used, hused⟩ := exists_mapM_eq_ok hused
  rw [definitions, hused]
  exact ⟨_, rfl⟩

end Plan

namespace Definition

variable {context : CodeContext} {names names' : Names} {kept kept' : List Code}

/-- Definitions after others go on from what those have given. -/
theorem fragments_append {definitions more : List Definition}
    (h : fragments context kept definitions names = (.ok kept', names')) :
  fragments context kept (definitions ++ more) names = fragments context kept' more names'
  := by
  induction definitions generalizing kept names with
  | nil =>
      cases h
      rfl
  | cons definition rest ih =>
      rw [fragments] at h
      rw [List.cons_append, fragments]
      cases hcode : (definition.generate context).run names with
      | mk result names₁ =>
          cases result with
          | error e =>
              rw [hcode] at h
              cases h
          | ok code =>
              rw [hcode] at h
              apply ih h

/-- Definitions give fragments if each of them gives code after those before it. -/
theorem exists_fragments {definitions : List Definition}
    (h : ∀ before definition after kept names', definitions = before ++ definition :: after →
      fragments context [] before names = (.ok kept, names') →
      ∃ code, ((definition.generate context).run names').1 = .ok code) :
  ∃ kept, (fragments context [] definitions names).1 = .ok kept
  := by
  -- By induction from the end, since what a definition sees depends on those before it.
  induction definitions using List.reverseRecOn with
  | nil => exact ⟨[], rfl⟩
  | append_singleton before definition ih =>
      obtain ⟨kept, hkept⟩ := ih fun before' definition' after kept names' hsplit =>
        h before' definition' (after ++ [definition]) kept names' (by simp [hsplit])
      obtain ⟨code, hcode⟩ := h before definition [] kept _ rfl (Prod.ext hkept rfl)
      rw [fragments_append (Prod.ext hkept rfl), fragments]
      cases hresult : (definition.generate context).run (fragments context [] before names).2 with
      | mk result names₁ =>
          rw [hresult] at hcode
          cases hcode
          exact ⟨_, rfl⟩

/-- Global code is put together from the fragments. -/
theorem exists_instantiate {definitions : List Definition} {settings : Settings}
    {kept : List Code} (h : (fragments ⟨names.globals, settings⟩ [] definitions names).1 = .ok kept) :
  ∃ code, (instantiate definitions settings names).1 = .ok code
  := by
  use Code.concat kept
  show (Except.map _ _) = _
  rw [h]
  rfl

end Definition

end AudioPatch
