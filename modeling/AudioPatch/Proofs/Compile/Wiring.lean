import AudioPatch.Proofs.Compile.Naming

/-!
# The passes that wire the nodes

Every pass reads what earlier passes have assigned, and assigns symbols of its own kind. What
a pass reads is there: a signal inlet is fed by a signal outlet, a message outlet feeds
inlets that have receivers, and cold groups, listeners and callers are named before.
-/

namespace AudioPatch

/-! ### Programs of nodes -/

theorem programOf_eq_ok_iff {nodes : Table NodeId NodeProgram} {id : NodeId}
    {program : NodeProgram} :
  programOf nodes id = .ok program ↔ nodes.find? id = some program
  := by
  rw [programOf]
  cases nodes.find? id with
  | none => simp
  | some program' => simp

theorem exists_program {nodes : Table NodeId NodeProgram} {id : NodeId} (h : id ∈ nodes.keys) :
  ∃ program, programOf nodes id = .ok program
  := by
  obtain ⟨program, hprogram⟩ := Option.isSome_iff_exists.mp (Table.isSome_find?_iff.mpr h)
  exact ⟨program, programOf_eq_ok_iff.mpr hprogram⟩

/-- A program that is there can be changed. -/
theorem reviseProgram_eq {nodes : Table NodeId NodeProgram} {id : NodeId} (h : id ∈ nodes.keys)
    (change : NodeProgram → NodeProgram) :
  reviseProgram nodes id change = .ok (nodes.modify id change)
  := by
  obtain ⟨program, hprogram⟩ := exists_program h
  rw [reviseProgram, hprogram]
  rfl

theorem eq_modify_of_reviseProgram {nodes nodes' : Table NodeId NodeProgram} {id : NodeId}
    {change : NodeProgram → NodeProgram} (h : reviseProgram nodes id change = .ok nodes') :
  nodes' = nodes.modify id change
  := by
  obtain ⟨-, -, ⟨⟩⟩ := bind_eq_ok_iff.mp h
  rfl

/-! ### What a pass changes -/

/-- A draft has gained symbols of one kind at some portlets, and has not changed otherwise. -/
structure Draft.Gains (kind : SymbolKind) (gained : NodeId → PortletId → Prop) (d d' : Draft) :
    Prop where
  rewires : d.names.Rewires kind d'.names
  keys_eq : d'.nodes.keys = d.nodes.keys
  assigns_iff : ∀ id q, isNamePart id →
    (d'.names.Assigns id kind q ↔ d.names.Assigns id kind q ∨ gained id q)

namespace Draft

variable {kind : SymbolKind} {gained gained' : NodeId → PortletId → Prop} {d d' d'' : Draft}

theorem Gains.refl (kind : SymbolKind) (h : ∀ id q, ¬ gained id q) :
  Gains kind gained d d
  := by
  constructor
  · apply Names.Rewires.refl
  · rfl
  · intro id q _
    simp [h]

theorem Gains.trans (h : Gains kind gained d d') (h' : Gains kind gained' d' d'') :
  Gains kind (fun id q => gained id q ∨ gained' id q) d d''
  := by
  constructor
  · apply h.rewires.trans h'.rewires
  · rw [h'.keys_eq, h.keys_eq]
  · intro id q hid
    rw [h'.assigns_iff id q hid, h.assigns_iff id q hid, or_assoc]

theorem Gains.congr (h : Gains kind gained d d') (hiff : ∀ id q, gained id q ↔ gained' id q) :
  Gains kind gained' d d'
  := by
  constructor
  · apply h.rewires
  · apply h.keys_eq
  · intro id q hid
    rw [h.assigns_iff id q hid, hiff]

/-- A portlet of a node that is known gets a symbol. -/
theorem meets_wire {id : NodeId} {q : PortletId} (hid : isNamePart id)
    (hknown : (d.names.nodes.get? id).isSome) (hprogram : id ∈ d.nodes.keys)
    (hnew : ¬ d.names.Assigns id kind q) (symbol : String) (change : NodeProgram → NodeProgram) :
  Meets (d.wire id kind q symbol change) (d.Gains kind fun id' q' => id' = id ∧ q' = q)
    (fun _ => False)
  := by
  apply (Names.meets_declareSymbol hid hknown hnew).liftSymbol.bind
  rintro names' - ⟨hrewires, hassigns⟩
  rw [reviseProgram_eq hprogram]
  exact ⟨hrewires, Table.keys_modify d.nodes id change, hassigns⟩

/-- A node that is known is found by its names and its program. -/
theorem lookUp_eq {id : NodeId} (hknown : (d.names.nodes.get? id).isSome)
    (hprogram : id ∈ d.nodes.keys) :
  d.lookUp id = .ok ()
  := by
  obtain ⟨own, hown⟩ := Option.isSome_iff_exists.mp hknown
  obtain ⟨program, hprogram⟩ := exists_program hprogram
  rw [lookUp, Names.node_eq_ok_iff.mpr hown, hprogram]
  rfl

end Draft

namespace Pass

variable {σ : Type} {pass : Pass σ} {d : Draft} {n : Node}

/-- A pass finds what it gives to the portlets of a node, in the names and in all that differ
from them in what the pass assigns. -/
def Finds (pass : Pass σ) (names : Names) (n : Node) : Prop :=
  ∀ names', names.Rewires pass.kind names' → ∀ portlet ∈ pass.portlets n,
    ∃ found, pass.find names' n portlet.id = .ok found

/-- A pass that comes to a draft has gone through the portlets. -/
theorem foldlM_of_run {d' : Draft} (h : pass.run d n = .ok d') :
  (pass.portlets n).foldlM
    (fun d portlet => do
      let found ← pass.find d.names n portlet.id
      d.wire n.id pass.kind portlet.id (pass.symbol found) (pass.put portlet.id found))
    d = .ok d'
  := by
  obtain ⟨-, -, h⟩ := bind_eq_ok_iff.mp h
  apply h

/-- A pass gives symbols to the portlets of a node, if it has not yet been there. -/
theorem meets_run (hid : isNamePart n.id) (hknown : (d.names.nodes.get? n.id).isSome)
    (hprogram : n.id ∈ d.nodes.keys) (hnew : ∀ q, ¬ d.names.Assigns n.id pass.kind q)
    (hnodup : ((pass.portlets n).map Portlet.id).Nodup) (hfinds : pass.Finds d.names n) :
  Meets (pass.run d n)
    (d.Gains pass.kind fun id q => id = n.id ∧ q ∈ (pass.portlets n).map Portlet.id)
    (fun _ => False)
  := by
  have hahead : pass.lookAhead d n = .ok () := by
    rw [lookAhead, Draft.lookUp_eq hknown hprogram, ite_self]
  rw [run, hahead, ok_bind]
  apply Meets.foldlM fun done =>
    d.Gains pass.kind fun id q => id = n.id ∧ q ∈ done.map Portlet.id
  · apply Draft.Gains.refl
    simp
  · intro done portlet rest hsplit d' hd'
    have hmem : portlet ∈ pass.portlets n := by simp [hsplit]
    obtain ⟨found, hfound⟩ := hfinds d'.names hd'.rewires portlet hmem
    rw [hfound]
    have hids : (pass.portlets n).map Portlet.id
        = done.map Portlet.id ++ portlet.id :: rest.map Portlet.id := by
      rw [hsplit, List.map_append, List.map_cons]
    have hnew' : ¬ d'.names.Assigns n.id pass.kind portlet.id := by
      rw [hd'.assigns_iff n.id portlet.id hid]
      rintro (hold | ⟨-, hdone⟩)
      · apply hnew _ hold
      · apply not_mem_of_split hnodup hids hdone
    have hprogram' : n.id ∈ d'.nodes.keys := by
      rw [hd'.keys_eq]
      apply hprogram
    apply (Draft.meets_wire hid (hd'.rewires.isSome_iff.mpr hknown) hprogram' hnew' _ _).imp_good
    intro d'' hd''
    apply (hd'.trans hd'').congr
    intro id q
    rw [List.map_append, List.mem_append, List.map_singleton, List.mem_singleton]
    tauto

/-- A pass gives a symbol to a portlet. -/
def Gives (pass : Pass σ) (p : Patch) (id : NodeId) (q : PortletId) : Prop :=
  ∃ n, p.find? id = some n ∧ q ∈ (pass.portlets n).map Portlet.id

end Pass

namespace Plan

variable {plan : Plan Patch} {names names' : Names} {d : Draft} {n : Node} {kind : SymbolKind}

/-! ### One pass -/

/-- All that is named is found when portlets have got symbols. -/
theorem Named.rewires (h : plan.Named names) (hrewires : names.Rewires kind names')
    (hkind : kind ≠ .state) :
  plan.Named names'
  := by
  constructor
  · intro n hn i hi
    obtain ⟨own, hown, hstem, hstate⟩ := h.known n hn i hi
    obtain ⟨scope, hscope⟩ := hrewires.nodes n.id
    rw [hown] at hscope
    refine ⟨own.withScope scope kind, hscope, ?_, hstate.withScope hkind⟩
    rw [NodeNames.stem_withScope]
    apply hstem
  · rw [hrewires.coldGroups_eq]
    apply h.coldGroup
  · intro side
    rw [hrewires.hooks_eq]
    apply h.hooked side

/-- A node of the plan has names. -/
theorem Named.exists_own (h : plan.Named names) (hsound : plan.Sound)
    (hn : n ∈ plan.patch.nodes) :
  ∃ own, names.nodes.get? n.id = some own
  := by
  obtain ⟨i, hi⟩ := hsound.implemented n hn
  obtain ⟨own, hown, -, -⟩ := h.known n hn i hi
  exact ⟨own, hown⟩

/-- A pass gives symbols to all the portlets that it is for, if it finds what it gives. -/
theorem Drafted.meets_gains {kinds : List SymbolKind} (h : plan.Drafted kinds d) {σ : Type}
    {pass : Pass σ} (hsound : plan.Sound) (hnameable : plan.Nameable plan.order)
    (hkind : pass.kind ∉ kinds)
    (hnodup : ∀ n ∈ plan.patch.nodes, ((pass.portlets n).map Portlet.id).Nodup)
    (hfinds : ∀ n ∈ plan.patch.nodes, pass.Finds d.names n) :
  Meets (plan.forNodes d pass.run) (d.Gains pass.kind (pass.Gives plan.patch)) (fun _ => False)
  := by
  have hall : Meets (plan.forNodes d pass.run)
      (d.Gains pass.kind fun id q => id ∈ plan.order ∧ pass.Gives plan.patch id q)
      (fun _ => False) := by
    apply hsound.meets_forNodes fun done =>
      d.Gains pass.kind fun id q => id ∈ done ∧ pass.Gives plan.patch id q
    · apply Draft.Gains.refl
      simp
    · intro done n rest hsplit hdone hn d' _ hd'
      have hid : isNamePart n.id := hnameable.valid n.id (by simp [hsplit])
      obtain ⟨own, hown⟩ := h.named.exists_own hsound hn
      have hknown : (d'.names.nodes.get? n.id).isSome := by
        rw [hd'.rewires.isSome_iff, hown]
        rfl
      have hnew' : ∀ q, ¬ d'.names.Assigns n.id pass.kind q := by
        intro q
        rw [hd'.assigns_iff n.id q hid]
        rintro (hold | ⟨hmem, -⟩)
        · apply h.unassigned n hn _ hkind q hold
        · apply hdone hmem
      have hfinds' : pass.Finds d'.names n := by
        intro names' hrewires
        apply hfinds n hn names' (hd'.rewires.trans hrewires)
      have hprogram : n.id ∈ d'.nodes.keys := by
        rw [hd'.keys_eq]
        apply h.programs n.id (Patch.mem_ids_iff.mpr ⟨n, Patch.find?_of_mem hn⟩)
      apply (Pass.meets_run hid hknown hprogram hnew' (hnodup n hn) hfinds').imp_good
      intro d'' hd''
      apply (hd'.trans hd'').congr
      intro id q
      rw [List.mem_append, List.mem_singleton, or_and_right]
      apply or_congr_right
      apply and_congr_right
      rintro rfl
      simp [Pass.Gives, Patch.find?_of_mem hn]
  apply hall.imp_good
  intro d' hd'
  apply hd'.congr
  intro id q
  apply and_iff_right_of_imp
  rintro ⟨n, hn, -⟩
  apply (hsound.mem_order_iff id).mpr (Patch.mem_ids_iff.mpr ⟨n, hn⟩)

/-- A pass adds the symbols of its kind to a draft. -/
theorem Drafted.meets_pass {kinds : List SymbolKind} (h : plan.Drafted kinds d) {σ : Type}
    {pass : Pass σ} (hsound : plan.Sound) (hnameable : plan.Nameable plan.order)
    (hkind : pass.kind ∉ kinds) (hstate : pass.kind ≠ .state)
    (hnodup : ∀ n ∈ plan.patch.nodes, ((pass.portlets n).map Portlet.id).Nodup)
    (hfinds : ∀ n ∈ plan.patch.nodes, pass.Finds d.names n) :
  Meets (plan.forNodes d pass.run)
    (fun d' => plan.Drafted (pass.kind :: kinds) d' ∧ d.names.Rewires pass.kind d'.names ∧
      ∀ id q, pass.Gives plan.patch id q → d'.names.Assigns id pass.kind q)
    (fun _ => False)
  := by
  apply (h.meets_gains hsound hnameable hkind hnodup hfinds).imp_good
  intro d' hd'
  constructor
  · constructor
    · apply h.named.rewires hd'.rewires hstate
    · rw [hd'.keys_eq]
      apply h.programs
    · intro n hn kind hnot q
      rw [List.mem_cons, not_or] at hnot
      rw [hd'.rewires.assigns_iff hnot.1]
      apply h.unassigned n hn kind hnot.2
  · constructor
    · apply hd'.rewires
    · intro id q hgives
      have ⟨n, hn, _⟩ := hgives
      have hid := (hsound.mem_order_iff id).mpr (Patch.mem_ids_iff.mpr ⟨n, hn⟩)
      apply (hd'.assigns_iff id q (hnameable.valid id hid)).mpr (.inr hgives)

/-- A symbol that is assigned is found. -/
theorem exists_symbol {id : NodeId} {q : PortletId} (h : names.Assigns id kind q) :
  ∃ symbol, (do NodeNames.scope (← names.node id) kind |>.get (toString q) :
    Except CompileError String) = .ok symbol
  := by
  obtain ⟨own, hown, hsome⟩ := h
  obtain ⟨symbol, hsymbol⟩ := Option.isSome_iff_exists.mp hsome
  use symbol
  rw [Names.node_eq_ok_iff.mpr hown]
  show (liftM ((own.scope kind).get (toString q)) : Except CompileError String) = _
  rw [Scope.get_eq_ok_iff.mpr hsymbol]
  rfl

/-! ### Signals -/

theorem Named.finds_signalOuts (h : plan.Named names) (hsound : plan.Sound)
    (hn : n ∈ plan.patch.nodes) :
  signalOuts.Finds names n
  := by
  intro names' hrewires outlet _
  obtain ⟨own, hown⟩ := (h.rewires hrewires (by decide)).exists_own hsound hn
  use own.signalOutSymbol outlet.id
  simp only [signalOuts, Names.node_eq_ok_iff.mpr hown]
  rfl

/-- A signal inlet is fed by a signal outlet, which has its variable. -/
theorem finds_signalIns (hsound : plan.Sound) (hn : n ∈ plan.patch.nodes)
    (hassigned : ∀ id q, signalOuts.Gives plan.patch id q → names.Assigns id .signalOut q) :
  signalIns.Finds names n
  := by
  intro names' hrewires inlet hinlet
  obtain ⟨hfind, hkind⟩ := (hsound.coherent.mem_inletsOf_iff hn).mp hinlet
  show ∃ found, signalAt names' n inlet.id = .ok found
  rw [signalAt]
  cases hsources : n.sourcesAt inlet.id with
  | nil => exact ⟨_, rfl⟩
  | cons source rest =>
      have hsource : source ∈ n.sourcesAt inlet.id := by simp [hsources]
      obtain ⟨inlet', m, outlet, hfind', hm, houtlet, hkinds, -⟩ :=
        hsound.coherent.source_outlet hn hsource
      obtain rfl := Option.some.inj (hfind.symm.trans hfind')
      have hgives : signalOuts.Gives plan.patch source.node source.portlet := by
        use m, hm
        have hmem := hsound.coherent.mem_outletsOf_ids (Patch.mem_nodes_of_find? hm) houtlet
        rw [hkinds, hkind] at hmem
        apply hmem
      have hsymbol := (hrewires.assigns_iff (by decide)).mpr (hassigned _ _ hgives)
      apply exists_symbol hsymbol

/-! ### Messages -/

theorem Named.finds_receivers (h : plan.Named names) (hsound : plan.Sound)
    (hn : n ∈ plan.patch.nodes) :
  plan.receivers.Finds names n
  := by
  intro names' hrewires inlet _
  have hkind : plan.receivers.kind ≠ .state := SymbolKind.noConfusion
  obtain ⟨own, hown⟩ := (h.rewires hrewires hkind).exists_own hsound hn
  use own.receiverSymbol inlet.id
  show (do return NodeNames.receiverSymbol (← names'.node n.id) inlet.id :
    Except CompileError String) = _
  rw [Names.node_eq_ok_iff.mpr hown]
  rfl

/-- A message inlet has a receiver if something is connected to it or calls it. -/
theorem gives_receivers (hsound : plan.Sound) {id : NodeId} {q : PortletId} {inlet : Portlet}
    (hn : plan.patch.find? id = some n) (hinlet : n.inlets.find? q = some inlet)
    (hkind : inlet.kind = .message)
    (hreached : n.sourcesAt q ≠ [] ∨ (id, q) ∈ plan.callers.pairs) :
  plan.receivers.Gives plan.patch id q
  := by
  have hmem := Patch.mem_nodes_of_find? hn
  obtain rfl := Patch.id_of_find? hn
  obtain rfl := hsound.coherent.inlet_id n hmem q inlet hinlet
  use n, hn
  apply List.mem_map_of_mem
  rw [receivers, List.mem_filter, isReached, Bool.or_eq_true, decide_eq_true_iff,
    Hooks.contains_iff]
  exact ⟨(hsound.coherent.mem_inletsOf_iff hmem).mpr ⟨hinlet, hkind⟩, hreached⟩

/-- The inlets that a message outlet feeds have receivers. -/
theorem gives_receivers_of_sink (hsound : plan.Sound) (hn : n ∈ plan.patch.nodes)
    {outlet : Portlet} (houtlet : outlet ∈ n.outletsOf .message) {e : Endpoint}
    (he : e ∈ n.sinksAt outlet.id) :
  plan.receivers.Gives plan.patch e.node e.portlet
  := by
  obtain ⟨hfind, hkind⟩ := (hsound.coherent.mem_outletsOf_iff hn).mp houtlet
  obtain ⟨outlet', m, inlet, hfind', hm, hinlet, hkinds, hsource⟩ :=
    hsound.coherent.sink_inlet hn he
  obtain rfl := Option.some.inj (hfind.symm.trans hfind')
  apply gives_receivers hsound hm hinlet (hkinds.trans hkind)
  left
  apply List.ne_nil_of_mem hsource

theorem exists_receiver {e : Endpoint} (h : names.Assigns e.node .receiver e.portlet) :
  ∃ receiver, receiverAt names e = .ok receiver
  := exists_symbol h

/-- The functions of cold groups are found by the places of the groups. -/
theorem Named.coldFunctions_eq (h : plan.Named names) (ids : List NodeId) :
  plan.coldFunctions names ids = .ok (((List.range plan.schedule.cold.length).filter
    (ids.filterMap plan.schedule.groupIndex?).contains).map fun i => s!"COLD_{i}")
  := by
  apply mapM_eq_ok_iff.mpr
  rw [List.forall₂_map_right_iff, List.forall₂_same]
  intro i hi
  apply liftSymbol_eq_ok_iff.mpr
  apply Scope.get_eq_ok_iff.mpr
  apply h.coldGroup i (List.mem_range.mp (List.mem_filter.mp hi).1)

/-- A listener at a node of the plan is named. -/
theorem mem_hooks_outlet_iff (hn : n ∈ plan.patch.nodes) {outlet : PortletId} :
  (n.id, outlet) ∈ plan.hooks .outlet ↔ plan.listeners.contains n.id outlet
  := by
  have hid := Patch.mem_ids_iff.mpr ⟨n, Patch.find?_of_mem hn⟩
  rw [hooks, List.mem_filter, ← Hooks.contains_iff, Patch.store_contains, Patch.contains_iff,
    and_iff_left hid]

/-- The functions that a message from an outlet goes to are found. -/
theorem Named.exists_targets (h : plan.Named names) (hvalid : isNamePart n.id)
    (hn : n ∈ plan.patch.nodes) {outlet : PortletId}
    (hsinks : ∀ e ∈ n.sinksAt outlet, names.Assigns e.node .receiver e.portlet) :
  ∃ targets, plan.targetsOf names n outlet = .ok targets
  := by
  obtain ⟨receivers, hreceivers⟩ := exists_mapM_eq_ok fun e he => exists_receiver (hsinks e he)
  have hfunctions := h.coldFunctions_eq ((n.sinksAt outlet).map (·.node))
  simp only [targetsOf, hreceivers, hfunctions]
  by_cases hlistened : plan.listeners.contains n.id outlet
  · have hmem := (mem_hooks_outlet_iff hn).mpr hlistened
    simp only [if_pos hlistened, (h.hooked .outlet).hook_eq_ok hvalid hmem]
    exact ⟨_, rfl⟩
  · simp only [if_neg hlistened]
    exact ⟨_, rfl⟩

/-- The sender of an outlet is found. -/
theorem Named.exists_sender (h : plan.Named names) (hsound : plan.Sound)
    (hvalid : isNamePart n.id) (hn : n ∈ plan.patch.nodes) {outlet : PortletId}
    (hsinks : ∀ e ∈ n.sinksAt outlet, names.Assigns e.node .receiver e.portlet) :
  ∃ sender, plan.senderOf names n outlet = .ok sender
  := by
  obtain ⟨targets, htargets⟩ := h.exists_targets hvalid hn hsinks
  obtain ⟨own, hown⟩ := h.exists_own hsound hn
  simp only [senderOf, htargets, Names.node_eq_ok_iff.mpr hown]
  by_cases hlistened : plan.listeners.contains n.id outlet
  · simp only [if_pos hlistened]
    exact ⟨_, rfl⟩
  · simp only [if_neg hlistened]
    match targets with
    | [] => exact ⟨_, rfl⟩
    | [only] => exact ⟨_, rfl⟩
    | _ :: _ :: _ => exact ⟨_, rfl⟩

/-- How a sender sends depends on the listener and on the number of targets. -/
theorem senderOf_cases {own : NodeNames} {sender : Sender} {o : PortletId}
    (hown : names.nodes.get? n.id = some own)
    (h : plan.senderOf names n o = .ok sender) :
  plan.targetsOf names n o = .ok sender.targets ∧
    ((plan.listeners.contains n.id o ∨ 2 ≤ sender.targets.length) ∧
        sender.kind = .synthesized ∧ sender.name = own.senderSymbol o ∨
      ¬ plan.listeners.contains n.id o ∧ sender.targets = [sender.name] ∧ sender.kind = .direct ∨
      ¬ plan.listeners.contains n.id o ∧ sender.targets = [] ∧
        sender.kind = .null ∧ sender.name = names.globals.nullReceiver)
  := by
  obtain ⟨targets, htargets, h⟩ := bind_eq_ok_iff.mp h
  rw [Names.node_eq_ok_iff.mpr hown] at h
  by_cases hlistened : plan.listeners.contains n.id o
  · rw [if_pos hlistened] at h
    obtain rfl := Except.ok.inj h
    exact ⟨htargets, .inl ⟨.inl hlistened, rfl, rfl⟩⟩
  · rw [if_neg hlistened] at h
    match targets with
    | [] =>
        obtain rfl := Except.ok.inj h
        exact ⟨htargets, .inr (.inr ⟨hlistened, rfl, rfl, rfl⟩)⟩
    | [only] =>
        obtain rfl := Except.ok.inj h
        exact ⟨htargets, .inr (.inl ⟨hlistened, rfl, rfl⟩)⟩
    | first :: second :: rest =>
        obtain rfl := Except.ok.inj h
        exact ⟨htargets, .inl ⟨.inr (by simp), rfl, rfl⟩⟩

/-- A message outlet is connected to message inlets, which have receivers. -/
theorem Named.finds_senders (h : plan.Named names) (hsound : plan.Sound)
    (hvalid : isNamePart n.id) (hn : n ∈ plan.patch.nodes)
    (hassigned : ∀ id q, plan.receivers.Gives plan.patch id q → names.Assigns id .receiver q) :
  plan.senders.Finds names n
  := by
  intro names' hrewires outlet houtlet
  have hother : plan.senders.kind ≠ .state := SymbolKind.noConfusion
  have hreceiver : .receiver ≠ plan.senders.kind := SymbolKind.noConfusion
  apply (h.rewires hrewires hother).exists_sender hsound hvalid hn
  intro e he
  apply (hrewires.assigns_iff hreceiver).mpr
  apply hassigned
  apply gives_receivers_of_sink hsound hn houtlet he

/-! ### All passes -/

/-- A draft in which everything is named and the portlets are connected. -/
structure IsWired (plan : Plan Patch) (d : Draft) : Prop where
  named : plan.Named d.names
  programs : ∀ id ∈ plan.patch.ids, id ∈ d.nodes.keys
  receiver : ∀ id q, plan.receivers.Gives plan.patch id q → d.names.Assigns id .receiver q

/-- The passes connect the portlets. -/
theorem Drafted.meets_connected (h : plan.Drafted [.state] d) (hsound : plan.Sound)
    (hnameable : plan.Nameable plan.order) :
  Meets (plan.connected d) plan.IsWired (fun _ => False)
  := by
  have hvalid : ∀ n ∈ plan.patch.nodes, isNamePart n.id :=
    fun n hn => hnameable.valid n.id (hsound.mem_order hn)
  have houtlets := fun kind n hn => hsound.coherent.nodup_outletsOf (n := n) hn kind
  have hinlets := fun kind n hn => hsound.coherent.nodup_inletsOf (n := n) hn kind
  apply (h.meets_pass hsound hnameable (by simp [signalOuts]) SymbolKind.noConfusion
    (houtlets .signal) fun n hn => h.named.finds_signalOuts hsound hn).bind
  rintro d₁ - ⟨hd₁, -, hsignals⟩
  apply (hd₁.meets_pass hsound hnameable (by simp [signalIns, signalOuts]) SymbolKind.noConfusion
    (hinlets .signal) fun n hn => finds_signalIns hsound hn hsignals).bind
  rintro d₂ - ⟨hd₂, -, -⟩
  have hreached : ∀ n ∈ plan.patch.nodes, ((plan.receivers.portlets n).map Portlet.id).Nodup := by
    intro n hn
    apply List.Nodup.sublist (List.filter_sublist.map _) (hinlets .message n hn)
  apply (hd₂.meets_pass hsound hnameable (by simp [receivers, signalIns, signalOuts])
    SymbolKind.noConfusion hreached fun n hn => hd₂.named.finds_receivers hsound hn).bind
  rintro d₃ - ⟨hd₃, -, hreceivers⟩
  apply (hd₃.meets_pass hsound hnameable (by simp [senders, receivers, signalIns, signalOuts])
    SymbolKind.noConfusion (houtlets .message)
    fun n hn => hd₃.named.finds_senders hsound (hvalid n hn) hn hreceivers).imp_good
  rintro d₄ ⟨hd₄, hrewires, -⟩
  constructor
  · apply hd₄.named
  · apply hd₄.programs
  · intro id q hgives
    apply (hrewires.assigns_iff SymbolKind.noConfusion).mpr (hreceivers id q hgives)

/-- Everything is named and connected, or there is an obstacle. -/
theorem meets_wired {p : Patch} {registry : Registry} {settings : Settings}
    (hfor : plan.IsFor p registry settings) (hsound : plan.Sound) :
  Meets plan.wired (fun r => r.1 = plan.listening ∧ plan.IsWired r.2 ∧ plan.AllNameable)
    (Obstacle p registry settings)
  := by
  apply (meets_named hfor hsound).bind
  rintro ⟨_, d⟩ - ⟨rfl, hdrafted, hnameable⟩
  apply (hdrafted.meets_connected hsound hnameable.nodes).of_total.bind
  intro d' _ hd'
  exact ⟨rfl, hd', hnameable⟩

/-- The callers of all hooked inlets are found. -/
theorem IsWired.exists_callers (h : plan.IsWired d) (hsound : plan.Sound)
    (hnameable : plan.Nameable plan.order) :
  ∃ callers, plan.callersOf d.names = .ok callers
  := by
  apply exists_mapM_eq_ok
  rintro ⟨id, q⟩ hpair
  obtain ⟨n, inlet, hn, hinlet, hkind⟩ := hsound.caller id q hpair
  obtain rfl := Patch.id_of_find? hn
  have hvalid := hnameable.valid n.id (hsound.mem_order (Patch.mem_nodes_of_find? hn))
  have hassigned := h.receiver n.id q (gives_receivers hsound hn hinlet hkind (.inr hpair))
  have hname := (h.named.hooked .inlet).hook_eq_ok hvalid hpair
  obtain ⟨receiver, hreceiver⟩ := exists_receiver (e := ⟨n.id, q⟩) hassigned
  have hfunctions := h.named.coldFunctions_eq [n.id]
  simp only [callerOf, hname, hreceiver, hfunctions]
  exact ⟨_, rfl⟩

end Plan

end AudioPatch
