import AudioPatch.Proofs.Compile.Messages
import AudioPatch.Proofs.Patch.Ends

/-!
# Where signals come from

The portlets that have symbols in a program are the signal portlets of the nodes and the message
inlets that can be reached. A signal inlet has the variable of the outlet that feeds it, or the
shared silent one, and the names say the same as the programs of the nodes.
-/

namespace AudioPatch

/-! ### What a program has for signals -/

/-- The variable of a signal outlet. -/
def Program.signalOutAt? (program : Program) (x : Endpoint) : Option String :=
  (program.nodes.find? x.node).bind fun own => own.signalOuts.find? x.portlet

/-- The variable that a signal inlet refers to. -/
def Program.signalInAt? (program : Program) (x : Endpoint) : Option String :=
  (program.nodes.find? x.node).bind fun own => own.signalIns.find? x.portlet

/-- The portlets with symbols in a program are those of its node that should have some. -/
structure NodeProgram.Fits (program : NodeProgram) (n : Node) (callers : Hooks) : Prop where
  signalOut : ∀ o, o ∈ program.signalOuts.keys ↔ o ∈ (n.outletsOf .signal).map Portlet.id
  signalIn : ∀ i, i ∈ program.signalIns.keys ↔ i ∈ (n.inletsOf .signal).map Portlet.id
  receiver : ∀ i, i ∈ program.receivers.keys ↔
    i ∈ (n.inletsOf .message).map Portlet.id ∧ (n.sourcesAt i ≠ [] ∨ callers.contains n.id i)

variable {p : Patch} {registry : Registry} {settings : Settings} {plan : Plan Patch} {d d' : Draft}
  {n : Node} {program : Program} {names names' : Names} {q : PortletId} {symbol : String}
  {kind : SymbolKind}

/-! ### What the passes for signals find -/

namespace Plan

theorem find_signalOuts_eq (h : names.Rewires kind names') (n : Node) (q : PortletId) :
  signalOuts.find names' n q = signalOuts.find names n q
  := by
  apply h.bind_node_eq n.id fun own => .ok (own.signalOutSymbol q)
  intro own s
  rw [NodeNames.signalOutSymbol, NodeNames.stem_withScope, NodeNames.signalOutSymbol]

theorem find_signalIns_eq (h : names.Rewires kind names') (hkind : kind ≠ .signalOut) (n : Node)
    (q : PortletId) :
  signalIns.find names' n q = signalIns.find names n q
  := by
  show signalAt names' n q = signalAt names n q
  rw [signalAt, signalAt]
  cases n.sourcesAt q with
  | nil =>
      have hglobals : names'.globals = names.globals := by rw [h.rest]
      simp only [hglobals]
  | cons source rest =>
      apply h.bind_node_eq source.node fun own =>
        liftM ((own.scope .signalOut).get (toString source.portlet))
      intro own s
      rw [NodeNames.scope_withScope_of_ne hkind.symm]

end Plan

/-! ### What stands in the names -/

/-- What a pass finds for portlets of the nodes stands in the names, and nothing else of its
kind. -/
structure Pass.Fills {σ : Type} (pass : Pass σ) (nodes : List Node) (names : Names) : Prop where
  assigns_iff : ∀ n ∈ nodes, ∀ q,
    names.Assigns n.id pass.kind q ↔ q ∈ (pass.portlets n).map Portlet.id
  found : ∀ n ∈ nodes, ∀ own q symbol, names.nodes.get? n.id = some own →
    (own.scope pass.kind).get? (toString q) = some symbol →
      ∃ found, pass.find names n q = .ok found ∧ pass.symbol found = symbol

namespace Pass

variable {σ : Type} {pass : Pass σ} {given : NodeId → List (PortletId × σ)}

/-- Symbols of other kinds leave what a pass has found. -/
theorem Fills.rewires {nodes : List Node} (h : pass.Fills nodes names)
    (hrewires : names.Rewires kind names') (hkind : pass.kind ≠ kind)
    (hfind : ∀ n q, pass.find names' n q = pass.find names n q) :
  pass.Fills nodes names'
  := by
  constructor
  · intro n hn q
    rw [hrewires.assigns_iff hkind, h.assigns_iff n hn]
  · intro n hn own' q symbol hown' hsymbol
    obtain ⟨s, hs⟩ := hrewires.nodes n.id
    rw [hown'] at hs
    obtain ⟨own, hown, rfl⟩ := Option.map_eq_some_iff.mp hs.symm
    rw [NodeNames.scope_withScope_of_ne hkind] at hsymbol
    rw [hfind]
    apply h.found n hn own q symbol hown hsymbol

/-- What stands in the names after a pass at a node. -/
theorem Given.get?_eq_some_iff (h : pass.Given given d d') (hid : isNamePart n.id)
    (hnodup : ((given n.id).map Prod.fst).Nodup)
    (hnew : ∀ q, ¬ d.names.Assigns n.id pass.kind q) {own : NodeNames}
    (hown : d'.names.nodes.get? n.id = some own) :
  (own.scope pass.kind).get? (toString q) = some symbol ↔
    ∃ found, (q, found) ∈ given n.id ∧ pass.symbol found = symbol
  := by
  rw [h.names n.id hid] at hown
  obtain ⟨old, hold, rfl⟩ := Option.map_eq_some_iff.mp hown
  constructor
  · intro hsymbol
    by_cases hq : q ∈ (given n.id).map Prod.fst
    · obtain ⟨⟨_, found⟩, hmem, rfl⟩ := List.mem_map.mp hq
      rw [get?_nameAll hnodup hmem] at hsymbol
      exact ⟨found, hmem, Option.some.inj hsymbol⟩
    · rw [get?_nameAll_of_not_mem hq] at hsymbol
      cases hnew q ⟨old, hold, Option.isSome_of_eq_some hsymbol⟩
  · rintro ⟨found, hmem, rfl⟩
    apply get?_nameAll hnodup hmem

end Pass

namespace Plan

/-- After a pass at all nodes the names have what it finds, if they had no symbols of its kind. -/
theorem Sound.fills {σ : Type} {pass : Pass σ} (hsound : plan.Sound)
    (hvalid : ∀ n ∈ plan.patch.nodes, isNamePart n.id) (hsteady : ∀ n, pass.Steady n)
    (hnodup : ∀ n ∈ plan.patch.nodes, ((pass.portlets n).map Portlet.id).Nodup)
    (hknown : ∀ n ∈ plan.patch.nodes, (d.names.nodes.get? n.id).isSome)
    (hnew : ∀ n ∈ plan.patch.nodes, ∀ q, ¬ d.names.Assigns n.id pass.kind q)
    (hrun : plan.forNodes d pass.run = .ok d') :
  d.names.Rewires pass.kind d'.names ∧ pass.Fills plan.patch.nodes d'.names
  := by
  obtain ⟨given, hgiven, hfinds⟩ := hsound.exists_given hvalid hsteady hrun
  have hiff : ∀ n ∈ plan.patch.nodes, ∀ own q symbol, d'.names.nodes.get? n.id = some own →
      ((own.scope pass.kind).get? (toString q) = some symbol ↔
        ∃ found, (q, found) ∈ given n.id ∧ pass.symbol found = symbol) := by
    intro n hn own q symbol hown
    apply hgiven.get?_eq_some_iff (hvalid n hn) _ (hnew n hn) hown
    rw [(hfinds n hn).map_fst]
    apply hnodup n hn
  refine ⟨hgiven.rewires, ?_⟩
  constructor
  case assigns_iff =>
    intro n hn q
    rw [← (hfinds n hn).map_fst]
    constructor
    · rintro ⟨own, hown, hsome⟩
      obtain ⟨symbol, hsymbol⟩ := Option.isSome_iff_exists.mp hsome
      obtain ⟨found, hmem, -⟩ := (hiff n hn own q symbol hown).mp hsymbol
      apply List.mem_map_of_mem hmem
    · intro hq
      obtain ⟨⟨_, found⟩, hmem, rfl⟩ := List.mem_map.mp hq
      obtain ⟨own, hown⟩ :=
        Option.isSome_iff_exists.mp (hgiven.rewires.isSome_iff.mpr (hknown n hn))
      have hsymbol := (hiff n hn own _ _ hown).mpr ⟨found, hmem, rfl⟩
      exact ⟨own, hown, Option.isSome_of_eq_some hsymbol⟩
  case found =>
    intro n hn own q symbol hown hsymbol
    obtain ⟨found, hmem, hfound⟩ := (hiff n hn own q symbol hown).mp hsymbol
    obtain ⟨portlet, -, hq, hfind⟩ := exists_of_mem_forall₂ (hfinds n hn).flip hmem
    refine ⟨found, ?_, hfound⟩
    rw [hsteady n d.names d'.names hgiven.rewires, show q = portlet.id from hq]
    apply hfind

/-- The names have what the passes for signals and for receivers find. -/
structure HasSignals (plan : Plan Patch) (names : Names) : Prop where
  signalOuts : signalOuts.Fills plan.patch.nodes names
  signalIns : signalIns.Fills plan.patch.nodes names
  receivers : plan.receivers.Fills plan.patch.nodes names

theorem Drafted.hasSignals (h : plan.Drafted [.state] d) (hsound : plan.Sound)
    (hnameable : plan.Nameable plan.order) (hrun : plan.connected d = .ok d') :
  plan.HasSignals d'.names
  := by
  have hvalid : ∀ n ∈ plan.patch.nodes, isNamePart n.id :=
    fun n hn => hnameable.valid n.id (hsound.mem_order hn)
  have hknown : ∀ n ∈ plan.patch.nodes, (d.names.nodes.get? n.id).isSome := by
    intro n hn
    obtain ⟨own, hown⟩ := h.named.exists_own hsound hn
    apply Option.isSome_of_eq_some hown
  have hreached : ∀ n ∈ plan.patch.nodes, ((plan.receivers.portlets n).map Portlet.id).Nodup := by
    intro n hn
    apply (hsound.coherent.nodup_inletsOf hn .message).sublist (List.filter_sublist.map _)
  obtain ⟨d₁, hsignalOuts, hrun⟩ := bind_eq_ok_iff.mp hrun
  obtain ⟨d₂, hsignalIns, hrun⟩ := bind_eq_ok_iff.mp hrun
  obtain ⟨d₃, hreceivers, hsenders⟩ := bind_eq_ok_iff.mp hrun
  obtain ⟨hrewires₁, hfills₁⟩ := hsound.fills hvalid
    (fun n names names' hnames q => find_signalOuts_eq hnames n q)
    (fun n hn => hsound.coherent.nodup_outletsOf hn .signal) hknown
    (fun n hn => h.unassigned n hn .signalOut (by decide)) hsignalOuts
  obtain ⟨hrewires₂, hfills₂⟩ := hsound.fills hvalid
    (fun n names names' hnames q => find_signalIns_eq hnames (by decide) n q)
    (fun n hn => hsound.coherent.nodup_inletsOf hn .signal)
    (fun n hn => hrewires₁.isSome_iff.mpr (hknown n hn))
    (fun n hn q hq =>
      h.unassigned n hn .signalIn (by decide) q ((hrewires₁.assigns_iff (by decide)).mp hq))
    hsignalIns
  obtain ⟨hrewires₃, hfills₃⟩ := hsound.fills hvalid plan.steady_receivers hreached
    (fun n hn => hrewires₂.isSome_iff.mpr (hrewires₁.isSome_iff.mpr (hknown n hn)))
    (fun n hn q hq => h.unassigned n hn .receiver (by decide) q
      ((hrewires₁.assigns_iff SymbolKind.noConfusion).mp
        ((hrewires₂.assigns_iff SymbolKind.noConfusion).mp hq)))
    hreceivers
  obtain ⟨sent, hsent, -⟩ := hsound.exists_given hvalid plan.steady_senders hsenders
  -- Every pass leaves what the ones before it have found.
  constructor
  case signalOuts =>
    have hfills := hfills₁.rewires hrewires₂ (by decide) (find_signalOuts_eq hrewires₂)
    replace hfills := hfills.rewires hrewires₃ SymbolKind.noConfusion (find_signalOuts_eq hrewires₃)
    apply hfills.rewires hsent.rewires SymbolKind.noConfusion (find_signalOuts_eq hsent.rewires)
  case signalIns =>
    have hfills := hfills₂.rewires hrewires₃ SymbolKind.noConfusion
      (find_signalIns_eq hrewires₃ SymbolKind.noConfusion)
    apply hfills.rewires hsent.rewires SymbolKind.noConfusion
      (find_signalIns_eq hsent.rewires SymbolKind.noConfusion)
  case receivers =>
    apply hfills₃.rewires hsent.rewires SymbolKind.noConfusion (find_receivers_eq hsent.rewires)

end Plan

/-! ### What a program has -/

namespace Compiled

variable (h : Compiled p registry settings plan d d' program names)

include h in
theorem hasSignals :
  plan.HasSignals names
  := by
  obtain ⟨⟨listeners, d₀⟩, hnamed, hwired⟩ := bind_eq_ok_iff.mp h.wired
  obtain ⟨d₁, hconnected, ⟨⟩⟩ := bind_eq_ok_iff.mp hwired
  obtain ⟨-, hdrafted, hnameable⟩ := (Plan.meets_named h.isFor h.sound).of_eq_ok hnamed
  have hsignals := hdrafted.hasSignals h.sound hnameable.nodes hconnected
  rw [← h.names_eq] at hsignals
  rw [h.sameButGlobal]
  constructor
  case signalOuts => exact ⟨hsignals.signalOuts.assigns_iff, hsignals.signalOuts.found⟩
  case signalIns => exact ⟨hsignals.signalIns.assigns_iff, hsignals.signalIns.found⟩
  case receivers => exact ⟨hsignals.receivers.assigns_iff, hsignals.receivers.found⟩

include h in
/-- A node of the plan has a program that is in step with its names. -/
theorem exists_inStep (hn : n ∈ plan.patch.nodes) :
  ∃ own node, program.nodes.find? n.id = some own ∧ names.nodes.get? n.id = some node ∧
    own.InStep node
  := by
  have hinStep := h.toComesTo.inStep
  have hid : n.id ∈ program.order := by
    rw [h.order_eq]
    apply h.sound.mem_order hn
  obtain ⟨own, hown⟩ :=
    Option.isSome_iff_exists.mp (Table.isSome_find?_iff.mpr ((hinStep.mem_keys_iff n.id).mpr hid))
  obtain ⟨node, hnode⟩ := Option.isSome_iff_exists.mp
    (Table.isSome_find?_iff.mpr ((hinStep.stemmed.mem_keys_iff n.id).mpr hid))
  exact ⟨own, node, hown, (hinStep.get?_eq hid).trans hnode,
    hinStep.program n.id node own hnode hown⟩

end Compiled

/-- The portlets with symbols of a kind in a program are those that the pass is for. -/
theorem Pass.Fills.mem_keys_iff {σ : Type} {pass : Pass σ} {nodes : List Node}
    (h : pass.Fills nodes names) (hkind : pass.kind ≠ .state) (hn : n ∈ nodes)
    {own : NodeProgram} {node : NodeNames} (hnode : names.nodes.get? n.id = some node)
    (hown : own.InStep node) :
  q ∈ (own.symbolsOf pass.kind).keys ↔ q ∈ (pass.portlets n).map Portlet.id
  := by
  rw [← h.assigns_iff n hn, ← Table.isSome_find?_iff, (hown.lists pass.kind hkind).find?_eq,
    Names.Assigns, hnode]
  simp

namespace Compiled

variable (h : Compiled p registry settings plan d d' program names)

include h in
theorem fits (hn : n ∈ plan.patch.nodes) {own : NodeProgram} {node : NodeNames}
    (hnode : names.nodes.get? n.id = some node) (hown : own.InStep node) :
  own.Fits n settings.allCallers
  := by
  have hsignals := h.hasSignals
  constructor
  case signalOut =>
    intro o
    apply hsignals.signalOuts.mem_keys_iff SymbolKind.noConfusion hn hnode hown
  case signalIn =>
    intro i
    apply hsignals.signalIns.mem_keys_iff SymbolKind.noConfusion hn hnode hown
  case receiver =>
    intro i
    have hkeys : (own.symbolsOf plan.receivers.kind).keys = own.receivers.keys :=
      Table.keys_map _ _
    rw [← hkeys, hsignals.receivers.mem_keys_iff SymbolKind.noConfusion hn hnode hown,
      ← h.isFor.callers_eq]
    simp only [Plan.receivers, List.mem_map, List.mem_filter, Plan.isReached, Bool.or_eq_true,
      decide_eq_true_iff]
    constructor
    · rintro ⟨inlet, ⟨hinlet, hreached⟩, rfl⟩
      exact ⟨⟨inlet, hinlet, rfl⟩, hreached⟩
    · rintro ⟨⟨inlet, hinlet, rfl⟩, hreached⟩
      exact ⟨inlet, ⟨hinlet, hreached⟩, rfl⟩

include h in
/-- A signal inlet refers to what is found for it. -/
theorem exists_signalAt (hn : n ∈ plan.patch.nodes) (hq : q ∈ (n.inletsOf .signal).map Portlet.id) :
  ∃ symbol, Plan.signalAt names n q = .ok symbol ∧ program.signalInAt? ⟨n.id, q⟩ = some symbol
  := by
  obtain ⟨own, node, hown, hnode, hinStep⟩ := h.exists_inStep hn
  obtain ⟨node', hnode', hsome⟩ := (h.hasSignals.signalIns.assigns_iff n hn q).mpr hq
  obtain rfl := Option.some.inj (hnode.symm.trans hnode')
  obtain ⟨symbol, hsymbol⟩ := Option.isSome_iff_exists.mp hsome
  obtain ⟨found, hfound, hsame⟩ := h.hasSignals.signalIns.found n hn node q symbol hnode hsymbol
  refine ⟨symbol, hsame ▸ hfound, ?_⟩
  rw [Program.signalInAt?, hown, Option.bind_some, ← hsymbol]
  apply (hinStep.lists .signalIn SymbolKind.noConfusion).find?_eq

include h in
/-- A signal outlet has its variable in the program as in the names. -/
theorem signalOutAt?_eq (hn : n ∈ plan.patch.nodes) {node : NodeNames}
    (hnode : names.nodes.get? n.id = some node) :
  program.signalOutAt? ⟨n.id, q⟩ = node.signalOuts.get? (toString q)
  := by
  obtain ⟨own, node', hown, hnode', hinStep⟩ := h.exists_inStep hn
  obtain rfl := Option.some.inj (hnode.symm.trans hnode')
  rw [Program.signalOutAt?, hown, Option.bind_some]
  apply (hinStep.lists .signalOut SymbolKind.noConfusion).find?_eq

include h in
/-- A signal that goes along a connection has one variable at both ends. -/
theorem exists_signal {e : Edge} (he : e ∈ plan.patch.edges)
    (hkind : plan.patch.kindAt? .outlet e.source = some .signal) :
  ∃ symbol, program.signalOutAt? e.source = some symbol ∧
    program.signalInAt? e.sink = some symbol
  := by
  have hcoherent := h.sound.coherent
  obtain ⟨⟨id, o⟩, ⟨id', i⟩⟩ := e
  obtain ⟨n, hn, hmem⟩ := Patch.mem_edges_iff.mp he
  obtain rfl := Patch.id_of_find? hn
  obtain ⟨outlet, m, inlet, houtlet, hm, hinlet, hkinds, hsource⟩ :=
    hcoherent.sink_inlet (Patch.mem_nodes_of_find? hn) hmem
  obtain rfl := Patch.id_of_find? hm
  have hmnodes := Patch.mem_nodes_of_find? hm
  have hsignal : inlet.kind = .signal := by
    rw [Patch.kindAt?_of_find? hn, Node.kindAt?, houtlet] at hkind
    rw [hkinds]
    apply Option.some.inj hkind
  have honly : m.sourcesAt i = [⟨n.id, o⟩] := by
    have hlength := hcoherent.signal_source m hmnodes i inlet hinlet hsignal
    obtain ⟨first, rest, hsources⟩ := List.exists_cons_of_ne_nil (List.ne_nil_of_mem hsource)
    rw [hsources] at hlength hsource
    obtain rfl : rest = [] := by simpa using hlength
    rw [hsources, List.mem_singleton.mp hsource]
  have hq := hcoherent.mem_inletsOf_ids hmnodes hinlet
  rw [hsignal] at hq
  obtain ⟨symbol, hfound, hin⟩ := h.exists_signalAt hmnodes hq
  rw [Plan.signalAt, honly] at hfound
  obtain ⟨node, hnode, hsymbol⟩ := bind_eq_ok_iff.mp hfound
  rw [liftSymbol_eq_ok_iff, Names.node_eq_ok_iff] at hnode
  rw [liftSymbol_eq_ok_iff, Scope.get_eq_ok_iff] at hsymbol
  refine ⟨symbol, ?_, hin⟩
  rw [h.signalOutAt?_eq (Patch.mem_nodes_of_find? hn) hnode, hsymbol]

include h in
/-- A signal inlet that nothing is connected to refers to the silent signal. -/
theorem signalInAt?_of_not_mem {x : Endpoint}
    (hkind : plan.patch.kindAt? .inlet x = some .signal)
    (hnone : ∀ e ∈ plan.patch.edges, e.sink ≠ x) :
  program.signalInAt? x = some names.globals.nullSignal
  := by
  have hcoherent := h.sound.coherent
  obtain ⟨id, i⟩ := x
  obtain ⟨m, hm⟩ := Patch.mem_ids_iff.mp (Patch.mem_ids_of_kindAt? hkind)
  obtain rfl := Patch.id_of_find? hm
  have hmnodes := Patch.mem_nodes_of_find? hm
  rw [Patch.kindAt?_of_find? hm, Node.kindAt?] at hkind
  obtain ⟨inlet, hinlet, hsignal⟩ := Option.map_eq_some_iff.mp hkind
  have hempty : m.sourcesAt i = [] := by
    apply List.eq_nil_iff_forall_not_mem.mpr
    intro source hsource
    obtain ⟨n, hn, hsink⟩ := hcoherent.source m hmnodes i source hsource
    apply hnone ⟨source, ⟨m.id, i⟩⟩ (Patch.mem_edges_iff.mpr ⟨n, hn, hsink⟩) rfl
  have hq := hcoherent.mem_inletsOf_ids hmnodes hinlet
  rw [hsignal] at hq
  obtain ⟨symbol, hfound, hin⟩ := h.exists_signalAt hmnodes hq
  rw [Plan.signalAt, hempty] at hfound
  rw [hin, ← Except.ok.inj hfound]

end Compiled

/-- The portlets of the nodes have the symbols that they should have, signals have the variables of
their sources, and the names agree with the programs of the nodes. -/
theorem Patch.signals_of_compile (hp : p.validate = .ok ())
    (h : p.compile registry settings = .ok (program, names)) :
  p.participants settings.allCallers.keys = .ok program.order ∧
  program.nodes.keys.Perm program.order ∧
  (∀ id own, program.nodes.find? id = some own → ∃ n node,
    (p.trim program.order).find? id = some n ∧ own.Fits n settings.allCallers ∧
    names.nodes.get? id = some node ∧
    ∀ kind, kind ≠ .state → (node.scope kind).Lists (own.symbolsOf kind)) ∧
  (∀ e ∈ (p.trim program.order).edges,
    (p.trim program.order).kindAt? .outlet e.source = some .signal →
      ∃ symbol, program.signalOutAt? e.source = some symbol ∧
        program.signalInAt? e.sink = some symbol) ∧
  ∀ x, (p.trim program.order).kindAt? .inlet x = some .signal →
    (∀ e ∈ (p.trim program.order).edges, e.sink ≠ x) →
      program.signalInAt? x = some names.globals.nullSignal
  := by
  obtain ⟨plan, d, d', h⟩ := Patch.exists_compiled hp h
  have hinStep := h.toComesTo.inStep
  have hpatch : p.trim program.order = plan.patch := by rw [h.order_eq, h.isFor.patch_eq]
  rw [hpatch]
  refine ⟨?_, ?_, ?_, fun e => h.exists_signal, fun x => h.signalInAt?_of_not_mem⟩
  · rw [h.order_eq]
    apply h.isFor.participants
  · apply (List.perm_ext_iff_of_nodup program.nodes.nodup_keys _).mpr hinStep.mem_keys_iff
    rw [h.order_eq]
    apply h.sound.nodup
  · intro id own hown
    have hid : id ∈ plan.order := by
      rw [← h.order_eq, ← hinStep.mem_keys_iff]
      apply Table.isSome_find?_iff.mp (Option.isSome_of_eq_some hown)
    obtain ⟨n, hn⟩ := Patch.mem_ids_iff.mp ((h.sound.mem_order_iff id).mp hid)
    obtain rfl := Patch.id_of_find? hn
    obtain ⟨own', node, hown', hnode, hnodeStep⟩ := h.exists_inStep (Patch.mem_nodes_of_find? hn)
    obtain rfl := Option.some.inj (hown.symm.trans hown')
    exact ⟨n, node, hn, h.fits (Patch.mem_nodes_of_find? hn) hnode hnodeStep, hnode,
      hnodeStep.lists⟩

/-- The lamp is lit by the level. -/
theorem Patch.signals_of_compile_dimmer :
  Dimmer.patch.validate = .ok () ∧ ∃ program names,
    Dimmer.patch.compile Dimmer.registry Dimmer.settings = .ok (program, names) ∧
    program.nodes.keys.Perm ["knob", "level", "lamp"] ∧
    ∃ symbol, program.signalOutAt? ⟨"level", 0⟩ = some symbol ∧
      program.signalInAt? ⟨"lamp", 0⟩ = some symbol
  := by
  obtain ⟨program, names, hcompile, -⟩ := Dimmer.exists_compile
  obtain ⟨horder, hkeys, -, hsignal, -⟩ := Patch.signals_of_compile Dimmer.valid hcompile
  have horder : ["knob", "level", "lamp"] = program.order :=
    Except.ok.inj (Dimmer.participants_eq.symm.trans horder)
  rw [← horder] at hkeys hsignal
  refine ⟨Dimmer.valid, program, names, hcompile, hkeys, ?_⟩
  apply hsignal ⟨⟨"level", 0⟩, ⟨"lamp", 0⟩⟩
  · decide
  · decide

end AudioPatch
