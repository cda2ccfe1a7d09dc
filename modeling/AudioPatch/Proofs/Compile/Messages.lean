import AudioPatch.Proofs.Code.Tokens
import AudioPatch.Proofs.Compile.Drafts
import AudioPatch.Proofs.Compile.Given

/-!
# Where messages go

A message outlet sends to the receivers of the inlets that it feeds, in the order of its
connections, then to its listener, then to the functions of the cold groups that it reaches, each
once. A caller sends to the receiver of its inlet, then to the function of the cold group of its
node.
-/

namespace AudioPatch

/-! ### What a program has for messages -/

namespace Program

/-- The sender of an outlet. -/
def senderAt? (program : Program) (x : Endpoint) : Option Sender :=
  (program.nodes.find? x.node).bind fun own => own.senders.find? x.portlet

/-- The name of the receiver of an inlet. -/
def receiverAt? (program : Program) (x : Endpoint) : Option String :=
  (program.nodes.find? x.node).bind fun own => (own.receivers.find? x.portlet).map Receiver.name

/-- The names of the listeners of an outlet. -/
def listenersAt (program : Program) (x : Endpoint) : List String :=
  (program.listeners.filter fun l => l.outlet = x).map Listener.name

/-- The names of the functions of the cold groups with some of the nodes, in their order. -/
def coldNames (program : Program) (ids : List NodeId) : List String :=
  (program.cold.filter fun f => ids.any f.group.nodes.contains).map ColdFunction.name

/-- A node is in a cold group. -/
def InColdGroup (program : Program) (id : NodeId) : Prop :=
  ∃ f ∈ program.cold, id ∈ f.group.nodes

theorem coldNames_eq_nil_iff {program : Program} {ids : List NodeId} :
  program.coldNames ids = [] ↔ ∀ id ∈ ids, ¬ program.InColdGroup id
  := by
  simp only [coldNames, List.map_eq_nil_iff, List.filter_eq_nil_iff, List.any_eq_true,
    List.contains_iff_mem, InColdGroup]
  constructor
  · rintro h id hid ⟨f, hf, hmem⟩
    exact h f hf ⟨id, hid, hmem⟩
  · rintro h f hf ⟨id, hid, hmem⟩
    exact h id hid ⟨f, hf, hmem⟩

end Program

/-! ### What a function that forwards does -/

/-- A function takes a message and calls other functions with it, one after the other. Its body is
these calls and nothing else. -/
structure Function.Forwards (f : Function) (argument : String) (targets : List String) : Prop where
  args_eq : f.args = [⟨argument, .message⟩]
  returns_eq : f.returns = .void
  tokens_eq : f.body.tokens = targets.flatMap fun t => s!"{t}({argument})\n".toList.map .char
  print_eq : f.body.print = String.join (targets.map fun t => s!"{t}({argument})\n")

theorem forwards_forwarding (name : String) (targets : List String) (argument : String) :
  (forwarding name targets argument).Forwards argument targets
  := by
  constructor
  case args_eq => rfl
  case returns_eq => rfl
  case tokens_eq =>
    show (Code.concat _).tokens = _
    rw [Code.tokens_concat, List.flatMap_map]
    simp only [Code.tokens_ofText]
  case print_eq =>
    show (Code.concat _).print = _
    rw [Code.print_concat, List.map_map]
    simp only [Function.comp_def, Code.print_ofText]

/-- A sender has a function of its own if it is synthesized, which calls its targets. -/
theorem Sender.function?_cases (s : Sender) (g : Globals) :
  (s.kind = .synthesized → ∃ f, s.function? g = some f ∧ f.name = s.name ∧
      f.Forwards g.message s.targets) ∧
    (s.kind ≠ .synthesized → s.function? g = none)
  := by
  constructor
  · intro hkind
    refine ⟨_, if_pos hkind, rfl, forwards_forwarding ..⟩
  · intro hkind
    apply if_neg hkind

variable {p : Patch} {registry : Registry} {settings : Settings} {plan : Plan Patch} {d d' : Draft}
  {n : Node} {program : Program} {names names' : Names} {o : PortletId} {sender : Sender}
  {kind : SymbolKind}

namespace Plan

/-! ### What the passes for messages find -/

theorem find_receivers_eq (h : names.Rewires kind names') (n : Node) (q : PortletId) :
  plan.receivers.find names' n q = plan.receivers.find names n q
  := by
  apply h.bind_node_eq n.id fun own => .ok (own.receiverSymbol q)
  intro own s
  rw [NodeNames.receiverSymbol, NodeNames.stem_withScope, NodeNames.receiverSymbol]

theorem steady_receivers (plan : Plan Patch) (n : Node) :
  plan.receivers.Steady n
  := fun _ _ h q => find_receivers_eq h n q

theorem receiverAt_eq (h : names.Rewires .sender names') (e : Endpoint) :
  receiverAt names' e = receiverAt names e
  := by
  apply h.bind_node_eq e.node fun own => liftM ((own.scope .receiver).get (toString e.portlet))
  intro own s
  rw [NodeNames.scope_withScope_of_ne (by decide)]

theorem targetsOf_eq (h : names.Rewires .sender names') (o : PortletId) :
  plan.targetsOf names' n o = plan.targetsOf names n o
  := by
  have hreceivers : receiverAt names' = receiverAt names := funext fun e => receiverAt_eq h e
  have hhook : names'.hook .outlet n.id o = names.hook .outlet n.id o := by
    rw [Names.hook, Names.hook, h.hooks_eq]
  rw [targetsOf, targetsOf, hreceivers, hhook, coldFunctions, coldFunctions, h.coldGroups_eq]

theorem steady_senders (plan : Plan Patch) (n : Node) :
  plan.senders.Steady n
  := by
  intro names names' h o
  obtain ⟨s, hs⟩ := h.node_eq n.id
  have hglobals : names'.globals = names.globals := by rw [h.rest]
  show plan.senderOf names' n o = plan.senderOf names n o
  rw [senderOf, senderOf, targetsOf_eq h, hglobals, hs]
  cases plan.targetsOf names n o with
  | error e => rfl
  | ok targets =>
      cases names.node n.id with
      | error e => rfl
      | ok own => rfl

/-- A draft in which every message inlet that can be reached has its receiver, and every message
outlet its sender. -/
structure HasMessages (plan : Plan Patch) (d : Draft) : Prop where
  receiver : ∀ n ∈ plan.patch.nodes, ∀ inlet ∈ plan.receivers.portlets n, ∃ name own,
    receiverAt d.names ⟨n.id, inlet.id⟩ = .ok name ∧ d.nodes.find? n.id = some own ∧
      (own.receivers.find? inlet.id).map Receiver.name = some name
  sender : ∀ n ∈ plan.patch.nodes, ∀ outlet ∈ n.outletsOf .message, ∃ sender own,
    plan.senderOf d.names n outlet.id = .ok sender ∧ d.nodes.find? n.id = some own ∧
      own.senders.find? outlet.id = some sender

/-- The passes give every message portlet what is found for it. -/
theorem IsWired.hasMessages (h : plan.IsWired d) (hsound : plan.Sound)
    (hnameable : plan.Nameable plan.order) {listeners : List Listener}
    (hwired : plan.wired = .ok (listeners, d)) :
  plan.HasMessages d
  := by
  have hvalid : ∀ n ∈ plan.patch.nodes, isNamePart n.id :=
    fun n hn => hnameable.valid n.id (hsound.mem_order hn)
  obtain ⟨⟨_, d₀⟩, -, hwired⟩ := bind_eq_ok_iff.mp hwired
  obtain ⟨d₄, hconnected, ⟨⟩⟩ := bind_eq_ok_iff.mp hwired
  obtain ⟨d₁, -, hconnected⟩ := bind_eq_ok_iff.mp hconnected
  obtain ⟨d₂, -, hconnected⟩ := bind_eq_ok_iff.mp hconnected
  obtain ⟨d₃, hreceivers, hsenders⟩ := bind_eq_ok_iff.mp hconnected
  obtain ⟨received, hreceived, hreceivable⟩ :=
    hsound.exists_given hvalid plan.steady_receivers hreceivers
  obtain ⟨sent, hsent, hsendable⟩ := hsound.exists_given hvalid plan.steady_senders hsenders
  -- What a node has at the end it has from the start of each pass.
  have hknown : ∀ n ∈ plan.patch.nodes, ∃ own₂ own₃ program₂ program₃,
      d₂.names.nodes.get? n.id = some own₂ ∧ d₃.names.nodes.get? n.id = some own₃ ∧
      d₂.nodes.find? n.id = some program₂ ∧ d₃.nodes.find? n.id = some program₃ := by
    intro n hn
    obtain ⟨own, hown⟩ := h.named.exists_own hsound hn
    have hkey := h.programs n.id (Patch.mem_ids_iff.mpr ⟨n, Patch.find?_of_mem hn⟩)
    obtain ⟨program, hprogram⟩ := Option.isSome_iff_exists.mp (Table.isSome_find?_iff.mpr hkey)
    rw [hsent.names n.id (hvalid n hn), Option.map_eq_some_iff] at hown
    obtain ⟨own₃, hown₃, -⟩ := hown
    rw [hsent.programs, Option.map_eq_some_iff] at hprogram
    obtain ⟨program₃, hprogram₃, -⟩ := hprogram
    have hown₂ := hown₃
    rw [hreceived.names n.id (hvalid n hn), Option.map_eq_some_iff] at hown₂
    obtain ⟨own₂, hown₂, -⟩ := hown₂
    have hprogram₂ := hprogram₃
    rw [hreceived.programs, Option.map_eq_some_iff] at hprogram₂
    obtain ⟨program₂, hprogram₂, -⟩ := hprogram₂
    exact ⟨own₂, own₃, program₂, program₃, hown₂, hown₃, hprogram₂, hprogram₃⟩
  constructor
  case receiver =>
    intro n hn inlet hinlet
    obtain ⟨own₂, -, program₂, -, hown₂, -, hprogram₂, -⟩ := hknown n hn
    have hnodup : ((plan.receivers.portlets n).map Portlet.id).Nodup :=
      List.Nodup.sublist (List.filter_sublist.map _) (hsound.coherent.nodup_inletsOf hn .message)
    obtain ⟨name, own₃, program₃, -, hown₃, hname, hprogram₃, hread⟩ := hreceived.exists_found
      (fun program q => (program.receivers.find? q).map Receiver.name) (fun name => name)
      (by
        intro program q name q'
        show ((program.receivers.insert q { name := name }).find? q').map Receiver.name = _
        rw [Table.find?_insert, apply_ite (Option.map Receiver.name), Option.map_some])
      (hvalid n hn) (hreceivable n hn) hnodup hown₂ hprogram₂ hinlet
    refine ⟨name, plan.senders.putAll (sent n.id) program₃, ?_, ?_, ?_⟩
    · rw [receiverAt_eq hsent.rewires, receiverAt, Names.node_eq_ok_iff.mpr hown₃]
      apply liftSymbol_eq_ok_iff.mpr
      apply Scope.get_eq_ok_iff.mpr hname
    · rw [hsent.programs, hprogram₃]
      rfl
    · rw [Pass.view_putAll NodeProgram.receivers fun _ _ _ => rfl]
      apply hread
  case sender =>
    intro n hn outlet houtlet
    obtain ⟨-, own₃, -, program₃, -, hown₃, -, hprogram₃⟩ := hknown n hn
    obtain ⟨sender, -, program, hfound, -, -, hprogram, hread⟩ := hsent.exists_found
      (fun program q => program.senders.find? q) (fun sender => sender)
      (fun _ _ _ _ => Table.find?_insert)
      (hvalid n hn) (hsendable n hn) (hsound.coherent.nodup_outletsOf hn .message) hown₃ hprogram₃
      houtlet
    refine ⟨sender, program, ?_, hprogram, hread⟩
    rw [← hfound]
    apply plan.steady_senders n d₃.names _ hsent.rewires

end Plan

/-- How the messages of an outlet are sent, by what it is connected to. -/
theorem sender_kind_iff {program : Program} {sender : Sender} {sinks : List Endpoint}
    {receivers listener : List String} {symbol null : String} {listened : Prop}
    (hreceivers : receivers.length = sinks.length)
    (hlistener : ¬ listened → listener = [])
    (htargets :
      sender.targets = receivers ++ listener ++ program.coldNames (sinks.map Endpoint.node))
    (hcases : (listened ∨ 2 ≤ sender.targets.length) ∧
        sender.kind = .synthesized ∧ sender.name = symbol ∨
      ¬ listened ∧ sender.targets = [sender.name] ∧ sender.kind = .direct ∨
      ¬ listened ∧ sender.targets = [] ∧ sender.kind = .null ∧ sender.name = null) :
  (sender.kind = .synthesized ∧ sender.name = symbol ↔
    listened ∨ 2 ≤ sinks.length ∨ ∃ e, sinks = [e] ∧ program.InColdGroup e.node) ∧
  (sender.kind = .direct ∧ receivers = [sender.name] ↔
    ¬ listened ∧ ∃ e, sinks = [e] ∧ ¬ program.InColdGroup e.node) ∧
  (sender.kind = .null ∧ sender.name = null ↔ ¬ listened ∧ sinks = [])
  := by
  have hlength : sender.targets.length = sinks.length + listener.length +
      (program.coldNames (sinks.map Endpoint.node)).length := by
    rw [htargets, List.length_append, List.length_append, hreceivers]
  have hcold : ∀ e, sinks = [e] →
      (program.coldNames (sinks.map Endpoint.node) = [] ↔ ¬ program.InColdGroup e.node) := by
    rintro e rfl
    rw [Program.coldNames_eq_nil_iff]
    simp
  -- Each of the three conditions leaves one of the three kinds, and one of them holds.
  have hsynthesized :
      (listened ∨ 2 ≤ sinks.length ∨ ∃ e, sinks = [e] ∧ program.InColdGroup e.node) →
        sender.kind = .synthesized ∧ sender.name = symbol := by
    intro hcondition
    rcases hcases with ⟨-, hkind⟩ | ⟨hnot, hone, -⟩ | ⟨hnot, hnone, -⟩
    · apply hkind
    · rw [hone, List.length_singleton] at hlength
      rcases hcondition with hlistened | htwo | ⟨e, he, hin⟩
      · cases hnot hlistened
      · omega
      · have hsingle : sinks.length = 1 := by rw [he, List.length_singleton]
        have hnil : program.coldNames (sinks.map Endpoint.node) = [] := by
          apply List.eq_nil_of_length_eq_zero
          omega
        cases (hcold e he).mp hnil hin
    · rw [hnone, List.length_nil] at hlength
      rcases hcondition with hlistened | htwo | ⟨e, he, hin⟩
      · cases hnot hlistened
      · omega
      · have hsingle : sinks.length = 1 := by rw [he, List.length_singleton]
        omega
  have hdirect : (¬ listened ∧ ∃ e, sinks = [e] ∧ ¬ program.InColdGroup e.node) →
      sender.kind = .direct ∧ receivers = [sender.name] := by
    rintro ⟨hnot, e, he, hout⟩
    rw [hlistener hnot, (hcold e he).mpr hout, List.append_nil, List.append_nil] at htargets
    rw [← htargets, he] at hreceivers
    rcases hcases with ⟨hlistened | htwo, -⟩ | ⟨-, hone, hkind⟩ | ⟨-, hnone, -⟩
    · cases hnot hlistened
    · simp [hreceivers] at htwo
    · exact ⟨hkind, htargets ▸ hone⟩
    · simp [hnone] at hreceivers
  have hnull : (¬ listened ∧ sinks = []) → sender.kind = .null ∧ sender.name = null := by
    rintro ⟨hnot, hsinks⟩
    have hnone : sender.targets = [] := by
      have hcold' : program.coldNames (sinks.map Endpoint.node) = [] := by
        rw [Program.coldNames_eq_nil_iff]
        simp [hsinks]
      rw [hsinks] at hreceivers
      rw [htargets, hlistener hnot, hcold', List.eq_nil_of_length_eq_zero hreceivers]
      rfl
    rcases hcases with ⟨hlistened | htwo, -⟩ | ⟨-, hone, -⟩ | ⟨-, -, hkind⟩
    · cases hnot hlistened
    · simp [hnone] at htwo
    · simp [hnone] at hone
    · apply hkind
  have hexhaustive : (listened ∨ 2 ≤ sinks.length ∨ ∃ e, sinks = [e] ∧ program.InColdGroup e.node) ∨
      (¬ listened ∧ ∃ e, sinks = [e] ∧ ¬ program.InColdGroup e.node) ∨ ¬ listened ∧ sinks = [] := by
    by_cases hlistened : listened
    · exact .inl (.inl hlistened)
    · match sinks with
      | [] => exact .inr (.inr ⟨hlistened, rfl⟩)
      | [e] =>
          by_cases hin : program.InColdGroup e.node
          · exact .inl (.inr (.inr ⟨e, rfl, hin⟩))
          · exact .inr (.inl ⟨hlistened, e, rfl, hin⟩)
      | _ :: _ :: _ => exact .inl (.inr (.inl (by simp)))
  refine ⟨⟨?_, hsynthesized⟩, ⟨?_, hdirect⟩, ⟨?_, hnull⟩⟩
  · rintro ⟨hkind, -⟩
    rcases hexhaustive with hA | hB | hC
    · apply hA
    · cases hkind.symm.trans (hdirect hB).1
    · cases hkind.symm.trans (hnull hC).1
  · rintro ⟨hkind, -⟩
    rcases hexhaustive with hA | hB | hC
    · cases hkind.symm.trans (hsynthesized hA).1
    · apply hB
    · cases hkind.symm.trans (hnull hC).1
  · rintro ⟨hkind, -⟩
    rcases hexhaustive with hA | hB | hC
    · cases hkind.symm.trans (hsynthesized hA).1
    · cases hkind.symm.trans (hdirect hB).1
    · apply hC

/-! ### Callers -/

theorem Plan.inlet_of_callerOf {id : NodeId} {q : PortletId} {c : Caller}
    (h : plan.callerOf names id q = .ok c) :
  c.inlet = ⟨id, q⟩
  := by
  obtain ⟨name, -, h⟩ := bind_eq_ok_iff.mp h
  obtain ⟨receiver, -, h⟩ := bind_eq_ok_iff.mp h
  obtain ⟨functions, -, ⟨⟩⟩ := bind_eq_ok_iff.mp h
  rfl

/-! ### What a program has -/

namespace Compiled

variable (h : Compiled p registry settings plan d d' program names)

include h in
theorem names_eq :
  d'.names = d.names
  := (h.sound.codes h.generated).1

include h in
theorem hasMessages :
  plan.HasMessages d
  := h.isWired.hasMessages h.sound h.nameable.nodes h.wired

include h in
/-- The functions of the cold groups with some of the nodes are those of the program. -/
theorem coldFunctions_eq (ids : List NodeId) :
  plan.coldFunctions d.names ids = .ok (program.coldNames ids)
  := by
  obtain ⟨cold, harranged⟩ := h.sound.arranged
  obtain ⟨hlength, hfunction⟩ := h.coldFunction_eq
  have hname := h.isWired.named.coldGroup
  rw [h.isWired.named.coldFunctions_eq, ← hlength, Program.coldNames]
  congr 1
  apply map_filter_range
  · intro i hi
    obtain ⟨hgroup, -⟩ := Plan.of_coldFunction (hfunction i hi (hlength ▸ hi))
    rw [Bool.eq_iff_iff, List.contains_iff_mem, List.mem_filterMap, List.any_eq_true, hgroup]
    simp only [harranged.grouping.groupIndex?_eq_some_iff, List.contains_iff_mem,
      exists_prop_of_true (hlength ▸ hi)]
  · intro i hi
    obtain ⟨-, -, hget, -⟩ := Plan.of_coldFunction (hfunction i hi (hlength ▸ hi))
    rw [h.names_eq, hname i (hlength ▸ hi)] at hget
    apply Option.some.inj hget

include h in
/-- An inlet that gets a receiver has it in the program. -/
theorem exists_receiver {e : Endpoint} (he : plan.receivers.Gives plan.patch e.node e.portlet) :
  ∃ name, Plan.receiverAt d.names e = .ok name ∧ program.receiverAt? e = some name
  := by
  obtain ⟨m, hm, hportlet⟩ := he
  obtain ⟨inlet, hinlet, heq⟩ := List.mem_map.mp hportlet
  obtain ⟨name, own, hname, hown, hread⟩ :=
    h.hasMessages.receiver m (Patch.mem_nodes_of_find? hm) inlet hinlet
  obtain ⟨own', hown', hcodes⟩ :=
    (h.sound.codes h.generated).2 m (Patch.mem_nodes_of_find? hm) own hown
  rw [Patch.id_of_find? hm, heq] at hname
  rw [Patch.id_of_find? hm] at hown'
  refine ⟨name, hname, ?_⟩
  rw [Program.receiverAt?, h.nodes_eq, hown', Option.bind_some, hcodes.receivers_eq, ← heq, hread]

include h in
/-- The listeners of an outlet are as the settings say. -/
theorem listenersAt_eq (hn : n ∈ plan.patch.nodes) :
  program.listenersAt ⟨n.id, o⟩ =
    if plan.listeners.contains n.id o then [Names.hookSymbol .outlet n.id o] else []
  := by
  have hhere : ∀ e : NodeId × PortletId, (⟨e.1, e.2⟩ : Endpoint) = ⟨n.id, o⟩ ↔ e = (n.id, o) := by
    intro e
    rw [Endpoint.mk.injEq, Prod.ext_iff]
  rw [Program.listenersAt, h.listeners_eq, Plan.listening, Plan.symbolsOf, List.map_map,
    List.filter_map, List.map_map]
  simp only [Function.comp_def, hhere]
  rw [List.filter_eq, (h.nameable.hooks .outlet).count]
  simp only [Plan.mem_hooks_outlet_iff hn]
  by_cases hlistened : plan.listeners.contains n.id o
  · rw [if_pos hlistened, if_pos hlistened]
    rfl
  · rw [if_neg hlistened, if_neg hlistened]
    rfl

include h in
/-- The targets of an outlet. -/
theorem targets_eq (hn : n ∈ plan.patch.nodes) {outlet : Portlet}
    (houtlet : outlet ∈ n.outletsOf .message) {targets : List String}
    (htargets : plan.targetsOf d.names n outlet.id = .ok targets) :
  ∃ receivers, (n.sinksAt outlet.id).map program.receiverAt? = receivers.map some ∧
    targets = receivers ++ program.listenersAt ⟨n.id, outlet.id⟩ ++
      program.coldNames ((n.sinksAt outlet.id).map Endpoint.node)
  := by
  have hvalid := h.nameable.nodes.valid n.id (h.sound.mem_order hn)
  obtain ⟨receivers, hreceivers, htargets⟩ := bind_eq_ok_iff.mp htargets
  rw [h.coldFunctions_eq] at htargets
  refine ⟨receivers, ?_, ?_⟩
  · apply map_eq_of_mapM_eq_ok hreceivers
    intro e he
    apply h.exists_receiver (Plan.gives_receivers_of_sink h.sound hn houtlet he)
  · rw [h.listenersAt_eq hn]
    by_cases hlistened : plan.listeners.contains n.id outlet.id
    · have hmem := (Plan.mem_hooks_outlet_iff hn).mpr hlistened
      rw [if_pos hlistened, (h.isWired.named.hooked .outlet).hook_eq_ok hvalid hmem] at htargets
      rw [if_pos hlistened]
      apply (Except.ok.inj htargets).symm
    · rw [if_neg hlistened] at htargets
      rw [if_neg hlistened]
      apply (Except.ok.inj htargets).symm

include h in
/-- The cold function of one node is that of its group. -/
theorem coldNames_singleton {id : NodeId} {f : ColdFunction} (hf : f ∈ program.cold)
    (hid : id ∈ f.group.nodes) :
  program.coldNames [id] = [f.name]
  := by
  obtain ⟨before, after, hsplit⟩ := List.append_of_mem hf
  have hapart := h.cold_apart
  rw [hsplit, List.pairwise_append, List.pairwise_cons] at hapart
  obtain ⟨-, ⟨hafter, -⟩, hbefore⟩ := hapart
  have hnotBefore : ∀ f' ∈ before, id ∉ f'.group.nodes :=
    fun f' hf' hid' => hbefore f' hf' f List.mem_cons_self hid' hid
  have hnotAfter : ∀ f' ∈ after, id ∉ f'.group.nodes :=
    fun f' hf' hid' => hafter f' hf' hid hid'
  rw [Program.coldNames, hsplit, List.filter_append, List.filter_cons_of_pos (by simpa using hid),
    List.filter_eq_nil_iff.mpr (by simpa using hnotBefore),
    List.filter_eq_nil_iff.mpr (by simpa using hnotAfter)]
  rfl

include h in
/-- A caller sends to the receiver of its inlet and to the cold group of its node. -/
theorem exists_of_callerOf {id : NodeId} {q : PortletId} {c : Caller}
    (hpair : (id, q) ∈ plan.callers.pairs) (hc : plan.callerOf d.names id q = .ok c) :
  ∃ receiver, c.name = Names.hookSymbol .inlet id q ∧
    program.receiverAt? ⟨id, q⟩ = some receiver ∧
    c.targets = receiver :: program.coldNames [id] ∧
    c.function = forwarding c.name c.targets names.globals.message
  := by
  obtain ⟨m, inlet, hm, hinlet, hkind⟩ := h.sound.caller id q hpair
  obtain ⟨receiver, hreceiver, hread⟩ := h.exists_receiver (e := ⟨id, q⟩)
    (Plan.gives_receivers h.sound hm hinlet hkind (.inr hpair))
  have hvalid : isNamePart id := by
    rw [← Patch.id_of_find? hm]
    apply h.nameable.nodes.valid _ (h.sound.mem_order (Patch.mem_nodes_of_find? hm))
  have hmessage : names.globals = d.names.globals := by rw [h.sameButGlobal, h.names_eq]
  rw [Plan.callerOf, (h.isWired.named.hooked .inlet).hook_eq_ok hvalid hpair, hreceiver,
    h.coldFunctions_eq] at hc
  obtain rfl := Except.ok.inj hc
  exact ⟨receiver, rfl, hread, rfl, by rw [hmessage]⟩

end Compiled

/-! ### Compiled patches -/

/-- A message outlet sends to the receivers of the inlets that it feeds, to its listener and to the
cold groups that it reaches, and its sender has a function of its own unless it has one receiver
and nothing else to do, or nothing at all. A caller sends to its inlet and to the cold group of its
node. -/
theorem Patch.messages_of_compile (hp : p.validate = .ok ())
    (h : p.compile registry settings = .ok (program, names)) :
  p.participants settings.allCallers.keys = .ok program.order ∧
  program.cold.map ColdFunction.name =
    ((List.range program.cold.length).map fun i => s!"COLD_{i}") ∧
  (∀ n ∈ (p.trim program.order).nodes, ∀ o ∈ (n.outletsOf .message).map Portlet.id,
    ∃ stem sender receivers, nodeStem settings.debug n.id n.type = .ok stem ∧
      program.senderAt? ⟨n.id, o⟩ = some sender ∧
      (n.sinksAt o).map program.receiverAt? = receivers.map some ∧
      sender.targets = receivers ++ program.listenersAt ⟨n.id, o⟩ ++
        program.coldNames ((n.sinksAt o).map Endpoint.node) ∧
      program.listenersAt ⟨n.id, o⟩ =
        (if settings.allListeners.contains n.id o then [s!"outletListener_{n.id}_{o}"] else []) ∧
      (sender.kind = .synthesized ∧ sender.name = s!"{stem}_SNDS_{o}" ↔
        settings.allListeners.contains n.id o ∨ 2 ≤ (n.sinksAt o).length ∨
          ∃ e, n.sinksAt o = [e] ∧ program.InColdGroup e.node) ∧
      (sender.kind = .direct ∧ receivers = [sender.name] ↔
        ¬ settings.allListeners.contains n.id o ∧
          ∃ e, n.sinksAt o = [e] ∧ ¬ program.InColdGroup e.node) ∧
      (sender.kind = .null ∧ sender.name = names.globals.nullReceiver ↔
        ¬ settings.allListeners.contains n.id o ∧ n.sinksAt o = []) ∧
      (sender.kind = .synthesized → ∃ f, sender.function? names.globals = some f ∧
        f.name = sender.name ∧ f.Forwards names.globals.message sender.targets) ∧
      (sender.kind ≠ .synthesized → sender.function? names.globals = none)) ∧
  program.callers.map Caller.inlet = (settings.allCallers.pairs.map fun e => ⟨e.1, e.2⟩) ∧
  ∀ c ∈ program.callers, ∃ receiver, program.receiverAt? c.inlet = some receiver ∧
    c.name = s!"inletCaller_{c.inlet.node}_{c.inlet.portlet}" ∧
    c.function = forwarding c.name c.targets names.globals.message ∧
    c.function.name = c.name ∧ c.function.Forwards names.globals.message c.targets ∧
    (∀ f ∈ program.cold, c.inlet.node ∈ f.group.nodes → c.targets = [receiver, f.name]) ∧
    (¬ program.InColdGroup c.inlet.node → c.targets = [receiver])
  := by
  obtain ⟨plan, d, d', h⟩ := Patch.exists_compiled hp h
  have hcallers := mapM_eq_ok_iff.mp h.callers
  refine ⟨?_, h.toComesTo.coldNames_eq, ?_, ?_, ?_⟩
  · rw [h.order_eq]
    apply h.isFor.participants
  · intro n hn o ho
    rw [h.order_eq, ← h.isFor.patch_eq] at hn
    obtain ⟨outlet, houtlet, rfl⟩ := List.mem_map.mp ho
    obtain ⟨i, hi⟩ := h.sound.implemented n hn
    obtain ⟨own, hown, hstem, -⟩ := h.isWired.named.known n hn i hi
    obtain ⟨sender, draft, hsender, hdraft, hread⟩ := h.hasMessages.sender n hn outlet houtlet
    obtain ⟨final, hfinal, hcodes⟩ := (h.sound.codes h.generated).2 n hn draft hdraft
    obtain ⟨htargets, hcases⟩ := Plan.senderOf_cases hown hsender
    obtain ⟨receivers, hreceivers, htargets⟩ := h.targets_eq hn houtlet htargets
    have hlisteners := h.listenersAt_eq (o := outlet.id) hn
    have hglobals : names.globals = d.names.globals := by rw [h.sameButGlobal, h.names_eq]
    rw [Plan.HasStem, h.isFor.settings_eq] at hstem
    rw [h.isFor.listeners_eq] at hcases hlisteners
    rw [← hglobals] at hcases
    have hlength : receivers.length = (n.sinksAt outlet.id).length := by
      simpa using (congrArg List.length hreceivers).symm
    have hnone : ¬ settings.allListeners.contains n.id outlet.id →
        program.listenersAt ⟨n.id, outlet.id⟩ = [] := by
      intro hnot
      rw [hlisteners, if_neg hnot]
    obtain ⟨hsynthesized, hdirect, hnull⟩ := sender_kind_iff hlength hnone htargets hcases
    refine ⟨own.stem, sender, receivers, hstem, ?_, hreceivers, htargets, hlisteners, hsynthesized,
      hdirect, hnull, sender.function?_cases names.globals⟩
    rw [Program.senderAt?, h.nodes_eq, hfinal, Option.bind_some, hcodes.senders_eq, hread]
  · rw [← h.isFor.callers_eq]
    symm
    rw [← List.forall₂_eq_eq_eq, List.forall₂_map_left_iff, List.forall₂_map_right_iff]
    apply hcallers.imp
    rintro ⟨id, q⟩ c hc
    apply (Plan.inlet_of_callerOf hc).symm
  · intro c hmem
    obtain ⟨⟨id, q⟩, hpair, hc⟩ := exists_of_mem_forall₂ hcallers.flip hmem
    obtain ⟨receiver, hname, hreceiver, htargets, hfunction⟩ := h.exists_of_callerOf hpair hc
    rw [Plan.inlet_of_callerOf hc]
    refine ⟨receiver, hreceiver, hname, hfunction, ?_, ?_, ?_, ?_⟩
    · rw [hfunction]
      rfl
    · rw [hfunction]
      apply forwards_forwarding
    · intro f hf hid
      rw [htargets, h.coldNames_singleton hf hid]
    · intro hout
      rw [htargets, Program.coldNames_eq_nil_iff.mpr (by simpa using hout)]

/-- A message from the knob goes to the level by a function of its own, since the level is cold. -/
theorem Patch.messages_of_compile_dimmer :
  Dimmer.patch.validate = .ok () ∧ ∃ program names,
    Dimmer.patch.compile Dimmer.registry Dimmer.settings = .ok (program, names) ∧
    ∃ sender receivers, program.senderAt? ⟨"knob", 0⟩ = some sender ∧
      sender.kind = .synthesized ∧ sender.name = "knob_SNDS_0" ∧
      sender.targets = receivers ++ program.coldNames ["level"] ∧
      ∃ f, sender.function? names.globals = some f ∧ f.name = "knob_SNDS_0" ∧
        f.body.print =
          String.join (sender.targets.map fun t => s!"{t}({names.globals.message})\n")
  := by
  obtain ⟨program, names, hcompile, -, f, hf, hnodes⟩ := Dimmer.exists_compile
  obtain ⟨horder, -, hsenders, -⟩ := Patch.messages_of_compile Dimmer.valid hcompile
  have horder : ["knob", "level", "lamp"] = program.order :=
    Except.ok.inj (Dimmer.participants_eq.symm.trans horder)
  obtain ⟨stem, sender, receivers, hstem, hsender, -, htargets, hlisteners, hkind, -, -, hfunction, -⟩ :=
    hsenders Dimmer.knob (by rw [← horder]; decide) 0 (by decide)
  obtain rfl : "knob" = stem := Except.ok.inj hstem
  rw [hlisteners, if_neg (by decide), List.append_nil] at htargets
  have hlevel : program.InColdGroup "level" := ⟨f, hf, by rw [hnodes]; decide⟩
  obtain ⟨hkind, hname⟩ := hkind.mpr (.inr (.inr ⟨⟨"level", 0⟩, rfl, hlevel⟩))
  obtain ⟨f, hf, hf', hforwards⟩ := hfunction hkind
  exact ⟨Dimmer.valid, program, names, hcompile, sender, receivers, hsender, hkind, hname, htargets,
    f, hf, hf'.trans hname, hforwards.print_eq⟩

end AudioPatch
