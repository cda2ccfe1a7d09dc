import AudioPatch.Proofs.Compile.Drafts

/-!
# The symbols of a program

The symbols that belong to the nodes and to the cold groups of a program are identifiers, all
different, and none of them is a name that all programs share. This holds of every program that a
compilation comes to, whatever the ids and the types of the nodes are.
-/

namespace AudioPatch

/-- The shared names, as a list. -/
def Globals.all (g : Globals) : List String :=
  [g.message, g.blockFrame, g.frame, g.blockSize, g.sampleRate, g.input, g.output, g.nullReceiver,
    g.nullSignal, g.emptyMessage, g.messageText]

/-- The symbols that belong to a node: those of its signal outlets, of its receivers, of the senders
with functions of their own, and of its state. -/
def NodeProgram.symbols (program : NodeProgram) : List String :=
  program.signalOuts.values ++ program.receivers.values.map Receiver.name ++
    (program.senders.values.filter fun sender => sender.kind = .synthesized).map Sender.name ++
    program.state.toList.map StateObject.name

/-- The symbols that belong to the nodes and to the cold groups. -/
def Program.symbols (program : Program) : List String :=
  program.nodes.values.flatMap NodeProgram.symbols ++ program.cold.map ColdFunction.name

/-! ### Shared names -/

/-- What follows the last underscore of a text. -/
def lastPart (s : String) : List Char := (s.toList.reverse.takeWhile (· ≠ '_')).reverse

theorem lastPart_joined {a b : String} (hb : Plain b) :
  lastPart (joined a b) = b.toList
  := by
  rw [lastPart, toList_joined, List.reverse_append, List.reverse_cons, List.append_assoc,
    List.takeWhile_append_of_pos]
  · simp
  · intro x hx
    rw [List.mem_reverse] at hx
    simpa using ne_of_mem_of_not_mem hx hb

/-- Whether a text ends as the symbols of nodes and of cold groups do. -/
def endsAsLabel (s : String) : Bool :=
  (lastPart s).all Char.isDigit || lastPart s = "STATE".toList

theorem Label.endsAsLabel_symbol (l : Label) :
  endsAsLabel l.symbol
  := by
  rw [endsAsLabel, symbol, lastPart_joined l.plain_last, Bool.or_eq_true]
  cases l with
  | portlet stem mark q =>
      left
      rw [List.all_eq_true]
      exact fun x hx => isDigit_of_mem_toString (k := q.toNat) hx
  | state stem =>
      right
      apply decide_eq_true
      rfl
  | coldGroup index =>
      left
      rw [List.all_eq_true]
      exact fun x hx => isDigit_of_mem_toString hx

/-- No symbol of a node or of a cold group is a shared name. -/
theorem Label.symbol_not_mem_globals (l : Label) :
  l.symbol ∉ ({} : Globals).all
  := by
  intro hmem
  have hnone : ∀ s ∈ ({} : Globals).all, ¬ endsAsLabel s := by decide
  apply hnone l.symbol hmem l.endsAsLabel_symbol

/-! ### Labels of programs -/

namespace NodeProgram

variable {program : NodeProgram} {stem stem' : String} {l : Label}

/-- What the symbols of a node with a stem stand for. -/
def labels (program : NodeProgram) (stem : String) : List Label :=
  program.signalOuts.keys.map (.portlet stem .signalOut) ++
    program.receivers.keys.map (.portlet stem .receiver) ++
    (program.senders.filter fun _ sender => sender.kind = .synthesized).keys.map
      (.portlet stem .sender) ++
    program.state.toList.map fun _ => .state stem

theorem stem?_of_mem_labels (h : l ∈ program.labels stem) :
  l.stem? = some stem
  := by
  simp only [labels, List.mem_append, List.mem_map] at h
  rcases h with ((⟨q, -, rfl⟩ | ⟨q, -, rfl⟩) | ⟨q, -, rfl⟩) | ⟨state, -, rfl⟩
  all_goals rfl

/-- The symbols of a node are those of its labels. -/
theorem Spelled.symbols_eq (h : program.Spelled stem) :
  program.symbols = (program.labels stem).map Label.symbol
  := by
  have hsignalOuts : program.signalOuts.values =
      program.signalOuts.keys.map fun q => (Label.portlet stem .signalOut q).symbol := by
    rw [← List.map_id program.signalOuts.values]
    apply Table.map_values_eq h.signalOut
  have hreceivers : program.receivers.values.map Receiver.name =
      program.receivers.keys.map fun q => (Label.portlet stem .receiver q).symbol :=
    Table.map_values_eq h.receiver
  have hsenders : (program.senders.filter fun _ sender => sender.kind = .synthesized).values.map
      Sender.name = (program.senders.filter fun _ sender => sender.kind = .synthesized).keys.map
        fun q => (Label.portlet stem .sender q).symbol := by
    apply Table.map_values_eq
    intro q sender hsender
    obtain ⟨hfind, hkind⟩ := Table.find?_filter_eq_some_iff.mp hsender
    apply h.sender q sender hfind (of_decide_eq_true hkind)
  have hstate : program.state.toList.map StateObject.name =
      program.state.toList.map fun _ => (Label.state stem).symbol := by
    apply List.map_congr_left
    intro state hmem
    apply h.state state (Option.mem_toList.mp hmem)
  rw [symbols, ← Table.values_filter, hsignalOuts, hreceivers, hsenders, hstate, labels]
  simp only [List.map_append, List.map_map]
  rfl

theorem nodup_labels (program : NodeProgram) (stem : String) :
  (program.labels stem).Nodup
  := by
  have hportlets : ∀ mark {α : Type} (t : Table PortletId α),
      (t.keys.map (Label.portlet stem mark)).Nodup := by
    intro mark α t
    apply t.nodup_keys.map
    intro q q' h
    apply (Label.portlet.inj h).2.2
  have hstate : (program.state.toList.map fun _ => Label.state stem).Nodup := by
    cases program.state with
    | none => apply List.nodup_nil
    | some state => apply List.nodup_singleton
  apply List.Nodup.append _ hstate
  · intro l hl hstate
    simp only [List.mem_append, List.mem_map] at hl hstate
    obtain ⟨-, -, rfl⟩ := hstate
    rcases hl with (⟨q, -, hq⟩ | ⟨q, -, hq⟩) | ⟨q, -, hq⟩ <;> cases hq
  · apply List.Nodup.append _ (hportlets .sender _)
    · intro l hl hsender
      simp only [List.mem_append, List.mem_map] at hl hsender
      obtain ⟨q', -, rfl⟩ := hsender
      rcases hl with ⟨q, -, hq⟩ | ⟨q, -, hq⟩ <;> cases hq
    · apply List.Nodup.append (hportlets .signalOut _) (hportlets .receiver _)
      intro l hl hreceiver
      simp only [List.mem_map] at hl hreceiver
      obtain ⟨q', -, rfl⟩ := hreceiver
      obtain ⟨q, -, hq⟩ := hl
      cases hq

end NodeProgram

/-! ### Whole programs -/

variable {p : Patch} {registry : Registry} {settings : Settings} {plan : Plan Patch} {d d' : Draft}
  {program : Program} {names : Names}

/-- The stem of a node. -/
def Names.stemOf (names : Names) (id : NodeId) : String :=
  ((names.nodes.entries.find? id).map NodeNames.stem).getD ""

/-- What the symbols of a program stand for. -/
def Program.labels (program : Program) (names : Names) : List Label :=
  (program.nodes.entries.flatMap fun e => e.2.labels (names.stemOf e.1)) ++
    (List.range program.cold.length).map .coldGroup

/-- A program of a node is in step with the names of the node. -/
theorem Draft.InStep.exists_own {ids : List NodeId} (h : d.InStep ids)
    {e : NodeId × NodeProgram} (he : e ∈ d.nodes.entries) :
  ∃ own, d.names.nodes.entries.find? e.1 = some own ∧ d.names.stemOf e.1 = own.stem ∧
    e.2.InStep own
  := by
  have hkey : e.1 ∈ d.nodes.keys := List.mem_map_of_mem he
  rw [h.mem_keys_iff, ← h.stemmed.mem_keys_iff, ← Table.isSome_find?_iff,
    Option.isSome_iff_exists] at hkey
  obtain ⟨own, hown⟩ := hkey
  refine ⟨own, hown, ?_, h.program e.1 own e.2 hown (Table.find?_eq_some_iff.mpr he)⟩
  rw [Names.stemOf, hown]
  rfl

namespace Plan.ComesTo

variable (h : plan.ComesTo d d' program names)

include h in
theorem symbols_eq :
  program.symbols = (program.labels names).map Label.symbol
  := by
  rw [Program.symbols, Program.labels, List.map_append, h.coldNames_eq, List.map_map,
    List.map_flatMap, Table.values, List.flatMap_map]
  congr 1
  apply List.flatMap_congr
  intro e he
  obtain ⟨own, -, hstem, hprogram⟩ := h.inStep.exists_own he
  rw [hstem]
  apply hprogram.spelled.symbols_eq

include h in
theorem nodup_labels :
  (program.labels names).Nodup
  := by
  have hstem : ∀ e : NodeId × NodeProgram, ∀ l ∈ e.2.labels (names.stemOf e.1),
      l.stem? = some (names.stemOf e.1) := fun e l hl => NodeProgram.stem?_of_mem_labels hl
  apply List.Nodup.append
  · apply List.nodup_flatMap.mpr
    refine ⟨fun e _ => e.2.nodup_labels _, ?_⟩
    -- Nodes that have a label in common have one stem.
    apply program.nodes.ordered.imp_of_mem
    intro a b ha hb hlt l hla hlb
    obtain ⟨own, hown, hstema, -⟩ := h.inStep.exists_own ha
    obtain ⟨own', hown', hstemb, -⟩ := h.inStep.exists_own hb
    have hstems : own.stem = own'.stem := by
      rw [← hstema, ← hstemb]
      exact Option.some.inj ((hstem a l hla).symm.trans (hstem b l hlb))
    have hsame := h.inStep.stemmed.stems_differ a.1 b.1 own own' hown hown' hstems
    rw [hsame] at hlt
    apply Std.lt_irrefl hlt
  · apply List.nodup_range.map
    intro i j hij
    apply Label.coldGroup.inj hij
  · intro l hl hcold
    obtain ⟨e, -, hl⟩ := List.mem_flatMap.mp hl
    obtain ⟨i, -, rfl⟩ := List.mem_map.mp hcold
    cases hstem e _ hl

include h in
theorem isIdentifier_of_mem_labels {l : Label} (hl : l ∈ program.labels names) :
  isIdentifier l.symbol
  := by
  apply Label.isIdentifier_symbol
  intro stem hstem
  rcases List.mem_append.mp hl with hl | hl
  · obtain ⟨e, he, hl⟩ := List.mem_flatMap.mp hl
    obtain ⟨own, hown, hown_stem, -⟩ := h.inStep.exists_own he
    have hsame := (NodeProgram.stem?_of_mem_labels hl).symm.trans hstem
    rw [← Option.some.inj hsame, hown_stem]
    apply h.inStep.stemmed.identifier e.1 own hown
  · obtain ⟨i, -, rfl⟩ := List.mem_map.mp hl
    cases hstem

end Plan.ComesTo

/-- The symbols of the nodes and of the cold groups of a program that a compilation comes to are
identifiers, all different, and none is a shared name. -/
theorem Patch.symbols_of_compile (h : p.compile registry settings = .ok (program, names)) :
  program.symbols.Nodup ∧
    (∀ s ∈ program.symbols, isIdentifier s ∧ s ∉ names.globals.all) ∧
    program.cold.map ColdFunction.name =
      (List.range program.cold.length).map fun i => s!"COLD_{i}"
  := by
  obtain ⟨⟨⟩, -, h⟩ := bind_eq_ok_iff.mp h
  obtain ⟨plan, -, h⟩ := bind_eq_ok_iff.mp h
  obtain ⟨d, d', h⟩ := Plan.exists_comesTo h
  refine ⟨?_, ?_, h.coldNames_eq⟩
  · rw [h.symbols_eq]
    apply h.nodup_labels.map Label.symbol_injective
  · intro s hs
    rw [h.symbols_eq] at hs
    obtain ⟨l, hl, rfl⟩ := List.mem_map.mp hs
    have hglobals : names.globals = {} := h.inStep.globals_eq
    rw [hglobals]
    exact ⟨h.isIdentifier_of_mem_labels hl, l.symbol_not_mem_globals⟩

/-- The knob sends by a function of its own, and the level has a variable and a cold group. -/
theorem Patch.symbols_of_compile_dimmer :
  ∃ program names,
    Dimmer.patch.compile Dimmer.registry Dimmer.settings = .ok (program, names) ∧
    program.symbols = ["knob_RCVS_0", "knob_SNDS_0", "level_OUTS_0", "level_RCVS_0", "COLD_0"] ∧
    program.symbols.Nodup ∧ (∀ s ∈ program.symbols, isIdentifier s ∧ s ∉ names.globals.all) ∧
    program.cold.map ColdFunction.name =
      (List.range program.cold.length).map fun i => s!"COLD_{i}"
  := by
  have hsymbols : (Dimmer.patch.compile Dimmer.registry Dimmer.settings).toOption.map
      (fun r => r.1.symbols) =
        some ["knob_RCVS_0", "knob_SNDS_0", "level_OUTS_0", "level_RCVS_0", "COLD_0"] := by
    rw [Dimmer.compile_eq]
    rfl
  obtain ⟨program, names, h, -⟩ := Dimmer.exists_compile
  rw [h] at hsymbols
  exact ⟨program, names, h, Option.some.inj hsymbols, Patch.symbols_of_compile h⟩

end AudioPatch
