import AudioPatch.Proofs.Code
import AudioPatch.Proofs.Compile.Stages
import AudioPatch.Proofs.Patch.Editing
import Mathlib.Data.List.Flatten

/-!
# Where the code of the nodes is

The code for signals is put together from pieces: the loops of nodes, and the code at inlets that
depends on the signal there. Every piece is in one place. The loop of a node is in the loop of
the hot nodes or in the function of its cold group, with the code at its inlets before it; but
where a cold node feeds a hot one, the code at the inlet ends the function of the cold group.
-/

namespace AudioPatch

/-- A piece of the code for signals: the loop of a node, or the code at one of its inlets. -/
inductive Piece where
  | loop (id : NodeId)
  | inlet (x : Endpoint)
deriving DecidableEq, Repr

/-- The node of a piece. -/
def Piece.node : Piece → NodeId
  | .loop id => id
  | .inlet x => x.node

namespace Program

/-! ### Pieces of a program -/

/-- The inlets of a node with code of their own. -/
def codedInlets (program : Program) (id : NodeId) : List PortletId :=
  (program.nodes.find? id).elim [] fun own => own.inletLoops.keys

/-- The code of a piece. -/
def codeOf (program : Program) : Piece → Code
  | .loop id => (program.nodes.find? id).elim .empty NodeProgram.loop
  | .inlet x =>
      ((program.nodes.find? x.node).bind fun own => own.inletLoops.find? x.portlet).getD .empty

/-- A cold function computes the signal that arrives at an inlet of a hot node. -/
def Refreshes (program : Program) (p : Patch) (f : ColdFunction) (x : Endpoint) : Prop :=
  x.node ∈ program.hot.nodes ∧ p.kindAt? .inlet x = some .signal ∧
    ∃ source ∈ p.farEnds .inlet x, source.node ∈ f.group.nodes

instance (program : Program) (p : Patch) (f : ColdFunction) (x : Endpoint) :
    Decidable (program.Refreshes p f x) :=
  inferInstanceAs (Decidable (_ ∧ _ ∧ _))

/-- The loop of a node, after the code at those of its inlets that no cold function computes. -/
def block (program : Program) (p : Patch) (id : NodeId) : List Piece :=
  ((program.codedInlets id).filter fun q => ∀ f ∈ program.cold, ¬ program.Refreshes p f ⟨id, q⟩).map
    (fun q => .inlet ⟨id, q⟩) ++ [.loop id]

/-- The pieces of the loop of the hot nodes. -/
def hotPieces (program : Program) (p : Patch) : List Piece :=
  program.hot.nodes.flatMap (program.block p)

/-- The code at the inlets that a cold function computes. -/
def lastPieces (program : Program) (f : ColdFunction) : List Piece :=
  ((f.sinkEdges.map Edge.sink).filter fun x => x.portlet ∈ program.codedInlets x.node).map .inlet

/-- The pieces of a cold function. -/
def coldPieces (program : Program) (p : Patch) (f : ColdFunction) : List Piece :=
  f.group.nodes.flatMap (program.block p) ++ program.lastPieces f

/-- All the pieces. -/
def pieces (program : Program) (p : Patch) : List Piece :=
  program.hotPieces p ++ program.cold.flatMap (program.coldPieces p)

variable {program : Program} {p : Patch} {id a b : NodeId} {ids : List NodeId} {x : Endpoint}

theorem ascending_codedInlets (program : Program) (id : NodeId) :
  (program.codedInlets id).Pairwise (· < ·)
  := by
  rw [codedInlets]
  cases program.nodes.find? id with
  | none => apply List.Pairwise.nil
  | some own => apply List.pairwise_map.mpr own.inletLoops.ordered

/-! ### Blocks one after the other -/

theorem loop_mem_blocks_iff :
  .loop id ∈ ids.flatMap (program.block p) ↔ id ∈ ids
  := by
  simp [block]

theorem inlet_mem_blocks_iff :
  .inlet x ∈ ids.flatMap (program.block p) ↔
    x.node ∈ ids ∧ x.portlet ∈ program.codedInlets x.node ∧
      ∀ f ∈ program.cold, ¬ program.Refreshes p f x
  := by
  simp only [block, List.mem_flatMap, List.mem_append, List.mem_map, List.mem_filter,
    decide_eq_true_iff, List.mem_singleton, reduceCtorEq, or_false, Piece.inlet.injEq]
  constructor
  · rintro ⟨id, hid, q, hq, rfl⟩
    exact ⟨hid, hq⟩
  · rintro ⟨hid, hq⟩
    exact ⟨x.node, hid, x.portlet, hq, rfl⟩

theorem node_of_mem_block {piece : Piece} (h : piece ∈ program.block p id) :
  piece.node = id
  := by
  rcases List.mem_append.mp h with h | h
  · obtain ⟨q, -, rfl⟩ := List.mem_map.mp h
    rfl
  · obtain rfl := List.mem_singleton.mp h
    rfl

theorem nodup_blocks (h : ids.Nodup) :
  (ids.flatMap (program.block p)).Nodup
  := by
  apply List.nodup_flatMap.mpr ⟨?_, ?_⟩
  · intro id _
    have hinlets : (program.codedInlets id).Nodup :=
      (program.ascending_codedInlets id).imp UInt32.ne_of_lt
    apply List.nodup_append'.mpr ⟨?_, List.nodup_singleton _, ?_⟩
    · apply (hinlets.filter _).map
      intro q q' heq
      apply (Endpoint.mk.inj (Piece.inlet.inj heq)).2
    · rw [List.disjoint_singleton]
      simp
  · apply h.imp
    intro id id' hne piece hpiece hpiece'
    apply hne
    rw [← node_of_mem_block hpiece, node_of_mem_block hpiece']

theorem pair_sublist_blocks (h : [a, b].Sublist ids) :
  [Piece.loop a, .loop b].Sublist (ids.flatMap (program.block p))
  := by
  have hloop : ∀ id, [Piece.loop id].Sublist (program.block p id) :=
    fun id => List.sublist_append_right _ _
  apply List.Sublist.trans _ (h.flatMap (program.block p))
  simpa using (hloop a).append (hloop b)

theorem codeOf_inlet_of_not_mem (h : x.portlet ∉ program.codedInlets x.node) :
  program.codeOf (.inlet x) = .empty
  := by
  rw [codeOf]
  cases hown : program.nodes.find? x.node with
  | none => rfl
  | some own =>
      rw [codedInlets, hown] at h
      rw [Option.bind_some, Table.find?_eq_none_iff.mpr h]
      rfl

theorem flatMap_lastPieces (program : Program) :
  program.cold.flatMap program.lastPieces =
    (((program.cold.flatMap ColdFunction.sinkEdges).map Edge.sink).filter fun x =>
      x.portlet ∈ program.codedInlets x.node).map .inlet
  := by
  simp only [List.map_flatMap, List.filter_flatMap]
  rfl

/-- All the pieces are the blocks of the nodes, and what ends the cold functions. -/
theorem perm_pieces (program : Program) (p : Patch) :
  (program.pieces p).Perm
    ((program.hot.nodes ++ program.cold.flatMap fun f => f.group.nodes).flatMap (program.block p) ++
      program.cold.flatMap program.lastPieces)
  := by
  rw [List.flatMap_append, List.flatMap_assoc, List.append_assoc]
  apply List.Perm.append_left
  apply (List.flatMap_append_perm _ _ _).symm

/-! ### What the placement of the pieces is -/

/-- The code for signals of a program of a patch: every piece is there once, after what it reads. -/
structure Places (program : Program) (p : Patch) : Prop where
  hotLoop_eq : program.hotLoop = .concat ((program.hotPieces p).map program.codeOf)
  body_eq : ∀ f ∈ program.cold,
    f.function.body = .concat ((program.coldPieces p f).map program.codeOf)
  nodup : (program.pieces p).Nodup
  mem_loop_iff : ∀ id, .loop id ∈ program.pieces p ↔ p.Pulled id
  mem_inlet_iff : ∀ x, .inlet x ∈ program.pieces p ↔
    p.Pulled x.node ∧ x.portlet ∈ program.codedInlets x.node
  /-- In a block the code at the inlets is in the order of the inlets. -/
  ascending : ∀ id, (program.codedInlets id).Pairwise (· < ·)
  /-- At the end of a cold function is the code at the inlets of hot nodes that it feeds. -/
  mem_last_iff : ∀ f ∈ program.cold, ∀ x, .inlet x ∈ program.lastPieces f ↔
    x.portlet ∈ program.codedInlets x.node ∧ program.Refreshes p f x
  /-- No two cold functions feed one inlet. -/
  sink_once : ∀ f ∈ program.cold, ∀ f' ∈ program.cold, ∀ e ∈ f.sinkEdges, ∀ e' ∈ f'.sinkEdges,
    e.sink = e'.sink → f = f'
  /-- In a cold function the loop of a node comes after the loops of its sources and before the
  last pieces. -/
  cold_before : ∀ f ∈ program.cold, ∀ id ∈ f.group.nodes,
    (∀ source, p.Feeds source id →
      [Piece.loop source, .loop id].Sublist (program.coldPieces p f)) ∧
    ∀ piece ∈ program.lastPieces f, [.loop id, piece].Sublist (program.coldPieces p f)
  /-- In the loop of the hot nodes it comes after the loops of its sources, but for those that are
  cold or on a feedback loop with it. -/
  hot_before : ∀ id ∈ program.hot.nodes, ∀ source, p.Feeds source id →
    [Piece.loop source, .loop id].Sublist (program.hotPieces p) ∨
      (∃ f ∈ program.cold, source ∈ f.group.nodes) ∨ p.ShareLoop source id

end Program

/-! ### Connections that carry signals -/

namespace Patch.Consistent

variable {p : Patch} {e e' : Edge}

/-- A connection that carries a signal is seen at the inlet where it ends. -/
theorem carries_iff (hp : p.Consistent) :
  p.Carries e ↔ p.kindAt? .inlet e.sink = some .signal ∧ e.source ∈ p.farEnds .inlet e.sink
  := by
  have hkind : p.Lists .outlet e → p.kindAt? .outlet e.source = p.kindAt? .inlet e.sink := by
    intro he
    obtain ⟨kind, hkind⟩ := hp.joined e he
    apply (hkind .outlet).trans (hkind .inlet).symm
  have hmirrored : p.Lists .outlet e ↔ e.source ∈ p.farEnds .inlet e.sink := hp.mirrored e
  rw [Carries, ← hmirrored]
  constructor
  · rintro ⟨hsignal, he⟩
    exact ⟨(hkind he).symm.trans hsignal, he⟩
  · rintro ⟨hsignal, he⟩
    exact ⟨(hkind he).trans hsignal, he⟩

/-- There is one connection at most that carries a signal to an inlet. -/
theorem eq_of_carries (hp : p.Consistent) (he : p.Carries e) (he' : p.Carries e')
    (hsink : e.sink = e'.sink) :
  e = e'
  := by
  obtain ⟨hsignal, hsource⟩ := hp.carries_iff.mp he
  obtain ⟨-, hsource'⟩ := hp.carries_iff.mp he'
  rw [← hsink] at hsource'
  apply Edge.eq_of_near_far .inlet hsink
  have hone : (p.farEnds .inlet e.sink).length ≤ 1 := hp.single _ hsignal
  obtain ⟨source, hends⟩ := List.length_eq_one_iff.mp
    (Nat.le_antisymm hone (List.length_pos_of_mem hsource))
  rw [hends, List.mem_singleton] at hsource hsource'
  apply hsource.trans hsource'.symm

end Patch.Consistent

namespace Compiled

variable {p : Patch} {registry : Registry} {settings : Settings} {plan : Plan Patch} {d d' : Draft}
  {program : Program} {names : Names} {f : ColdFunction} {x : Endpoint}
  (h : Compiled p registry settings plan d d' program names)

/-! ### What feeds an inlet -/

include h in
theorem mem_sinkEdges_iff (hf : f ∈ program.cold) {e : Edge} :
  e ∈ f.sinkEdges ↔
    e.source.node ∈ f.group.nodes ∧ plan.patch.Carries e ∧ e.sink.node ∈ program.hot.nodes
  := by
  obtain ⟨cold, harranged⟩ := h.sound.arranged
  have hgroup : f.coldGroup ∈ plan.schedule.cold := h.map_coldGroup ▸ List.mem_map_of_mem hf
  rw [h.hot_eq, harranged.mem_hot_iff, ← Schedule.isHot_iff]
  apply (harranged.grouping.isGroup _ hgroup).mem_sinkEdges_iff

include h in
/-- A cold function feeds an inlet exactly if an edge from its group ends there. -/
theorem exists_sinkEdge_iff (hpatch : plan.patch.Consistent) (hf : f ∈ program.cold) :
  (∃ e ∈ f.sinkEdges, e.sink = x) ↔ program.Refreshes plan.patch f x
  := by
  simp only [h.mem_sinkEdges_iff hf, hpatch.carries_iff, Program.Refreshes]
  constructor
  · rintro ⟨e, ⟨hsource, ⟨hkind, hmem⟩, hhot⟩, rfl⟩
    exact ⟨hhot, hkind, e.source, hmem, hsource⟩
  · rintro ⟨hhot, hkind, source, hmem, hsource⟩
    exact ⟨⟨source, x⟩, ⟨hsource, ⟨hkind, hmem⟩, hhot⟩, rfl⟩

include h in
theorem feeds_iff (hpatch : plan.patch.Consistent) :
  plan.schedule.feeds x ↔ ∃ f ∈ program.cold, program.Refreshes plan.patch f x
  := by
  rw [Schedule.feeds, ← h.map_coldGroup, List.any_map, List.any_eq_true]
  apply exists_congr
  intro f
  apply and_congr_right
  intro hf
  rw [← h.exists_sinkEdge_iff hpatch hf]
  simp [ColdFunction.coldGroup]

/-! ### The code of the pieces -/

include h in
theorem nodeCode_eq (hpatch : plan.patch.Consistent) {id : NodeId} {code : Code}
    (hcode : plan.nodeCode d'.nodes id = .ok code) :
  code = .concat ((program.block plan.patch id).map program.codeOf)
  := by
  obtain ⟨own, hown, ⟨⟩⟩ := bind_eq_ok_iff.mp hcode
  rw [programOf_eq_ok_iff, ← h.nodes_eq] at hown
  have hkeep : ∀ q, (!plan.schedule.feeds ⟨id, q⟩) =
      decide (∀ f ∈ program.cold, ¬ program.Refreshes plan.patch f ⟨id, q⟩) := by
    intro q
    rw [Bool.eq_iff_iff, Bool.not_eq_true', ← Bool.not_eq_true, h.feeds_iff hpatch]
    simp
  have hinlets : program.codedInlets id = own.inletLoops.entries.map Prod.fst := by
    rw [Program.codedInlets, hown]
    rfl
  have hloop : program.codeOf (.loop id) = own.loop := by
    rw [Program.codeOf, hown]
    rfl
  rw [Program.block, List.map_append, List.map_singleton, Code.concat_append_singleton, hloop,
    hinlets, List.filter_map, List.map_map, List.map_map]
  simp only [hkeep]
  congr 2
  apply List.map_congr_left
  intro e he
  have hfound := Table.find?_eq_some_iff.mpr (List.mem_filter.mp he).1
  show e.2 = program.codeOf (.inlet ⟨id, e.1⟩)
  rw [Program.codeOf, hown, Option.bind_some, hfound, Option.getD_some]

include h in
/-- The code of nodes one after the other. -/
theorem concat_nodeCodes (hpatch : plan.patch.Consistent) {ids : List NodeId} {loops : List Code}
    (hloops : ids.mapM (plan.nodeCode d'.nodes) = .ok loops) :
  Code.concat loops = .concat ((ids.flatMap (program.block plan.patch)).map program.codeOf)
  := by
  have hall : loops =
      ids.map fun id => Code.concat ((program.block plan.patch id).map program.codeOf) := by
    apply eq_map_of_mapM_eq_ok hloops
    intro id _ code hcode
    apply h.nodeCode_eq hpatch hcode
  rw [hall, List.map_flatMap, List.flatMap_def, Code.concat_flatten, List.map_map]
  rfl

include h in
theorem concat_sinkCodes {sinks : List Code}
    (hsinks : f.sinkEdges.mapM (Plan.sinkCode d'.nodes) = .ok sinks) :
  Code.concat sinks = .concat ((program.lastPieces f).map program.codeOf)
  := by
  have hall : sinks = f.sinkEdges.map fun e => program.codeOf (.inlet e.sink) := by
    apply eq_map_of_mapM_eq_ok hsinks
    intro e _ code hcode
    obtain ⟨own, hown, ⟨⟩⟩ := bind_eq_ok_iff.mp hcode
    rw [programOf_eq_ok_iff, ← h.nodes_eq] at hown
    rw [Program.codeOf, hown]
    rfl
  rw [hall, Program.lastPieces, List.map_map, Code.concat_map_filter, List.map_map]
  · rfl
  · intro x hx
    apply Program.codeOf_inlet_of_not_mem
    simpa using hx

include h in
theorem hotLoop_eq_concat (hpatch : plan.patch.Consistent) :
  program.hotLoop = .concat ((program.hotPieces plan.patch).map program.codeOf)
  := by
  obtain ⟨loops, hloops, hloop⟩ := bind_eq_ok_iff.mp h.hotLoop
  rw [← Except.ok.inj hloop, Program.hotPieces, h.hot_eq]
  apply h.concat_nodeCodes hpatch hloops

include h in
theorem body_eq_concat (hpatch : plan.patch.Consistent) (hf : f ∈ program.cold) :
  f.function.body = .concat ((program.coldPieces plan.patch f).map program.codeOf)
  := by
  obtain ⟨⟨g, i⟩, -, hfunction⟩ := exists_of_mem_forall₂ (mapM_eq_ok_iff.mp h.cold).flip hf
  obtain ⟨hgroup, hedges, -, loops, sinks, hloops, hsinks, hbody⟩ := Plan.of_coldFunction hfunction
  rw [← hgroup] at hloops
  rw [← hedges] at hsinks
  rw [hbody, Program.coldPieces, List.map_append, Code.concat_append (List.map _ _),
    ← h.concat_nodeCodes hpatch hloops, ← h.concat_sinkCodes hsinks]
  apply Code.concat_append

/-! ### Every piece once -/

include h in
theorem eq_of_mem_nodes {f' : ColdFunction} (hf : f ∈ program.cold) (hf' : f' ∈ program.cold)
    {id : NodeId} (hid : id ∈ f.group.nodes) (hid' : id ∈ f'.group.nodes) :
  f = f'
  := by
  by_contra hne
  have hsymm : Std.Symm fun f f' : ColdFunction => f.group.nodes.Disjoint f'.group.nodes :=
    ⟨fun _ _ hdisjoint _ ha ha' => hdisjoint ha' ha⟩
  apply h.cold_apart.forall hf hf' hne hid hid'

include h in
/-- All the nodes with code for signals are the pulled nodes, each once. -/
theorem perm_pulled :
  (program.hot.nodes ++ program.cold.flatMap fun f => f.group.nodes).Perm
    plan.schedule.pulled.nodes
  := by
  obtain ⟨cold, harranged⟩ := h.sound.arranged
  have hperm := harranged.perm_pulled
  rw [← h.map_coldGroup, List.flatMap_map, ← h.hot_eq] at hperm
  apply hperm

include h in
/-- All the connections from cold nodes to hot ones end at different inlets. -/
theorem nodup_sinks (hpatch : plan.patch.Consistent) :
  ((program.cold.flatMap ColdFunction.sinkEdges).map Edge.sink).Nodup
  := by
  obtain ⟨cold, harranged⟩ := h.sound.arranged
  have hedges : (program.cold.flatMap ColdFunction.sinkEdges).Nodup := by
    apply List.nodup_flatMap.mpr ⟨?_, ?_⟩
    · intro f hf
      have hgroup : f.coldGroup ∈ plan.schedule.cold := h.map_coldGroup ▸ List.mem_map_of_mem hf
      apply (harranged.grouping.isGroup _ hgroup).nodup_sinkEdges (hpatch.once .outlet)
    · apply h.cold_apart.imp_of_mem
      intro f f' hf hf' hapart e he he'
      apply hapart ((h.mem_sinkEdges_iff hf).mp he).1 ((h.mem_sinkEdges_iff hf').mp he').1
  apply (List.nodup_map_iff_inj_on hedges).mpr
  intro e he e' he' hsink
  obtain ⟨f, hf, he⟩ := List.mem_flatMap.mp he
  obtain ⟨f', hf', he'⟩ := List.mem_flatMap.mp he'
  apply hpatch.eq_of_carries ((h.mem_sinkEdges_iff hf).mp he).2.1
    ((h.mem_sinkEdges_iff hf').mp he').2.1 hsink

include h in
theorem inlet_mem_lastPieces_iff (hpatch : plan.patch.Consistent) (hf : f ∈ program.cold) :
  .inlet x ∈ program.lastPieces f ↔
    x.portlet ∈ program.codedInlets x.node ∧ program.Refreshes plan.patch f x
  := by
  rw [← h.exists_sinkEdge_iff hpatch hf, Program.lastPieces]
  simp [and_comm]

include h in
theorem nodup_pieces (hpatch : plan.patch.Consistent) :
  (program.pieces plan.patch).Nodup
  := by
  obtain ⟨cold, harranged⟩ := h.sound.arranged
  apply (program.perm_pieces plan.patch).nodup_iff.mpr
  apply List.nodup_append'.mpr ⟨?_, ?_, ?_⟩
  · apply Program.nodup_blocks
    apply h.perm_pulled.nodup_iff.mpr harranged.order.nodup
  · rw [Program.flatMap_lastPieces]
    apply ((h.nodup_sinks hpatch).filter _).map
    apply Piece.inlet.inj
  · intro piece hblock hlast
    obtain ⟨f, hf, hlast⟩ := List.mem_flatMap.mp hlast
    obtain ⟨x, -, rfl⟩ := List.mem_map.mp hlast
    apply (Program.inlet_mem_blocks_iff.mp hblock).2.2 f hf
    apply ((h.inlet_mem_lastPieces_iff hpatch hf).mp hlast).2

include h in
theorem mem_nodes_iff {id : NodeId} :
  id ∈ program.hot.nodes ++ (program.cold.flatMap fun f => f.group.nodes) ↔ plan.patch.Pulled id
  := by
  obtain ⟨cold, harranged⟩ := h.sound.arranged
  rw [h.perm_pulled.mem_iff, Schedule.mem_pulled_iff harranged.order]

include h in
theorem loop_mem_pieces_iff (id : NodeId) :
  .loop id ∈ program.pieces plan.patch ↔ plan.patch.Pulled id
  := by
  rw [(program.perm_pieces plan.patch).mem_iff, List.mem_append, Program.loop_mem_blocks_iff,
    h.mem_nodes_iff, Program.flatMap_lastPieces]
  simp

include h in
theorem inlet_mem_pieces_iff (hpatch : plan.patch.Consistent) (x : Endpoint) :
  .inlet x ∈ program.pieces plan.patch ↔
    plan.patch.Pulled x.node ∧ x.portlet ∈ program.codedInlets x.node
  := by
  rw [(program.perm_pieces plan.patch).mem_iff, List.mem_append, Program.inlet_mem_blocks_iff,
    h.mem_nodes_iff, List.mem_flatMap]
  constructor
  · rintro (⟨hpulled, hcoded, -⟩ | ⟨f, hf, hlast⟩)
    · exact ⟨hpulled, hcoded⟩
    · obtain ⟨hcoded, hhot, -⟩ := (h.inlet_mem_lastPieces_iff hpatch hf).mp hlast
      exact ⟨h.mem_nodes_iff.mp (List.mem_append_left _ hhot), hcoded⟩
  · rintro ⟨hpulled, hcoded⟩
    by_cases hcold : ∃ f ∈ program.cold, program.Refreshes plan.patch f x
    · obtain ⟨f, hf, hrefreshes⟩ := hcold
      exact .inr ⟨f, hf, (h.inlet_mem_lastPieces_iff hpatch hf).mpr ⟨hcoded, hrefreshes⟩⟩
    · exact .inl ⟨hpulled, hcoded, fun f hf hrefreshes => hcold ⟨f, hf, hrefreshes⟩⟩

/-! ### Every piece after what it reads -/

include h in
theorem source_before_of_cold (hf : f ∈ program.cold) {id source : NodeId}
    (hid : id ∈ f.group.nodes) (hsource : plan.patch.Feeds source id) :
  [Piece.loop source, .loop id].Sublist (program.coldPieces plan.patch f)
  := by
  obtain ⟨cold, harranged⟩ := h.sound.arranged
  have hmem : f.coldGroup ∈ plan.schedule.cold := h.map_coldGroup ▸ List.mem_map_of_mem hf
  have hgroup := harranged.grouping.isGroup _ hmem
  have hbefore := (harranged.isCold.source (hgroup.mem_cold id hid) hsource).2
  apply List.Sublist.trans _ (List.sublist_append_left _ _)
  apply Program.pair_sublist_blocks
  apply hgroup.pair_sublist harranged.order.nodup (hgroup.source id hid source hsource) hid hbefore

include h in
theorem source_before_of_hot {id source : NodeId} (hid : id ∈ program.hot.nodes)
    (hsource : plan.patch.Feeds source id) :
  [Piece.loop source, .loop id].Sublist (program.hotPieces plan.patch) ∨
    (∃ f ∈ program.cold, source ∈ f.group.nodes) ∨ plan.patch.ShareLoop source id
  := by
  obtain ⟨cold, harranged⟩ := h.sound.arranged
  rw [h.hot_eq] at hid
  obtain ⟨hpulled, hnot⟩ := harranged.mem_hot_iff.mp hid
  have hsourcePulled :=
    Schedule.mem_pulled_of_upstream harranged.order hpulled (Relation.ReflTransGen.single hsource)
  by_cases hcold : source ∈ cold
  · obtain ⟨g, hg, hmem⟩ := harranged.grouping.cover source hcold
    rw [← h.map_coldGroup] at hg
    obtain ⟨f, hf, rfl⟩ := List.mem_map.mp hg
    exact .inr (.inl ⟨f, hf, hmem⟩)
  · rcases harranged.order.before id hpulled source hsource rfl with hbefore | hreaches
    · left
      rw [Program.hotPieces, h.hot_eq, harranged.hot_eq]
      apply Program.pair_sublist_blocks
      simpa [hcold, hnot] using hbefore.filter fun id => !cold.contains id
    · right
      right
      refine ⟨.single hsource, ?_⟩
      rcases Relation.reflTransGen_iff_eq_or_transGen.mp hreaches.upstream with rfl | hup
      · exact .single hsource
      · apply hup

include h in
theorem places (hpatch : plan.patch.Consistent) :
  program.Places plan.patch
  := by
  constructor
  case hotLoop_eq => apply h.hotLoop_eq_concat hpatch
  case body_eq => exact fun f hf => h.body_eq_concat hpatch hf
  case nodup => apply h.nodup_pieces hpatch
  case mem_loop_iff => apply h.loop_mem_pieces_iff
  case mem_inlet_iff => apply h.inlet_mem_pieces_iff hpatch
  case ascending => apply program.ascending_codedInlets
  case mem_last_iff => exact fun f hf x => h.inlet_mem_lastPieces_iff hpatch hf
  case sink_once =>
    intro f hf f' hf' e he e' he' hsink
    rw [h.mem_sinkEdges_iff hf] at he
    rw [h.mem_sinkEdges_iff hf'] at he'
    obtain rfl := hpatch.eq_of_carries he.2.1 he'.2.1 hsink
    apply h.eq_of_mem_nodes hf hf' he.1 he'.1
  case cold_before =>
    intro f hf id hid
    refine ⟨fun source => h.source_before_of_cold hf hid, ?_⟩
    intro piece hpiece
    apply pair_sublist_append_iff.mpr
    exact .inr (.inl ⟨Program.loop_mem_blocks_iff.mpr hid, hpiece⟩)
  case hot_before => exact fun id hid source => h.source_before_of_hot hid

end Compiled

/-! ### Compiled patches -/

/-- A program of a valid patch whose lists of connections have no repetitions is put together from
the code that the implementations answer: every piece of it is in one place, after what it
reads. -/
theorem Patch.places_of_compile {p : Patch} {registry : Registry} {settings : Settings}
    {program : Program} {names : Names} (hp : p.validate = .ok ()) (honce : p.Unrepeated)
    (h : p.compile registry settings = .ok (program, names)) :
  p.participants settings.allCallers.keys = .ok program.order ∧
  (∀ n ∈ (p.trim program.order).nodes, ∃ own i c, program.nodes.find? n.id = some own ∧
    registry.find? n.type = some i ∧ c.node = n ∧
    i.loop c = .ok own.loop ∧ i.inletLoops c = .ok own.inletLoops) ∧
  program.Places (p.trim program.order)
  := by
  have hconsistent := ((coherent_of_validate hp).consistent honce).trim program.order
  obtain ⟨plan, d, d', h⟩ := Patch.exists_compiled hp h
  rw [h.order_eq, ← h.isFor.patch_eq] at *
  refine ⟨h.isFor.participants, ?_, h.places hconsistent⟩
  intro n hn
  obtain ⟨draft, hdraft⟩ := Option.isSome_iff_exists.mp (Table.isSome_find?_iff.mpr
    (h.isWired.programs n.id (mem_ids_iff.mpr ⟨n, find?_of_mem hn⟩)))
  obtain ⟨own, hown, hcodes⟩ := (h.sound.codes h.generated).2 n hn draft hdraft
  obtain ⟨i, c, hi, hc, hloop, hinlets⟩ := hcodes.loops
  obtain ⟨_, -, rfl⟩ := Plan.contextOf_eq_ok_iff.mp hc
  rw [h.isFor.registry_eq] at hi
  rw [← h.nodes_eq] at hown
  exact ⟨own, i, _, hown, hi, rfl, hloop, hinlets⟩

/-- The lamp takes note of a new level in the function that computes the level. -/
theorem Patch.places_of_compile_dimmer :
  Dimmer.patch.validate = .ok () ∧ Dimmer.patch.Unrepeated ∧ ∃ program names,
    Dimmer.patch.compile Dimmer.registry Dimmer.settings = .ok (program, names) ∧
    ∃ f ∈ program.cold, [Piece.loop "level", .inlet ⟨"lamp", 0⟩].Sublist
      (program.coldPieces (Dimmer.patch.trim program.order) f)
  := by
  have honce : Dimmer.patch.Unrepeated := by decide
  obtain ⟨program, names, hcompile, hhot, f, hf, hnodes⟩ := Dimmer.exists_compile
  obtain ⟨horder, hanswers, hplaces⟩ := Patch.places_of_compile Dimmer.valid honce hcompile
  have horder : ["knob", "level", "lamp"] = program.order :=
    Except.ok.inj (Dimmer.participants_eq.symm.trans horder)
  refine ⟨Dimmer.valid, honce, program, names, hcompile, f, hf, ?_⟩
  rw [← horder] at hanswers hplaces ⊢
  have hcoded : 0 ∈ program.codedInlets "lamp" := by
    obtain ⟨own, i, c, hown, hi, -, -, hinlets⟩ := hanswers Dimmer.lamp (by decide)
    obtain rfl := Option.some.inj hi
    rw [Program.codedInlets, show program.nodes.find? "lamp" = _ from hown, Option.elim_some,
      ← Except.ok.inj hinlets]
    decide
  have hrefreshes :
      program.Refreshes (Dimmer.patch.trim ["knob", "level", "lamp"]) f ⟨"lamp", 0⟩ := by
    rw [Program.Refreshes, hhot, hnodes]
    decide
  apply (hplaces.cold_before f hf "level" (by rw [hnodes]; decide)).2
  apply (hplaces.mem_last_iff f hf _).mpr ⟨hcoded, hrefreshes⟩

end AudioPatch
