import AudioPatch.Proofs.Patch.MessageWalk
import AudioPatch.Proofs.Patch.Trim

/-!
# Walks in two patches

A walk asks a patch only about the nodes that it comes to, so it goes the same way in two patches
that answer alike about those. Patches with the same nodes do, whatever slots they are in, and so
do a patch and what is left of it when it is trimmed to the nodes that take part.
-/

namespace AudioPatch

open Relation

namespace Patch

variable {p q : Patch} {id : NodeId}

theorem node_bind_const {α : Type} (x : Except PatchError α) :
  (p.node id >>= fun _ => x) = if p.contains id then x else .error (.unknownNode id)
  := by
  rw [node, Store.node, store_find?]
  by_cases hid : id ∈ p.ids
  · obtain ⟨n, hn⟩ := mem_ids_iff.mp hid
    rw [hn, if_pos (contains_iff.mpr hid)]
    rfl
  · have hnone : p.find? id = none := by
      apply Option.eq_none_iff_forall_ne_some.mpr
      intro n hn
      apply hid (mem_ids_iff.mpr ⟨n, hn⟩)
    rw [hnone, if_neg fun hcontains => hid (contains_iff.mp hcontains)]
    rfl

end Patch

/-! ### Walks up the signals -/

namespace SignalWalk

variable {p q : Patch} {within : NodeId → Prop} {descend : NodeId → Bool} {w : SignalWalk}

/-- Two patches answer a walk up the signals alike about nodes of a set, which the walk does not
leave. -/
structure Agree (p q : Patch) (within : NodeId → Prop) : Prop where
  contains_eq : ∀ id, within id → p.contains id = q.contains id
  enter_eq : ∀ id, within id → Frame.enter p id = Frame.enter q id
  stays : ∀ id, within id → ∀ f, Frame.enter p id = .ok f → ∀ s ∈ f.pending, within s

theorem run_of_error {n s : NodeId} {rest : List NodeId} {path : List Frame} {e : PatchError}
    (hs : ¬ w.marked.contains s) (hdescend : descend s) (he : Frame.enter p s = .error e) :
  run p descend (⟨n, s :: rest⟩ :: path) w = .error e
  := by
  rw [run, dif_neg hs, if_pos hdescend]
  split
  · rename_i e' he'
    rw [← Except.error.inj (he.symm.trans he')]
  · rename_i f hf
    cases he.symm.trans hf

/-- The loop goes on in the same way. -/
theorem Agree.run_eq (h : Agree p q within) {path : List Frame}
    (hpath : ∀ f ∈ path, ∀ s ∈ f.pending, within s) :
  run p descend path w = run q descend path w
  := by
  induction path, w using run.induct p descend with
  | case1 w => rw [run, run]
  | case2 w n path ih =>
      have hq : run q descend (⟨n, []⟩ :: path) w =
          run q descend path { w with finished := n :: w.finished } := by rw [run]
      rw [run, hq, ih (List.forall_mem_cons.mp hpath).2]
  | case3 w n s rest path hs ih =>
      have hq : run q descend (⟨n, s :: rest⟩ :: path) w = run q descend (⟨n, rest⟩ :: path) w := by
        rw [run, dif_pos hs]
      simp only [List.forall_mem_cons] at hpath ih
      rw [run, dif_pos hs, hq, ih ⟨hpath.1.2, hpath.2⟩]
  | case4 w n s rest path hs hdescend e he =>
      simp only [List.forall_mem_cons] at hpath
      have he' := he
      rw [h.enter_eq s hpath.1.1] at he'
      rw [run_of_error hs hdescend he, run_of_error hs hdescend he']
  | case5 w n s rest path hs hdescend f hf _ ih =>
      simp only [List.forall_mem_cons] at hpath ih
      have hf' := hf
      rw [h.enter_eq s hpath.1.1] at hf'
      rw [run_of_enter hs hdescend hf, run_of_enter hs hdescend hf']
      apply ih ⟨h.stays s hpath.1.1 f hf, hpath.1.2, hpath.2⟩
  | case6 w n s rest path hs hdescend ih =>
      have hq : run q descend (⟨n, s :: rest⟩ :: path) w =
          run q descend (⟨n, rest⟩ :: path) { w with asked := s :: w.asked } := by
        rw [run, dif_neg hs, if_neg hdescend]
      simp only [List.forall_mem_cons] at hpath ih
      rw [run, dif_neg hs, if_neg hdescend, hq, ih ⟨hpath.1.2, hpath.2⟩]

theorem Agree.visit_eq (h : Agree p q within) {seed : NodeId} (hseed : within seed) :
  visit p descend w seed = visit q descend w seed
  := by
  rw [visit, visit, Patch.node_bind_const, Patch.node_bind_const, h.contains_eq seed hseed,
    ← h.enter_eq seed hseed]
  cases hf : Frame.enter p seed with
  | error e => rfl
  | ok f =>
      have hrun : run p descend [f] { w with marked := seed :: w.marked } =
          run q descend [f] { w with marked := seed :: w.marked } := by
        apply h.run_eq
        simpa using h.stays seed hseed f hf
      rw [ok_bind, ok_bind, hrun]

/-- A walk up from nodes of the set goes the same way. -/
theorem Agree.signalWalk_eq (h : Agree p q within) {seeds : List NodeId}
    (hseeds : ∀ s ∈ seeds, within s) :
  p.signalWalk seeds descend = q.signalWalk seeds descend
  := by
  have hwalk : ∀ w, seeds.foldlM (visit p descend) w = seeds.foldlM (visit q descend) w := by
    induction seeds with
    | nil => exact fun _ => rfl
    | cons seed rest ih =>
        obtain ⟨hseed, hrest⟩ := List.forall_mem_cons.mp hseeds
        intro w
        rw [List.foldlM_cons, List.foldlM_cons, h.visit_eq hseed]
        congr 1
        funext w'
        apply ih hrest
  apply hwalk

theorem Agree.signalOrder_eq (h : Agree p q within) {seeds : List NodeId}
    (hseeds : ∀ s ∈ seeds, within s) :
  p.signalOrder seeds descend = q.signalOrder seeds descend
  := by
  rw [Patch.signalOrder, Patch.signalOrder, h.signalWalk_eq hseeds]

end SignalWalk

/-! ### Walks down the messages -/

namespace MessageWalk

variable {p q : Patch} {within : NodeId → Prop} {stack reached : List NodeId}

/-- Two patches answer a walk down the messages alike about nodes of a set, which the walk does
not leave. -/
structure Agree (p q : Patch) (within : NodeId → Prop) : Prop where
  receivers_eq : ∀ id, within id → p.receivers id = q.receivers id
  stays : ∀ id, within id → ∀ sinks, p.receivers id = .ok sinks → ∀ s ∈ sinks, within s

theorem Agree.run_eq (h : Agree p q within) (hstack : ∀ id ∈ stack, within id) :
  run p stack reached = run q stack reached
  := by
  induction stack, reached using run.induct p with
  | case1 reached => rw [run, run]
  | case2 reached id stack hid ih =>
      have hq : run q (id :: stack) reached = run q stack reached := by rw [run, dif_pos hid]
      rw [run, dif_pos hid, hq, ih (List.forall_mem_cons.mp hstack).2]
  | case3 reached id stack hid e he =>
      obtain ⟨hhere, -⟩ := List.forall_mem_cons.mp hstack
      have he' := he
      rw [h.receivers_eq id hhere] at he'
      rw [run_of_error hid he, run_of_error hid he']
  | case4 reached id stack hid sinks hsinks _ ih =>
      obtain ⟨hhere, hrest⟩ := List.forall_mem_cons.mp hstack
      have hsinks' := hsinks
      rw [h.receivers_eq id hhere] at hsinks'
      rw [run_of_receivers hid hsinks, run_of_receivers hid hsinks']
      apply ih (List.forall_mem_append.mpr ⟨h.stays id hhere sinks hsinks, hrest⟩)

/-- A walk down from nodes of the set goes the same way. -/
theorem Agree.messageOrder_eq (h : Agree p q within) {seeds : List NodeId}
    (hseeds : ∀ s ∈ seeds, within s) :
  p.messageOrder seeds = q.messageOrder seeds
  := by
  rw [MessageWalk.messageOrder_eq, MessageWalk.messageOrder_eq, h.run_eq hseeds]

end MessageWalk

/-! ### The same nodes -/

/-- Two stores have the same nodes and find the same. -/
structure Store.Same {σ κ τ ι : Type} [Store σ κ] [Store τ ι] (s : σ) (t : τ) : Prop where
  nodes_eq : nodes s = nodes t
  contains_eq : contains s = contains t
  find?_eq : find? s = find? t

/-- Two graphs are in addition walked through alike. -/
structure Graph.Same {γ κ δ ι : Type} [Graph γ κ] [Graph δ ι] (g : γ) (g' : δ) : Prop
    extends Store.Same g g' where
  signalOrder_eq : signalOrder g = signalOrder g'
  messageOrder_eq : messageOrder g = messageOrder g'

namespace Store.Same

variable {σ κ τ ι : Type} [Store σ κ] [Store τ ι] {s : σ} {t : τ} (h : Store.Same s t)

include h

theorem node_eq :
  node s = node t
  := by
  funext id
  rw [node, node, h.find?_eq]

theorem select_eq :
  select s = select t
  := by
  funext ids
  rw [select, select, h.node_eq]

theorem require_eq :
  require s = require t
  := by
  funext id
  rw [require, require, h.contains_eq]

theorem pulling_eq :
  pulling s = pulling t
  := by
  rw [pulling, pulling, h.nodes_eq]

theorem pushing_eq :
  pushing s = pushing t
  := by
  rw [pushing, pushing, h.nodes_eq]

theorem edges_eq :
  edges s = edges t
  := by
  rw [edges, edges, h.nodes_eq]

theorem validate_eq :
  validate s = validate t
  := by
  have hsink : checkSink s = checkSink t := by
    funext kind e
    rw [checkSink, checkSink, h.find?_eq]
  have hsource : checkSource s = checkSource t := by
    funext e
    rw [checkSource, checkSource, h.find?_eq]
  have hcheck : checkNode s = checkNode t := by
    funext n
    rw [checkNode, checkNode, checkSinks, checkSinks, hsink, checkSources, checkSources, hsource]
  rw [validate, validate, hcheck, h.nodes_eq]

end Store.Same

namespace Graph.Same

variable {γ κ δ ι : Type} [Graph γ κ] [Graph δ ι] {g : γ} {g' : δ} (h : Graph.Same g g')

include h

theorem symm :
  Graph.Same g' g
  := ⟨⟨h.nodes_eq.symm, h.contains_eq.symm, h.find?_eq.symm⟩, h.signalOrder_eq.symm,
    h.messageOrder_eq.symm⟩

theorem trans {ε μ : Type} [Graph ε μ] {g'' : ε} (h' : Graph.Same g' g'') :
  Graph.Same g g''
  := ⟨⟨h.nodes_eq.trans h'.nodes_eq, h.contains_eq.trans h'.contains_eq,
    h.find?_eq.trans h'.find?_eq⟩, h.signalOrder_eq.trans h'.signalOrder_eq,
    h.messageOrder_eq.trans h'.messageOrder_eq⟩

theorem participants_eq :
  participants g = participants g'
  := by
  have hseeds : messageSeeds g = messageSeeds g' := by
    funext callers
    rw [messageSeeds, messageSeeds, h.pushing_eq]
  funext callers
  rw [participants, participants, h.require_eq, h.messageOrder_eq, hseeds, h.signalOrder_eq,
    h.pulling_eq]

end Graph.Same

namespace Patch

section SameNodes

variable {p q : Patch} (h : p.nodes = q.nodes)

include h

theorem store_same_of_nodes :
  Store.Same p q
  := by
  constructor
  case nodes_eq => exact h
  case contains_eq =>
    funext id
    rw [store_contains, store_contains, contains, contains, h]
  case find?_eq =>
    funext id
    rw [store_find?, store_find?, find?, find?, h]

theorem signalWalk_congr :
  p.signalWalk = q.signalWalk
  := by
  have hsame := store_same_of_nodes h
  have hnode : p.node = q.node := hsame.node_eq
  have hselect : p.select = q.select := hsame.select_eq
  have hagree : SignalWalk.Agree p q fun _ => True := by
    constructor
    case contains_eq => exact fun id _ => congrFun hsame.contains_eq id
    case enter_eq =>
      intro id _
      rw [Frame.enter, Frame.enter, hnode, hselect]
    case stays => simp
  funext seeds descend
  apply hagree.signalWalk_eq fun _ _ => trivial

/-- In what order a patch is walked through depends on its nodes only. -/
theorem same_of_nodes :
  Graph.Same p q
  := by
  have hsame := store_same_of_nodes h
  constructor
  case toSame => exact hsame
  case signalOrder_eq =>
    funext seeds descend
    show p.signalOrder seeds descend = q.signalOrder seeds descend
    rw [signalOrder, signalOrder, signalWalk_congr h]
  case messageOrder_eq =>
    have hagree : MessageWalk.Agree p q fun _ => True := by
      constructor
      case receivers_eq =>
        intro id _
        have hnode : p.node = q.node := hsame.node_eq
        have hselect : p.select = q.select := hsame.select_eq
        rw [receivers, receivers, hnode, hselect]
      case stays => simp
    funext seeds
    apply hagree.messageOrder_eq fun _ _ => trivial

end SameNodes

/-! ### What is left of a patch -/

variable {p : Patch} {ids : List NodeId}

/-- A walk up from pulled nodes goes the same way if the pulled nodes are kept. -/
theorem Coherent.agree_signals (hp : p.Coherent) (hids : ∀ id, p.Pulled id → id ∈ ids) :
  SignalWalk.Agree p (p.trim ids) p.Pulled
  := by
  have hfed : ∀ {id s}, p.Pulled id → p.Feeds s id → p.Pulled s := by
    rintro id s ⟨b, hb, hup⟩ hfeeds
    exact ⟨b, hb, ReflTransGen.head hfeeds hup⟩
  have hkept : ∀ {id}, p.Pulled id → id ∈ (p.trim ids).ids := fun {id} hid =>
    mem_ids_trim_iff.mpr ⟨hid.mem_ids hp, hids id hid⟩
  constructor
  case contains_eq =>
    intro id hid
    rw [contains_iff.mpr (hid.mem_ids hp), contains_iff.mpr (hkept hid)]
  case enter_eq =>
    intro id hid
    obtain ⟨n, hn, henter⟩ := Frame.exists_enter hp (hid.mem_ids hp)
    obtain ⟨m, hm, henter'⟩ := Frame.exists_enter (hp.trim ids) (hkept hid)
    obtain ⟨n', hn', -, rfl⟩ := find?_trim_eq_some_iff.mp hm
    obtain rfl := Option.some.inj (hn.symm.trans hn')
    rw [henter, henter', Node.signalSources_restrict, List.filter_eq_self.mpr]
    intro s hs
    apply List.contains_iff_mem.mpr (hids s (hfed hid ⟨n, hn, hs⟩))
  case stays =>
    intro id hid f hf s hs
    obtain ⟨n, hn, henter⟩ := Frame.exists_enter hp (hid.mem_ids hp)
    obtain rfl := Except.ok.inj (henter.symm.trans hf)
    apply hfed hid ⟨n, hn, hs⟩

/-- A walk down goes the same way if what it reaches is kept. -/
theorem Coherent.agree_messages (hp : p.Coherent) {seeds : List NodeId}
    (hseeds : ∀ s ∈ seeds, s ∈ p.ids) (hids : ∀ id, p.Heard seeds id → id ∈ ids) :
  MessageWalk.Agree p (p.trim ids) (p.Heard seeds)
  := by
  have hsent : ∀ {id s}, p.Heard seeds id → p.Sends id s → p.Heard seeds s := by
    rintro id s ⟨seed, hseed, hreach⟩ hsends
    exact ⟨seed, hseed, hreach.tail hsends⟩
  constructor
  case receivers_eq =>
    intro id hid
    have hkept := mem_ids_trim_iff.mpr ⟨hid.mem_ids hp hseeds, hids id hid⟩
    obtain ⟨n, hn, hsinks⟩ := exists_receivers hp (hid.mem_ids hp hseeds)
    obtain ⟨m, hm, hsinks'⟩ := exists_receivers (hp.trim ids) hkept
    obtain ⟨n', hn', -, rfl⟩ := find?_trim_eq_some_iff.mp hm
    obtain rfl := Option.some.inj (hn.symm.trans hn')
    rw [hsinks, hsinks', Node.messageSinks_restrict, List.filter_eq_self.mpr]
    intro s hs
    apply List.contains_iff_mem.mpr (hids s (hsent hid ⟨n, hn, hs⟩))
  case stays =>
    intro id hid sinks hsinks s hs
    obtain ⟨n, hn, hsinks'⟩ := exists_receivers hp (hid.mem_ids hp hseeds)
    obtain rfl := Except.ok.inj (hsinks'.symm.trans hsinks)
    apply hsent hid ⟨n, hn, hs⟩

/-- The nodes that take part also take part in what is left if the others are trimmed away, and
in the same order. -/
theorem Coherent.participants_trim (hp : p.Coherent) {callers order : List NodeId}
    (hcallers : ∀ c ∈ callers, c ∈ p.ids) (horder : p.participants callers = .ok order) :
  (p.trim order).participants callers = .ok order
  := by
  have hparts := (meets_participants hp hcallers).of_eq_ok horder
  have hseeds := mem_ids_of_messageSeeds hcallers
  have hheard : ∀ id, p.Heard (p.messageSeeds callers) id → id ∈ order :=
    fun id hid => (hparts.mem_iff id).mpr (.inl hid)
  have hpulled : ∀ id, p.Pulled id → id ∈ order := fun id hid => (hparts.mem_iff id).mpr (.inr hid)
  have hpulling : (p.trim order).pulling = p.pulling := by
    rw [pulling, Store.pulling, store_nodes, ids_filter_trim p order fun _ _ => rfl, ← store_nodes,
      ← Store.pulling, store_pulling, List.filter_eq_self.mpr]
    intro id hid
    apply List.contains_iff_mem.mpr (hpulled id ⟨id, hid, ReflTransGen.refl⟩)
  have hpushing : (p.trim order).pushing = p.pushing := by
    rw [pushing, Store.pushing, store_nodes, ids_filter_trim p order fun _ _ => rfl, ← store_nodes,
      ← Store.pushing, store_pushing, List.filter_eq_self.mpr]
    intro id hid
    apply List.contains_iff_mem.mpr
    exact hheard id ⟨id, mem_messageSeeds_iff.mpr (.inl hid), ReflTransGen.refl⟩
  have hkept : ∀ c ∈ callers, c ∈ (p.trim order).ids := fun c hc =>
    mem_ids_trim_iff.mpr ⟨hcallers c hc, hparts.mem_of_caller hc⟩
  have hsame : (p.trim order).messageSeeds callers = p.messageSeeds callers := by
    rw [messageSeeds_eq, hpushing, messageSeeds_eq]
  rw [participants_of_known hcallers] at horder
  rw [participants_of_known hkept, hsame,
    ← (hp.agree_messages hseeds hheard).messageOrder_eq fun s hs => ⟨s, hs, ReflTransGen.refl⟩,
    hpulling,
    ← (hp.agree_signals hpulled).signalOrder_eq fun s hs => ⟨s, hs, ReflTransGen.refl⟩]
  apply horder

end Patch

end AudioPatch
