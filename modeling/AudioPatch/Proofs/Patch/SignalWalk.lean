import AudioPatch.Patch.SignalWalk
import AudioPatch.Proofs.Patch.SignalFlow

/-!
# What a walk up the signals finds

A walk lists the nodes that it gets to from its seeds, each once, and every node after its
sources, except for sources that it gets to the node from (`IsSignalOrder`). So out of order
there are only nodes on feedback loops.

The walk is a loop over the path of nodes that it has entered and not finished. What the
loop keeps is `SignalWalk.Inv`: a node on the path is reached from all the nodes below it.
-/

namespace AudioPatch

open Relation

/-- What the nodes listed by a walk are. -/
structure Patch.IsSignalOrder (p : Patch) (seeds : List NodeId) (descend : NodeId → Bool)
    (order : List NodeId) : Prop where
  /-- Each node is listed once. -/
  nodup : order.Nodup
  /-- The seeds are listed and all that is reached from them. -/
  mem_iff : ∀ id, id ∈ order ↔ ∃ seed ∈ seeds, p.Reaches descend seed id
  /-- A source comes before its consumer, unless the consumer is reached from it. -/
  before : ∀ c ∈ order, ∀ s, p.Feeds s c → descend s → [s, c].Sublist order ∨ p.Reaches descend s c

/-! ### Entering nodes -/

theorem Frame.node_of_enter {p : Patch} {id : NodeId} {f : Frame} (h : Frame.enter p id = .ok f) :
  f.node = id
  := by
  rw [Frame.enter] at h
  split at h
  · cases h
  · split at h
    · cases h
    · cases h
      rfl

/-- In a coherent patch every node can be entered. -/
theorem Frame.exists_enter {p : Patch} (hp : p.Coherent) {id : NodeId} (hid : id ∈ p.ids) :
  ∃ n, p.find? id = some n ∧ Frame.enter p id = .ok ⟨id, n.signalSources⟩
  := by
  obtain ⟨n, hn⟩ := Patch.mem_ids_iff.mp hid
  have hsources : ∀ s ∈ n.signalSources, s ∈ p.ids := fun s hs =>
    Patch.Feeds.mem_ids_left hp ⟨n, hn, hs⟩
  obtain ⟨nodes, hnodes, -⟩ := Meets.never_iff.mp (Patch.meets_select hsources)
  use n, hn
  simp only [Frame.enter, Patch.node_eq_ok_iff.mpr hn, hnodes]

namespace SignalWalk

open Patch

variable {p : Patch} {descend : NodeId → Bool} {seeds : List NodeId}

/-- Every finished node has its sources among the nodes finished before, except for those
that it is reached from. The latest node is first. -/
def Settled (p : Patch) (descend : NodeId → Bool) : List NodeId → Prop
  | [] => True
  | c :: earlier =>
      (∀ s, p.Feeds s c → descend s → s ∈ earlier ∨ p.Reaches descend s c) ∧
        Settled p descend earlier

/-- What the loop keeps. -/
structure Inv (p : Patch) (descend : NodeId → Bool) (seeds : List NodeId) (path : List Frame)
    (w : SignalWalk) : Prop where
  /-- No node is on the path or finished twice. -/
  nodup : (path.map Frame.node ++ w.finished).Nodup
  /-- The entered nodes are those on the path and the finished ones. -/
  marked : ∀ id, id ∈ w.marked ↔ id ∈ path.map Frame.node ∨ id ∈ w.finished
  /-- The sources of a node on the path that are not pending have been dealt with. -/
  looked : ∀ f ∈ path, ∃ n done, p.find? f.node = some n ∧ n.signalSources = done ++ f.pending ∧
    ∀ s ∈ done, descend s → s ∈ w.marked
  /-- A node on the path is reached from those below it. -/
  path : path.Pairwise fun f g => p.Reaches descend g.node f.node
  /-- All entered nodes are reached from a seed. -/
  origin : ∀ id ∈ w.marked, ∃ seed ∈ seeds, p.Reaches descend seed id
  /-- The sources of a finished node have been entered. -/
  closed : ∀ c ∈ w.finished, ∀ s, p.Feeds s c → descend s → s ∈ w.marked
  /-- The finished nodes are in order. -/
  settled : Settled p descend w.finished

/-! ### The rounds of the loop -/

variable {w : SignalWalk} {path : List Frame} {n s : NodeId} {rest : List NodeId}

/-- Before the walk nothing has been entered. -/
theorem Inv.start :
  Inv p descend [] [] {}
  := by
  constructor
  all_goals simp [Settled]

/-- What the walk has asked plays no part. -/
theorem Inv.ask (h : Inv p descend seeds path w) (asked : List NodeId) :
  Inv p descend seeds path { w with asked := asked }
  := ⟨h.nodup, h.marked, h.looked, h.path, h.origin, h.closed, h.settled⟩

/-- A node without pending sources is finished. -/
theorem Inv.finish (h : Inv p descend seeds (⟨n, []⟩ :: path) w) :
  Inv p descend seeds path { w with finished := n :: w.finished }
  := by
  obtain ⟨m, done, hm, hdone, hlooked⟩ := h.looked _ List.mem_cons_self
  obtain ⟨hbelow, hpath⟩ := List.pairwise_cons.mp h.path
  have hentered : ∀ s, p.Feeds s n → descend s → s ∈ w.marked := by
    rintro s ⟨m', hm', hs⟩
    obtain rfl := Option.some.inj (hm.symm.trans hm')
    rw [hdone, List.append_nil] at hs
    apply hlooked s hs
  constructor
  · apply List.Perm.nodup _ h.nodup
    apply List.perm_middle.symm
  · intro id
    rw [h.marked, List.map_cons, List.mem_cons, List.mem_cons]
    tauto
  · intro f hf
    apply h.looked f (List.mem_cons_of_mem _ hf)
  · apply hpath
  · apply h.origin
  · intro c hc
    rcases List.mem_cons.mp hc with rfl | hc
    · apply hentered
    · apply h.closed c hc
  · constructor
    · intro s hs hdescend
      rcases (h.marked s).mp (hentered s hs hdescend) with honPath | hfinished
      · -- A source that is not finished is on the path, so the node is reached from it.
        right
        rcases List.mem_cons.mp honPath with rfl | hbelowPath
        · apply ReflTransGen.refl
        · obtain ⟨g, hg, rfl⟩ := List.mem_map.mp hbelowPath
          apply hbelow g hg
      · exact .inl hfinished
    · apply h.settled

/-- A source of a node on the path is passed over that has been entered, or may not be. -/
theorem Inv.pass (above : List Frame)
    (h : Inv p descend seeds (above ++ ⟨n, s :: rest⟩ :: path) w)
    (hs : descend s → s ∈ w.marked) :
  Inv p descend seeds (above ++ ⟨n, rest⟩ :: path) w
  := by
  have hnodes : (above ++ ⟨n, rest⟩ :: path).map Frame.node
      = (above ++ ⟨n, s :: rest⟩ :: path).map Frame.node := by
    simp
  constructor
  · rw [hnodes]
    apply h.nodup
  · rw [hnodes]
    apply h.marked
  · intro f hf
    by_cases hmem : f ∈ above ++ ⟨n, s :: rest⟩ :: path
    · apply h.looked f hmem
    · obtain rfl : f = ⟨n, rest⟩ := by
        simp only [List.mem_append, List.mem_cons, not_or] at hf hmem
        tauto
      obtain ⟨m, done, hm, hdone, hlooked⟩ := h.looked ⟨n, s :: rest⟩ (by simp)
      refine ⟨m, done ++ [s], hm, ?_, ?_⟩
      · rw [hdone, List.append_assoc]
        rfl
      · intro a ha
        rcases List.mem_append.mp ha with ha | ha
        · apply hlooked a ha
        · obtain rfl := List.mem_singleton.mp ha
          apply hs
  · have hpath := h.path
    rw [List.pairwise_append, List.pairwise_cons] at hpath ⊢
    simpa using hpath
  · apply h.origin
  · apply h.closed
  · apply h.settled

/-- A node that is new to the walk goes onto the path, if all nodes on the path and a seed
lead to it. -/
theorem Inv.push (h : Inv p descend seeds path w) {m : Node} (hm : p.find? s = some m)
    (hs : s ∉ w.marked) (hpath : ∀ g ∈ path, p.Reaches descend g.node s)
    (hseed : ∃ seed ∈ seeds, p.Reaches descend seed s) :
  Inv p descend seeds (⟨s, m.signalSources⟩ :: path) { w with marked := s :: w.marked }
  := by
  constructor
  · apply List.nodup_cons.mpr
    constructor
    · intro hmem
      apply hs
      apply (h.marked s).mpr (List.mem_append.mp hmem)
    · apply h.nodup
  · intro id
    rw [List.map_cons, List.mem_cons, List.mem_cons, h.marked, or_assoc]
  · intro f hf
    rcases List.mem_cons.mp hf with rfl | hf
    · exact ⟨m, [], hm, rfl, by simp⟩
    · obtain ⟨m', done, hm', hdone, hlooked⟩ := h.looked f hf
      refine ⟨m', done, hm', hdone, ?_⟩
      intro a ha hdescend
      apply List.mem_cons_of_mem _ (hlooked a ha hdescend)
  · apply List.pairwise_cons.mpr ⟨hpath, h.path⟩
  · intro id hid
    rcases List.mem_cons.mp hid with rfl | hid
    · apply hseed
    · apply h.origin id hid
  · intro c hc a ha hdescend
    apply List.mem_cons_of_mem _ (h.closed c hc a ha hdescend)
  · apply h.settled

/-- A pending source feeds its node. -/
theorem Inv.feeds (h : Inv p descend seeds (⟨n, s :: rest⟩ :: path) w) :
  p.Feeds s n
  := by
  obtain ⟨m, done, hm, hdone, -⟩ := h.looked _ List.mem_cons_self
  use m, hm
  rw [hdone]
  simp

/-- A pending source is entered. -/
theorem Inv.enter (h : Inv p descend seeds (⟨n, s :: rest⟩ :: path) w) {m : Node}
    (hm : p.find? s = some m) (hs : s ∉ w.marked) (hdescend : descend s) :
  Inv p descend seeds (⟨s, m.signalSources⟩ :: ⟨n, rest⟩ :: path)
    { w with marked := s :: w.marked }
  := by
  have hstep : p.StepsUp descend n s := ⟨h.feeds, hdescend⟩
  have hnpath : ∀ g ∈ (⟨n, s :: rest⟩ :: path : List Frame), p.Reaches descend g.node s := by
    intro g hg
    rcases List.mem_cons.mp hg with rfl | hg
    · apply ReflTransGen.single hstep
    · apply ReflTransGen.tail _ hstep
      apply (List.pairwise_cons.mp h.path).1 g hg
  have hn : n ∈ w.marked := (h.marked n).mpr (.inl List.mem_cons_self)
  obtain ⟨seed, hseed, hreach⟩ := h.origin n hn
  have hpushed := h.push hm hs hnpath ⟨seed, hseed, hreach.tail hstep⟩
  apply hpushed.pass [_]
  intro _
  apply List.mem_cons_self

/-! ### Whole walks -/

theorem run_of_enter {f : Frame} (hs : ¬ w.marked.contains s) (hdescend : descend s)
    (hf : Frame.enter p s = .ok f) :
  run p descend (⟨n, s :: rest⟩ :: path) w
    = run p descend (f :: ⟨n, rest⟩ :: path)
        { w with marked := s :: w.marked, asked := s :: w.asked }
  := by
  rw [run, dif_neg hs, if_pos hdescend]
  split
  · rename_i e he
    rw [hf] at he
    cases he
  · rename_i g hg
    rw [hf] at hg
    cases hg
    rfl

/-- In a coherent patch the loop comes to an end with every node on the path finished. -/
theorem meets_run (hp : p.Coherent) (h : Inv p descend seeds path w) :
  Meets (run p descend path w)
    (fun w' => Inv p descend seeds [] w' ∧ ∀ id ∈ w.marked, id ∈ w'.marked) (fun _ => False)
  := by
  induction path, w using run.induct p descend with
  | case1 w =>
      rw [run]
      exact ⟨h, fun _ hid => hid⟩
  | case2 w n path ih =>
      rw [run]
      apply ih h.finish
  | case3 w n s rest path hs ih =>
      rw [run, dif_pos hs]
      apply ih (h.pass [] fun _ => List.contains_iff_mem.mp hs)
  | case4 w n s rest path hs hdescend e he =>
      obtain ⟨m, -, henter⟩ := Frame.exists_enter hp (h.feeds.mem_ids_left hp)
      rw [henter] at he
      cases he
  | case5 w n s rest path hs hdescend f hf _ ih =>
      obtain ⟨m, hm, henter⟩ := Frame.exists_enter hp (h.feeds.mem_ids_left hp)
      obtain rfl := Except.ok.inj (henter.symm.trans hf)
      rw [run_of_enter hs hdescend hf]
      have hnew : s ∉ w.marked := fun hmem => hs (List.contains_iff_mem.mpr hmem)
      apply (ih ((h.enter hm hnew hdescend).ask _)).imp_good
      rintro w' ⟨hinv, hgrows⟩
      exact ⟨hinv, fun id hid => hgrows id (List.mem_cons_of_mem s hid)⟩
  | case6 w n s rest path hs hdescend ih =>
      rw [run, dif_neg hs, if_neg hdescend]
      apply ih ((h.pass [] fun hd => absurd hd hdescend).ask _)

/-- In a coherent patch a walk goes on from any node of the patch. -/
theorem meets_visit (hp : p.Coherent) (h : Inv p descend seeds [] w) (hs : s ∈ p.ids) :
  Meets (visit p descend w s)
    (fun w' => Inv p descend (seeds ++ [s]) [] w' ∧ ∀ id, id = s ∨ id ∈ w.marked → id ∈ w'.marked)
    (fun _ => False)
  := by
  obtain ⟨n, hn, henter⟩ := Frame.exists_enter hp hs
  have hmore : Inv p descend (seeds ++ [s]) [] w := by
    refine ⟨h.nodup, h.marked, h.looked, h.path, ?_, h.closed, h.settled⟩
    intro id hid
    obtain ⟨seed, hseed, hreach⟩ := h.origin id hid
    exact ⟨seed, List.mem_append_left _ hseed, hreach⟩
  rw [visit, node_eq_ok_iff.mpr hn]
  by_cases hmarked : w.marked.contains s
  · simp only [hmarked]
    refine ⟨hmore, ?_⟩
    rintro id (rfl | hid)
    · apply List.contains_iff_mem.mp hmarked
    · apply hid
  · simp only [hmarked, henter]
    have hnew : s ∉ w.marked := fun hmem => hmarked (List.contains_iff_mem.mpr hmem)
    have hpushed := hmore.push hn hnew (by simp) ⟨s, by simp, ReflTransGen.refl⟩
    apply (meets_run hp hpushed).imp_good
    rintro w' ⟨hinv, hgrows⟩
    refine ⟨hinv, ?_⟩
    rintro id (rfl | hid)
    · apply hgrows id List.mem_cons_self
    · apply hgrows id (List.mem_cons_of_mem s hid)

/-- In the order of finishing, a source comes before its consumer, unless the consumer is
reached from it. -/
theorem Settled.before {finished : List NodeId} (h : Settled p descend finished) {c : NodeId}
    (hc : c ∈ finished) (hs : p.Feeds s c) (hdescend : descend s) :
  [s, c].Sublist finished.reverse ∨ p.Reaches descend s c
  := by
  induction finished with
  | nil => cases hc
  | cons a earlier ih =>
      rw [List.reverse_cons]
      rcases List.mem_cons.mp hc with rfl | hc
      · apply (h.1 s hs hdescend).imp_left
        intro hmem
        have hsource : [s].Sublist earlier.reverse :=
          List.singleton_sublist.mpr (List.mem_reverse.mpr hmem)
        apply hsource.append (List.Sublist.refl [c])
      · apply (ih h.2 hc).imp_left
        intro hsub
        apply hsub.trans
        apply List.sublist_append_left

/-- The finished nodes of a walk that has come to an end, the first one first. -/
theorem Inv.isSignalOrder (h : Inv p descend seeds [] w) (hseeds : ∀ s ∈ seeds, s ∈ w.marked) :
  p.IsSignalOrder seeds descend w.order
  := by
  have hmarked : ∀ id, id ∈ w.marked ↔ id ∈ w.finished := by simpa using h.marked
  constructor
  · apply List.nodup_reverse.mpr
    simpa using h.nodup
  · intro id
    rw [order, List.mem_reverse, ← hmarked]
    constructor
    · apply h.origin id
    · rintro ⟨seed, hseed, hreach⟩
      induction hreach with
      | refl => apply hseeds seed hseed
      | tail _ hstep ih => apply h.closed _ ((hmarked _).mp ih) _ hstep.1 hstep.2
  · intro c hc s hs hdescend
    apply h.settled.before (List.mem_reverse.mp hc) hs hdescend

end SignalWalk

namespace Patch

/-- In a coherent patch a walk up the signals from nodes of the patch comes to an end, and lists
what it gets to in order. -/
theorem meets_signalOrder {p : Patch} (hp : p.Coherent) {seeds : List NodeId}
    (hseeds : ∀ s ∈ seeds, s ∈ p.ids) (descend : NodeId → Bool) :
  Meets (p.signalOrder seeds descend) (p.IsSignalOrder seeds descend) (fun _ => False)
  := by
  rw [signalOrder, Meets.map_iff, signalWalk]
  have hwalk : Meets (seeds.foldlM (SignalWalk.visit p descend) {})
      (fun w => SignalWalk.Inv p descend seeds [] w ∧ ∀ s ∈ seeds, s ∈ w.marked)
      (fun _ => False) := by
    apply Meets.foldlM
      (fun done w => SignalWalk.Inv p descend done [] w ∧ ∀ s ∈ done, s ∈ w.marked)
    · exact ⟨SignalWalk.Inv.start, by simp⟩
    · rintro done s rest rfl w ⟨hinv, hdone⟩
      apply (SignalWalk.meets_visit hp hinv (hseeds s (by simp))).imp_good
      rintro w' ⟨hinv', hgrows⟩
      refine ⟨hinv', ?_⟩
      intro id hid
      apply hgrows
      rcases List.mem_append.mp hid with hid | hid
      · exact .inr (hdone id hid)
      · exact .inl (List.mem_singleton.mp hid)
  apply hwalk.imp_good
  rintro w ⟨hinv, hmarked⟩
  apply hinv.isSignalOrder hmarked

end Patch

end AudioPatch
