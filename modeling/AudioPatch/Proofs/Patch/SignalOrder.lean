import AudioPatch.Proofs.Patch.SignalWalk
import Mathlib.Data.List.Permutation

/-!
# Walks up the signals from any seeds

A walk fails exactly if one of its seeds is missing (`signalOrder_eq_error_iff`); otherwise it lists
what it gets to, in order. The loop does what a recursion does that enters a node, climbs to
its sources one after the other, and then finishes the node (`SignalWalk.climb`): both list the same
nodes and ask the same questions.

The recursion ends because a node is climbed to once: what falls is the number of nodes that are not
entered, and a climb hands on a walk with no more of them than it got.
-/

namespace AudioPatch

open Relation

/-! ### A patch with a feedback loop -/

namespace Flanger

def tone : Node :=
  { id := "tone", type := "osc~"
    outlets := .ofList [(0, ⟨0, .signal⟩)], sinks := .ofList [(0, [⟨"mix", 0⟩])] }

def sweep : Node :=
  { id := "sweep", type := "osc~"
    outlets := .ofList [(0, ⟨0, .signal⟩)], sinks := .ofList [(0, [⟨"delay", 1⟩])] }

def delay : Node :=
  { id := "delay", type := "delay~"
    inlets := .ofList [(0, ⟨0, .signal⟩), (1, ⟨1, .signal⟩)]
    outlets := .ofList [(0, ⟨0, .signal⟩)]
    sources := .ofList [(0, [⟨"mix", 0⟩]), (1, [⟨"sweep", 0⟩])]
    sinks := .ofList [(0, [⟨"mix", 1⟩])] }

def mix : Node :=
  { id := "mix", type := "+~"
    inlets := .ofList [(0, ⟨0, .signal⟩), (1, ⟨1, .signal⟩)]
    outlets := .ofList [(0, ⟨0, .signal⟩)]
    sources := .ofList [(0, [⟨"tone", 0⟩]), (1, [⟨"delay", 0⟩])]
    sinks := .ofList [(0, [⟨"delay", 0⟩, ⟨"speaker", 0⟩])] }

def speaker : Node :=
  { id := "speaker", type := "dac~", pulls := true
    inlets := .ofList [(0, ⟨0, .signal⟩)], sources := .ofList [(0, [⟨"mix", 0⟩])] }

/-- A tone that is mixed with its own past, which a sweep brings closer and takes away. -/
def patch : Patch := ⟨[some tone, some sweep, some delay, some mix, some speaker], by decide⟩

theorem valid :
  patch.validate = .ok ()
  := rfl

end Flanger

namespace Patch

variable {p : Patch} {descend : NodeId → Bool} {seeds : List NodeId}

/-! ### Failures -/

/-- A walk that comes to an end knows all its seeds. -/
theorem mem_ids_of_signalWalk {w : SignalWalk} (h : p.signalWalk seeds descend = .ok w) :
  ∀ s ∈ seeds, s ∈ p.ids
  := by
  rw [signalWalk] at h
  generalize ({} : SignalWalk) = start at h
  induction seeds generalizing start with
  | nil => simp
  | cons seed rest ih =>
      rw [List.foldlM_cons] at h
      obtain ⟨next, hvisit, hrest⟩ := bind_eq_ok_iff.mp h
      obtain ⟨n, hn, -⟩ := bind_eq_ok_iff.mp hvisit
      apply List.forall_mem_cons.mpr ⟨mem_ids_of_node hn, ih next hrest⟩

/-- In a coherent patch a walk fails exactly if it does not know one of its seeds. -/
theorem signalOrder_eq_error_iff (hp : p.Coherent) :
  (∃ e, p.signalOrder seeds descend = .error e) ↔ ∃ s ∈ seeds, s ∉ p.ids
  := by
  have hknown : (∃ order, p.signalOrder seeds descend = .ok order) ↔ ∀ s ∈ seeds, s ∈ p.ids := by
    constructor
    · rintro ⟨order, horder⟩
      obtain ⟨w, hw, -⟩ := map_eq_ok_iff.mp horder
      apply mem_ids_of_signalWalk hw
    · intro hknown
      obtain ⟨order, horder, -⟩ := Meets.never_iff.mp (meets_signalOrder hp hknown descend)
      use order
  rw [exists_error_iff, hknown]
  simp

/-! ### Successes -/

/-- If a node that may be entered feeds another one and is reached back from it, steps up lead from
the one to the other. -/
theorem transGen_of_reaches {s c : NodeId} (hfeeds : p.Feeds s c) (hdescend : descend s)
    (h : p.Reaches descend s c) :
  TransGen (p.StepsUp descend) s c
  := by
  rcases reflTransGen_iff_eq_or_transGen.mp h with rfl | hsteps
  · apply TransGen.single ⟨hfeeds, hdescend⟩
  · apply hsteps

/-- In a patch that passes the check, a walk fails exactly if a seed is missing. Otherwise it lists
once each the seeds and what steps up lead to from them, and with every node the sources of
it that may be entered, before it, but for those that steps up lead from to the node. -/
theorem signalOrder_lists_reached (hp : p.validate = .ok ()) (seeds : List NodeId)
    (descend : NodeId → Bool) :
  ((∃ e, p.signalOrder seeds descend = .error e) ↔ ∃ s ∈ seeds, s ∉ p.ids) ∧
    ∀ order, p.signalOrder seeds descend = .ok order →
      order.Nodup ∧
      (∀ id, id ∈ order ↔ ∃ seed ∈ seeds, p.Reaches descend seed id) ∧
      ∀ c ∈ order, ∀ s, p.Feeds s c → descend s →
        s ∈ order ∧ ([s, c].Sublist order ∨ TransGen (p.StepsUp descend) s c)
  := by
  have hcoherent := coherent_of_validate hp
  refine ⟨signalOrder_eq_error_iff hcoherent, ?_⟩
  intro order horder
  obtain ⟨w, hw, rfl⟩ := map_eq_ok_iff.mp horder
  have h := (meets_signalOrder hcoherent (mem_ids_of_signalWalk hw) descend).of_eq_ok horder
  refine ⟨h.nodup, h.mem_iff, ?_⟩
  intro c hc s hfeeds hdescend
  constructor
  · obtain ⟨seed, hseed, hreach⟩ := (h.mem_iff c).mp hc
    apply (h.mem_iff s).mpr ⟨seed, hseed, hreach.tail ⟨hfeeds, hdescend⟩⟩
  · apply (h.before c hc s hfeeds hdescend).imp_right
    apply transGen_of_reaches hfeeds hdescend

/-- A walk past a pruned node, which is a seed itself, and a speaker that is asked for twice. The
mix feeds the delay and does not come before it, so steps up lead from the mix to the delay. -/
theorem signalOrder_lists_reached_flanger :
  Flanger.patch.validate = .ok () ∧
    Flanger.patch.signalOrder ["speaker", "sweep", "speaker"] (· ≠ "sweep") =
      .ok ["tone", "delay", "mix", "speaker", "sweep"] ∧
    TransGen (Flanger.patch.StepsUp (· ≠ "sweep")) "mix" "delay"
  := by
  have horder : Flanger.patch.signalOrder ["speaker", "sweep", "speaker"] (· ≠ "sweep") =
      .ok ["tone", "delay", "mix", "speaker", "sweep"] := by cbv
  refine ⟨Flanger.valid, horder, ?_⟩
  obtain ⟨-, hlists⟩ := signalOrder_lists_reached Flanger.valid ["speaker", "sweep", "speaker"]
    (· ≠ "sweep")
  obtain ⟨-, -, hsources⟩ := hlists _ horder
  have hfeeds : Flanger.patch.Feeds "mix" "delay" := ⟨Flanger.delay, rfl, by decide⟩
  obtain ⟨-, hbefore | hsteps⟩ := hsources "delay" (by decide) "mix" hfeeds (by decide)
  · exact absurd hbefore (by decide)
  · apply hsteps

/-! ### Climbing -/

/-- What a node lists, whether sources or sinks. A node that is not there lists nothing. -/
def nextOf (p : Patch) (next : Node → List NodeId) (id : NodeId) : List NodeId :=
  ((p.find? id).map next).getD []

theorem nextOf_of_find? {next : Node → List NodeId} {id : NodeId} {n : Node}
    (h : p.find? id = some n) :
  p.nextOf next id = next n
  := by
  rw [nextOf, h]
  rfl

theorem mem_nextOf_iff {next : Node → List NodeId} {a b : NodeId} :
  b ∈ p.nextOf next a ↔ ∃ n, p.find? a = some n ∧ b ∈ next n
  := by
  rw [nextOf]
  cases p.find? a with
  | none => simp
  | some n => simp

/-- The nodes that feed a node through signals, inlet by inlet. -/
def sourcesOf (p : Patch) (id : NodeId) : List NodeId := p.nextOf Node.signalSources id

theorem sourcesOf_of_find? {id : NodeId} {n : Node} (h : p.find? id = some n) :
  p.sourcesOf id = n.signalSources
  := nextOf_of_find? h

theorem mem_sourcesOf_iff {s id : NodeId} :
  s ∈ p.sourcesOf id ↔ p.Feeds s id
  := mem_nextOf_iff

theorem countOutside_cons_le (p : Patch) (id : NodeId) (marked : List NodeId) :
  p.countOutside (id :: marked) ≤ p.countOutside marked
  := by
  apply List.countP_mono_left
  intro x _ hx
  simp only [List.contains_cons, Bool.not_or, Bool.and_eq_true] at hx
  exact hx.2

/-- When a node is marked fewer nodes are left, or else it is not there and leads nowhere. -/
theorem lex_nextOf (p : Patch) (next : Node → List NodeId) {id : NodeId} {marked : List NodeId}
    (hid : ¬ marked.contains id) :
  Prod.Lex (· < ·) (· < ·) (p.countOutside (id :: marked), 2 * (p.nextOf next id).length)
    (p.countOutside marked, 1)
  := by
  cases hnext : p.nextOf next id with
  | nil => exact Prod.Lex.right' _ (p.countOutside_cons_le id marked) Nat.zero_lt_one
  | cons s rest =>
      have hs : s ∈ p.nextOf next id := by
        rw [hnext]
        apply List.mem_cons_self
      obtain ⟨n, hn, -⟩ := mem_nextOf_iff.mp hs
      apply Prod.Lex.left
      apply countOutside_cons_lt (mem_ids_iff.mpr ⟨n, hn⟩) hid

/-- A state of a walk that leaves no more nodes to be marked than another one. -/
abbrev Further {α : Type} (p : Patch) (marked : α → List NodeId) (s : α) : Type :=
  { s' : α // p.countOutside (marked s') ≤ p.countOutside (marked s) }

namespace Further

variable {α : Type} {marked : α → List NodeId} {s : α}

theorem le (s' : Further p marked s) :
  p.countOutside (marked s'.val) ≤ p.countOutside (marked s)
  := s'.property

/-- Further than a state that is further. -/
def trans (first : Further p marked s) (second : Further p marked first.val) :
    Further p marked s :=
  ⟨second.val, Nat.le_trans second.property first.property⟩

end Further

end Patch

namespace SignalWalk

open Patch

variable {p : Patch} {descend : NodeId → Bool}

mutual

/-- Climbs to a node: enters it, climbs to its sources, and finishes it. -/
def climb (p : Patch) (descend : NodeId → Bool) (id : NodeId) (w : SignalWalk)
    (hid : ¬ w.marked.contains id) : Further p marked w :=
  have := p.lex_nextOf Node.signalSources hid
  let above := climbAll p descend (p.sourcesOf id) { w with marked := id :: w.marked }
  ⟨{ above.val with finished := id :: above.val.finished },
    Nat.le_trans above.property (p.countOutside_cons_le id w.marked)⟩
termination_by (p.countOutside w.marked, 1)
decreasing_by assumption

/-- Climbs to sources one after the other, but for those that have been entered or, when the walk
asks, may not be. -/
def climbAll (p : Patch) (descend : NodeId → Bool) (sources : List NodeId) (w : SignalWalk) :
    Further p marked w :=
  match sources with
  | [] => ⟨w, Nat.le_refl _⟩
  | s :: rest =>
      if hs : w.marked.contains s then climbAll p descend rest w
      else if descend s then
        let first := climb p descend s { w with asked := s :: w.asked } hs
        first.trans (climbAll p descend rest first.val)
      else climbAll p descend rest { w with asked := s :: w.asked }
termination_by (p.countOutside w.marked, 2 * sources.length)
decreasing_by
  · exact Prod.Lex.right _ (by simp)
  · exact Prod.Lex.right _ (by simp; omega)
  · exact Prod.Lex.right' _ (Further.le _) (by simp)
  · exact Prod.Lex.right _ (by simp)

end

/-- Climbs to a seed, unless it has been entered. -/
def climbFrom (p : Patch) (descend : NodeId → Bool) (w : SignalWalk) (seed : NodeId) : SignalWalk :=
  if hseed : w.marked.contains seed then w else (climb p descend seed w hseed).val

/-- The walk by recursion, from the seeds one after the other. -/
def recursive (p : Patch) (descend : NodeId → Bool) (seeds : List NodeId) : SignalWalk :=
  seeds.foldl (climbFrom p descend) {}

/-! ### The loop and the recursion -/

variable {w : SignalWalk} {n s : NodeId} {rest : List NodeId} {path : List Frame}

theorem run_of_marked (hs : w.marked.contains s) :
  run p descend (⟨n, s :: rest⟩ :: path) w = run p descend (⟨n, rest⟩ :: path) w
  := by
  rw [run, dif_pos hs]

theorem run_of_not_descend (hs : ¬ w.marked.contains s) (hdescend : ¬ descend s) :
  run p descend (⟨n, s :: rest⟩ :: path) w =
    run p descend (⟨n, rest⟩ :: path) { w with asked := s :: w.asked }
  := by
  rw [run, dif_neg hs, if_neg hdescend]

theorem climb_val (id : NodeId) (hid : ¬ w.marked.contains id) :
  (climb p descend id w hid).val =
    { (climbAll p descend (p.sourcesOf id) { w with marked := id :: w.marked }).val with
      finished := id ::
        (climbAll p descend (p.sourcesOf id) { w with marked := id :: w.marked }).val.finished }
  := by
  rw [climb]

theorem climbAll_of_marked (hs : w.marked.contains s) :
  climbAll p descend (s :: rest) w = climbAll p descend rest w
  := by
  rw [climbAll, dif_pos hs]

theorem climbAll_of_descend (hs : ¬ w.marked.contains s) (hdescend : descend s) :
  (climbAll p descend (s :: rest) w).val =
    (climbAll p descend rest (climb p descend s { w with asked := s :: w.asked } hs).val).val
  := by
  rw [climbAll, dif_neg hs, if_pos hdescend]
  rfl

theorem climbAll_of_not_descend (hs : ¬ w.marked.contains s) (hdescend : ¬ descend s) :
  (climbAll p descend (s :: rest) w).val =
    (climbAll p descend rest { w with asked := s :: w.asked }).val
  := by
  rw [climbAll, dif_neg hs, if_neg hdescend]

/-- The loop deals with the node that was entered last as the recursion does, and then goes on with
the rest of the path. -/
theorem run_eq_run_climb (hp : p.Coherent) :
  (∀ id w hid, id ∈ p.ids → ∀ path,
    run p descend (⟨id, p.sourcesOf id⟩ :: path) { w with marked := id :: w.marked } =
      run p descend path (climb p descend id w hid).val) ∧
  ∀ sources w, (∀ s ∈ sources, s ∈ p.ids) → ∀ n path,
    run p descend (⟨n, sources⟩ :: path) w =
      run p descend (⟨n, []⟩ :: path) (climbAll p descend sources w).val
  := by
  apply climb.mutual_induct
  case case1 =>
    intro id w hid _ ih hmem path
    have hsources : ∀ s ∈ p.sourcesOf id, s ∈ p.ids := fun s hs =>
      (mem_sourcesOf_iff.mp hs).mem_ids_left hp
    rw [ih hsources, run, climb_val]
  case case2 =>
    intro w _ n path
    rw [climbAll]
  case case3 =>
    intro w s rest hs ih hmem n path
    rw [run_of_marked hs, climbAll_of_marked hs]
    apply ih (List.forall_mem_cons.mp hmem).2
  case case4 =>
    intro w s rest hs hdescend first ihfirst ihrest hmem n path
    obtain ⟨hmem, hrest⟩ := List.forall_mem_cons.mp hmem
    obtain ⟨m, hm, henter⟩ := Frame.exists_enter hp hmem
    rw [← sourcesOf_of_find? hm] at henter
    rw [run_of_enter hs hdescend henter, climbAll_of_descend hs hdescend, ← ihrest hrest]
    apply ihfirst hmem
  case case5 =>
    intro w s rest hs hdescend ih hmem n path
    rw [run_of_not_descend hs hdescend, climbAll_of_not_descend hs hdescend]
    apply ih (List.forall_mem_cons.mp hmem).2

/-- From a node of the patch the walk goes on as the recursion does. -/
theorem visit_eq_climbFrom (hp : p.Coherent) (hs : s ∈ p.ids) (w : SignalWalk) :
  visit p descend w s = .ok (climbFrom p descend w s)
  := by
  obtain ⟨n, hn, henter⟩ := Frame.exists_enter hp hs
  rw [← sourcesOf_of_find? hn] at henter
  rw [visit, node_eq_ok_iff.mpr hn, ok_bind, climbFrom]
  by_cases hmarked : w.marked.contains s
  · rw [if_pos hmarked, dif_pos hmarked]
    rfl
  · rw [if_neg hmarked, dif_neg hmarked, henter, ok_bind]
    show run p descend [⟨s, p.sourcesOf s⟩] { w with marked := s :: w.marked } = _
    rw [(run_eq_run_climb hp).1 s w hmarked hs, run]

/-- From nodes of the patch, one after the other, no visit fails. -/
theorem foldlM_visit_eq (hp : p.Coherent) {seeds : List NodeId} (hseeds : ∀ s ∈ seeds, s ∈ p.ids)
    (w : SignalWalk) :
  seeds.foldlM (visit p descend) w = .ok (seeds.foldl (climbFrom p descend) w)
  := by
  induction seeds generalizing w with
  | nil => rfl
  | cons s rest ih =>
      obtain ⟨hs, hrest⟩ := List.forall_mem_cons.mp hseeds
      rw [List.foldlM_cons, visit_eq_climbFrom hp hs, ok_bind, List.foldl_cons]
      apply ih hrest

end SignalWalk

namespace Patch

variable {p : Patch}

/-- In a patch that passes the check, a walk from nodes of the patch comes to an end. It lists the
nodes that the recursion lists and asks the questions that the recursion asks, in the same order. -/
theorem signalWalk_eq_recursive (hp : p.validate = .ok ()) {seeds : List NodeId}
    (hseeds : ∀ s ∈ seeds, s ∈ p.ids) (descend : NodeId → Bool) :
  p.signalOrder seeds descend = .ok (SignalWalk.recursive p descend seeds).order ∧
    (p.signalWalk seeds descend).map SignalWalk.questions =
      .ok (SignalWalk.recursive p descend seeds).questions
  := by
  have hwalk : p.signalWalk seeds descend = .ok (SignalWalk.recursive p descend seeds) :=
    SignalWalk.foldlM_visit_eq (coherent_of_validate hp) hseeds {}
  constructor
  · rw [signalOrder, hwalk]
    rfl
  · rw [hwalk]
    rfl

/-- The recursion asks about the sweep, which it may not enter, before the sweep is a seed. -/
theorem signalWalk_eq_recursive_flanger :
  Flanger.patch.validate = .ok () ∧
    (∀ s ∈ ["speaker", "sweep", "speaker"], s ∈ Flanger.patch.ids) ∧
    (SignalWalk.recursive Flanger.patch (· ≠ "sweep") ["speaker", "sweep", "speaker"]).order =
      ["tone", "delay", "mix", "speaker", "sweep"] ∧
    (SignalWalk.recursive Flanger.patch (· ≠ "sweep") ["speaker", "sweep", "speaker"]).questions =
      ["mix", "tone", "delay", "sweep"]
  := by
  have hseeds : ∀ s ∈ ["speaker", "sweep", "speaker"], s ∈ Flanger.patch.ids := by decide
  obtain ⟨horder, hquestions⟩ := signalWalk_eq_recursive Flanger.valid hseeds (· ≠ "sweep")
  refine ⟨Flanger.valid, hseeds, ?_, ?_⟩
  · apply Except.ok.inj
    rw [← horder]
    cbv
  · apply Except.ok.inj (ε := PatchError)
    rw [← hquestions]
    cbv

end Patch

end AudioPatch
