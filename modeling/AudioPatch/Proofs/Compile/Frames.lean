import AudioPatch.Proofs.Compile.Schedule
import AudioPatch.Proofs.Patch.Computation

/-!
# Computing frames by a schedule

To compute all the pulled nodes in every frame comes to the same as to compute the cold groups
once, in any order, and the hot nodes in every frame. The cold groups can come first, since
no node of them is fed by a hot one; and once they are computed they are stable.
-/

universe u v

namespace AudioPatch.Schedule

open Patch

variable {State : NodeId → Type u} {Value : Type v} {p : Patch} {registry : Registry}
  {pulled cold : List NodeId} {groups : List ColdGroup} {s : Schedule}
  {step : Interpretation State Value} {m : Memory State Value} {a b : NodeId}

/-- Nodes with pure implementations keep their states. -/
def KeepsPure (p : Patch) (registry : Registry) (step : Interpretation State Value) : Prop :=
  ∀ n ∈ p.nodes, ∀ i, registry.find? n.type = some i → i.isPure → KeepsState step n.id

theorem keepsState_of_passive (hpure : KeepsPure p registry step) (h : Passive p registry a) :
  KeepsState step a
  := by
  obtain ⟨n, i, hn, hi, hisPure, -⟩ := h
  obtain rfl := id_of_find? hn
  apply hpure n (mem_nodes_of_find? hn) i hi hisPure

/-- The cold groups are computed, one after the other. -/
def runGroups (p : Patch) (step : Interpretation State Value) (groups : List ColdGroup)
    (m : Memory State Value) : Memory State Value :=
  groups.foldl (fun m g => p.run step g.group.nodes m) m

theorem runGroups_eq_run :
  runGroups p step groups m = p.run step (groups.flatMap fun g => g.group.nodes) m
  := List.foldl_flatMap.symm

namespace Arranges

variable (h : Arranges p registry cold s) (hperm : groups.Perm s.cold)

include h hperm in
/-- Where the pulled nodes are in another order than the cold groups with the hot nodes after
them, there are independent nodes. -/
theorem independent (hab : [a, b].Sublist s.pulled.nodes)
    (hba : [b, a].Sublist ((groups.flatMap fun g => g.group.nodes) ++ s.hot.nodes)) :
  p.Independent a b
  := by
  have hnodup := h.order.nodup
  have hgrouping := h.grouping.perm hperm
  have hcold := hgrouping.perm_cold h.isCold hnodup
  have hswap := not_pair_sublist_swap hnodup hab
  have hne : a ≠ b := by
    rintro rfl
    apply hswap hab
  rcases pair_sublist_append_iff.mp hba with hba | ⟨hb, ha⟩ | hba
  · -- Both are cold. Were they in one group, the group would have them in the other order.
    obtain ⟨hb, ha⟩ := mem_of_pair_sublist hba
    have hapart : ∀ g ∈ groups, a ∈ g.group.nodes → b ∉ g.group.nodes := by
      intro g hg hag hbg
      have hsub := hgrouping.pair_sublist hnodup hg hag hbg hab
      apply not_pair_sublist_swap (hcold.nodup_iff.mpr (h.isCold.sublist.nodup hnodup)) hsub hba
    obtain ⟨g, hg, hag⟩ := List.mem_flatMap.mp ha
    obtain ⟨g', hg', hbg'⟩ := List.mem_flatMap.mp hb
    refine ⟨hne, ?_, ?_⟩
    · intro hfeeds
      apply hapart g' hg' ((hgrouping.isGroup g' hg').source b hbg' a hfeeds) hbg'
    · intro hfeeds
      apply hapart g hg hag ((hgrouping.isGroup g hg).source a hag b hfeeds)
  · -- A hot node cannot feed a cold one, and comes after those that feed it.
    have hb := hcold.mem_iff.mp hb
    obtain ⟨hapulled, hahot⟩ := h.mem_hot_iff.mp ha
    refine ⟨hne, ?_, ?_⟩
    · intro hfeeds
      apply hahot (h.isCold.source hb hfeeds).1
    · intro hfeeds
      apply hswap (h.isCold.before_hot h.order hapulled hahot hb hfeeds)
  · exact absurd (hba.trans h.hot_sublist) hswap

include h hperm in
/-- In one frame the cold groups can be computed first. -/
theorem run_pulled :
  p.run step s.pulled.nodes m = p.run step s.hot.nodes (runGroups p step groups m)
  := by
  rw [runGroups_eq_run, ← run_append]
  apply run_eq_of_perm h.order.nodup
  · apply h.perm_pulled.symm.trans
    apply List.perm_append_comm.trans
    apply (hperm.symm.flatMap_right _).append_right
  · intro a b
    apply h.independent hperm

include h hperm in
/-- Once the cold groups are computed the cold nodes are stable. -/
theorem stable_runGroups (hpure : KeepsPure p registry step) :
  ∀ a ∈ cold, p.Stable step (runGroups p step groups m) a
  := by
  have hnodup := h.order.nodup
  have hgrouping := h.grouping.perm hperm
  have hcold := hgrouping.perm_cold h.isCold hnodup
  intro a ha
  rw [runGroups_eq_run]
  apply stable_run (hcold.nodup_iff.mpr (h.isCold.sublist.nodup hnodup))
  · intro b hb
    apply keepsState_of_passive hpure (h.isCold.passive (hcold.mem_iff.mp hb))
  · intro b hb c hc
    obtain ⟨g, hg, hbg⟩ := List.mem_flatMap.mp hb
    have hcg := (hgrouping.isGroup g hg).source b hbg c hc
    have hcb := (h.isCold.source (hcold.mem_iff.mp hb) hc).2
    apply hgrouping.pair_sublist hnodup hg hcg hbg hcb
  · apply hcold.mem_iff.mpr ha

include h in
/-- Cold nodes stay stable when the hot nodes are computed. -/
theorem stable_run_hot (hstable : ∀ a ∈ cold, p.Stable step m a) :
  ∀ a ∈ cold, p.Stable step (p.run step s.hot.nodes m) a
  := by
  intro a ha
  apply (hstable a ha).run
  · intro hhot
    apply (h.mem_hot_iff.mp hhot).2 ha
  · intro b hb hfeeds
    apply (h.mem_hot_iff.mp hb).2 (h.isCold.source ha hfeeds).1

include h in
/-- In a frame in which the cold nodes are stable it is enough to compute the hot nodes. -/
theorem run_pulled_of_stable (hstable : ∀ a ∈ cold, p.Stable step m a) :
  p.run step s.pulled.nodes m = p.run step s.hot.nodes m
  := by
  have hcold := h.grouping.perm_cold h.isCold h.order.nodup
  have hgroups : p.run step (s.cold.flatMap fun g => g.group.nodes) m = m := by
    apply run_of_stable
    intro a ha
    apply hstable a (hcold.mem_iff.mp ha)
  rw [h.run_pulled (List.Perm.refl s.cold), runGroups_eq_run, hgroups]

include h in
/-- It is enough in all frames that follow. -/
theorem frames_pulled_of_stable (k : Nat) (hstable : ∀ a ∈ cold, p.Stable step m a) :
  p.frames step k s.pulled.nodes m = p.frames step k s.hot.nodes m
  := by
  induction k generalizing m with
  | zero => rfl
  | succ k ih =>
      have hrest := ih (h.stable_run_hot hstable)
      simp only [frames, Function.iterate_succ_apply] at hrest ⊢
      rw [h.run_pulled_of_stable hstable, hrest]

end Arranges

/-- A valid patch that is covered has a schedule by which frames can be computed, with the pulled
nodes in the order of the walk: for every interpretation that lets pure nodes keep their states,
and from every memory, one or more frames of all the pulled nodes come to the same memory as the
cold groups, each once and in any order, and then as many frames of the hot nodes. -/
theorem frames_pulled_eq_frames_hot (hp : p.validate = .ok ()) (hcovers : registry.Covers p) :
  ∃ s, make p registry = .ok s ∧
    p.signalOrder p.pulling (fun _ => true) = .ok s.pulled.nodes ∧
    ∀ step : Interpretation State Value, KeepsPure p registry step →
      ∀ (groups : List ColdGroup), groups.Perm s.cold →
        ∀ (k : Nat) (m : Memory State Value), 1 ≤ k →
          p.frames step k s.pulled.nodes m =
            p.frames step k s.hot.nodes (runGroups p step groups m)
  := by
  obtain ⟨s, hs, cold, h⟩ := Meets.never_iff.mp (meets_make (coherent_of_validate hp) hcovers)
  refine ⟨s, hs, signalOrder_pulled hs, ?_⟩
  intro step hpure groups hperm k m hk
  obtain ⟨k, rfl⟩ := Nat.exists_eq_add_of_le' hk
  have hstable := h.stable_run_hot (h.stable_runGroups hperm hpure (m := m))
  have hrest := h.frames_pulled_of_stable k hstable
  simp only [frames, Function.iterate_succ_apply] at hrest ⊢
  rw [h.run_pulled hperm, hrest]

/-- All nodes of an echo add up what arrives at them and what they hold, and the speaker
counts the frames. -/
def echoSums : Interpretation (fun _ => Nat) Nat := fun id state inputs =>
  ⟨if id = "speaker" then state + 1 else state, fun _ => inputs.flatten.foldl (· + ·) state⟩

theorem keepsPure_echoSums :
  KeepsPure Echo.patch Echo.registry echoSums
  := by
  intro n hn i hi hisPure state inputs
  have hspeaker : ∀ n ∈ Echo.patch.nodes, n.id = "speaker" →
      ∀ i ∈ Echo.registry.find? n.type, ¬ i.isPure := by
    decide
  have hid : n.id ≠ "speaker" := fun heq => hspeaker n hn heq i hi hisPure
  simp [echoSums, hid]

/-- An echo before its first frame: the level holds two and the bias one. -/
def echoStart : Memory (fun _ => Nat) Nat := fun id =>
  ⟨if id = "level" then 2 else if id = "bias" then 1 else 0, fun _ => 0⟩

/-- Three frames of an echo, with the bias before the level. The feedback adds three in every
frame, and so the speaker gets nine in the third one. -/
theorem frames_pulled_eq_frames_hot_echo :
  Echo.patch.validate = .ok () ∧ Echo.registry.Covers Echo.patch ∧
    make Echo.patch Echo.registry = .ok Echo.schedule ∧
    KeepsPure Echo.patch Echo.registry echoSums ∧
    (∀ m, Echo.patch.frames echoSums 3 ["level", "scale", "feedback", "bias", "mix", "speaker"] m =
      Echo.patch.frames echoSums 3 ["feedback", "mix", "speaker"]
        (Echo.patch.run echoSums ["bias", "level", "scale"] m)) ∧
    (Echo.patch.frames echoSums 3 Echo.schedule.pulled.nodes echoStart "mix").outlets 0 = 9
  := by
  obtain ⟨s, hs, -, hframes⟩ := frames_pulled_eq_frames_hot Echo.valid Echo.covers
  obtain rfl : Echo.schedule = s := Except.ok.inj (Echo.schedule_eq.symm.trans hs)
  refine ⟨Echo.valid, Echo.covers, hs, keepsPure_echoSums, fun m => ?_, by decide⟩
  apply hframes echoSums keepsPure_echoSums Echo.schedule.cold.reverse (List.reverse_perm _) 3 m
  decide

end AudioPatch.Schedule
