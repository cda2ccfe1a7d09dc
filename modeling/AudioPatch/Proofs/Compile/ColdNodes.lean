import AudioPatch.Compile.Schedule
import AudioPatch.Proofs.ListOrder
import AudioPatch.Proofs.Patch.MessageWalk

/-!
# Which nodes are cold

The pulled nodes are classified in one pass: a node is cold if it is passive and all its
sources have been found to be cold before it. Since only nodes on feedback loops come before
their sources, this does not depend on the order: a node is cold exactly if all that is
upstream of it is passive and on no loop.
-/

namespace AudioPatch

theorem Registry.get_eq_ok_iff {registry : Registry} {type : String} {i : Implementation} :
  registry.get type = .ok i ↔ registry.find? type = some i
  := by
  rw [Registry.get]
  cases registry.find? type with
  | none => simp
  | some j => simp

namespace Schedule

open Relation Patch

variable {p : Patch} {registry : Registry} {pulled cold : List NodeId} {id : NodeId}

/-- A node is passive if it has a pure implementation and does not pull. -/
def Passive (p : Patch) (registry : Registry) (id : NodeId) : Prop :=
  ∃ n i, p.find? id = some n ∧ registry.find? n.type = some i ∧ i.isPure ∧ ¬ n.pulls

/-- A node that is in the patch and has an implementation. -/
def Implemented (p : Patch) (registry : Registry) (id : NodeId) : Prop :=
  ∃ n i, p.find? id = some n ∧ registry.find? n.type = some i

/-- What the nodes are that a pass through the pulled nodes finds to be cold. -/
structure IsCold (p : Patch) (registry : Registry) (pulled cold : List NodeId) : Prop where
  /-- They are in the order of the pulled nodes. -/
  sublist : cold.Sublist pulled
  /-- They are passive, and their sources are cold and come before them. -/
  mem_iff : ∀ id ∈ pulled, id ∈ cold ↔
    Passive p registry id ∧ ∀ s, p.Feeds s id → s ∈ cold ∧ [s, id].Sublist pulled

/-! ### The pass -/

/-- One more node is found to be cold if it is passive and all its sources are. -/
theorem meets_classify (hid : Implemented p registry id) :
  Meets (classify p registry cold id)
    (fun cold' => (Passive p registry id ∧ (∀ s, p.Feeds s id → s ∈ cold) ∧ cold' = cold ++ [id]) ∨
      (¬ (Passive p registry id ∧ ∀ s, p.Feeds s id → s ∈ cold) ∧ cold' = cold))
    (fun _ => False)
  := by
  obtain ⟨n, i, hn, hi⟩ := hid
  have hpassive : Passive p registry id ↔ i.isPure ∧ ¬ n.pulls := by
    constructor
    · rintro ⟨n', i', hn', hi', h⟩
      obtain rfl := Option.some.inj (hn.symm.trans hn')
      obtain rfl := Option.some.inj (hi.symm.trans hi')
      apply h
    · intro h
      exact ⟨n, i, hn, hi, h⟩
  have hfeeds : (∀ s, p.Feeds s id → s ∈ cold) ↔ ∀ s ∈ n.signalSources, s ∈ cold := by
    simp [Feeds, hn]
  rw [classify, store_node, node_eq_ok_iff.mpr hn]
  show Meets (registry.get n.type >>= _) _ _
  rw [Registry.get_eq_ok_iff.mpr hi]
  show (_ ∧ _ ∧ (if _ then _ else _) = _) ∨ _
  rw [hpassive, hfeeds]
  by_cases h : i.isPure && !n.pulls && n.signalSources.all cold.contains
  · rw [if_pos h]
    simp only [Bool.and_eq_true, Bool.not_eq_true', List.all_eq_true, List.contains_iff_mem] at h
    exact .inl ⟨⟨h.1.1, by simp [h.1.2]⟩, h.2, rfl⟩
  · rw [if_neg h]
    refine .inr ⟨?_, rfl⟩
    rintro ⟨⟨hpure, hpulls⟩, hsources⟩
    apply h
    simpa [hpure, hpulls] using hsources

/-- What is cold among the nodes up to a place is cold among all of them. -/
theorem IsCold.step (h : IsCold p registry pulled cold) (hnew : id ∉ pulled) {cold' : List NodeId}
    (hcold' : (Passive p registry id ∧ (∀ s, p.Feeds s id → s ∈ cold) ∧ cold' = cold ++ [id]) ∨
      (¬ (Passive p registry id ∧ ∀ s, p.Feeds s id → s ∈ cold) ∧ cold' = cold)) :
  IsCold p registry (pulled ++ [id]) cold'
  := by
  have hmem : ∀ a, a ≠ id → (a ∈ cold' ↔ a ∈ cold) := by
    intro a ha
    rcases hcold' with ⟨-, -, rfl⟩ | ⟨-, rfl⟩
    · simp [ha]
    · rfl
  constructor
  · rcases hcold' with ⟨-, -, rfl⟩ | ⟨-, rfl⟩
    · apply h.sublist.append (List.Sublist.refl [id])
    · apply h.sublist.trans (List.sublist_append_left pulled [id])
  · intro a ha
    rcases List.mem_append.mp ha with ha | ha
    · -- The node was there before, and so were the sources that count.
      have hne : a ≠ id := fun heq => hnew (heq ▸ ha)
      rw [hmem a hne, h.mem_iff a ha]
      apply and_congr_right'
      apply forall₂_congr
      intro s _
      rw [pair_sublist_append_singleton_iff]
      constructor
      · rintro ⟨hs, hbefore⟩
        have hsid : s ≠ id := fun heq => hnew (heq ▸ (mem_of_pair_sublist hbefore).1)
        exact ⟨(hmem s hsid).mpr hs, .inl hbefore⟩
      · rintro ⟨hs, hbefore | ⟨-, rfl⟩⟩
        · have hsid : s ≠ id := fun heq => hnew (heq ▸ (mem_of_pair_sublist hbefore).1)
          exact ⟨(hmem s hsid).mp hs, hbefore⟩
        · exact absurd rfl hne
    · obtain rfl := List.mem_singleton.mp ha
      have hold : a ∉ cold := fun hc => hnew (h.sublist.subset hc)
      have hbefore : ∀ s, s ∈ cold' ∧ [s, a].Sublist (pulled ++ [a]) ↔ s ∈ cold := by
        intro s
        rw [pair_sublist_append_singleton_iff]
        constructor
        · rintro ⟨hs, hsub⟩
          have hs' : s ∈ pulled := by
            rcases hsub with hsub | ⟨hs', -⟩
            · exact absurd (mem_of_pair_sublist hsub).2 hnew
            · apply hs'
          apply (hmem s fun heq => hnew (heq ▸ hs')).mp hs
        · intro hs
          have hs' := h.sublist.subset hs
          exact ⟨(hmem s fun heq => hnew (heq ▸ hs')).mpr hs, .inr ⟨hs', rfl⟩⟩
      simp only [hbefore]
      rcases hcold' with ⟨hpassive, hsources, rfl⟩ | ⟨hnot, rfl⟩
      · exact ⟨fun _ => ⟨hpassive, hsources⟩, fun _ => by simp⟩
      · simp only [hold, hnot]

/-- The pass succeeds if all the nodes have implementations. -/
theorem meets_coldNodes (hnodup : pulled.Nodup) (himpl : ∀ id ∈ pulled, Implemented p registry id) :
  Meets (coldNodes p registry pulled) (IsCold p registry pulled) (fun _ => False)
  := by
  apply Meets.foldlM (IsCold p registry)
  · exact ⟨List.Sublist.refl [], by simp⟩
  · intro done id rest hpulled cold hcold
    have hnew : id ∉ done := not_mem_of_split hnodup hpulled
    apply (meets_classify (himpl id (by simp [hpulled]))).imp_good
    intro cold' hcold'
    apply hcold.step hnew hcold'

/-! ### Pulled nodes -/

/-- The walk up from the pulling nodes lists the pulled nodes. -/
theorem mem_pulled_iff (horder : p.IsSignalOrder p.pulling (fun _ => true) pulled) :
  id ∈ pulled ↔ p.Pulled id
  := by
  simp only [horder.mem_iff, Pulled, reaches_true_iff]

theorem mem_pulled_of_upstream (horder : p.IsSignalOrder p.pulling (fun _ => true) pulled)
    {a : NodeId} (hid : id ∈ pulled) (ha : p.Upstream a id) :
  a ∈ pulled
  := by
  obtain ⟨b, hb, hup⟩ := (mem_pulled_iff horder).mp hid
  apply (mem_pulled_iff horder).mpr ⟨b, hb, ha.trans hup⟩

/-! ### Cold nodes and what is upstream of them -/

namespace IsCold

variable {a : NodeId}

theorem passive (h : IsCold p registry pulled cold) (hid : id ∈ cold) :
  Passive p registry id
  := ((h.mem_iff id (h.sublist.subset hid)).mp hid).1

/-- The sources of a cold node are cold and come before it. -/
theorem source (h : IsCold p registry pulled cold) (hid : id ∈ cold) (ha : p.Feeds a id) :
  a ∈ cold ∧ [a, id].Sublist pulled
  := ((h.mem_iff id (h.sublist.subset hid)).mp hid).2 a ha

/-- All that is upstream of a cold node is cold. -/
theorem upstream (h : IsCold p registry pulled cold) (hid : id ∈ cold) (ha : p.Upstream a id) :
  a ∈ cold
  := by
  induction ha using ReflTransGen.head_induction_on with
  | refl => apply hid
  | head hstep _ ih => apply (h.source ih hstep).1

/-- What feeds a cold node, directly or through others, comes before it. -/
theorem idxOf_lt (h : IsCold p registry pulled cold) (hnodup : pulled.Nodup) (hid : id ∈ cold)
    (ha : TransGen p.Feeds a id) :
  pulled.idxOf a < pulled.idxOf id
  := by
  induction ha with
  | single hstep => apply idxOf_lt_of_pair_sublist hnodup (h.source hid hstep).2
  | tail _ hstep ih =>
      obtain ⟨hsource, hbefore⟩ := h.source hid hstep
      apply Nat.lt_trans (ih hsource) (idxOf_lt_of_pair_sublist hnodup hbefore)

/-- No cold node is on a feedback loop. -/
theorem not_onLoop (h : IsCold p registry pulled cold) (hnodup : pulled.Nodup) (hid : id ∈ cold) :
  ¬ p.OnLoop id
  := by
  intro hloop
  apply Nat.lt_irrefl _ (h.idxOf_lt hnodup hid hloop)

/-- A node is cold if all that is upstream of it is passive and on no feedback loop. -/
theorem mem_of_upstream (h : IsCold p registry pulled cold)
    (horder : p.IsSignalOrder p.pulling (fun _ => true) pulled) (hid : id ∈ pulled)
    (hup : ∀ a, p.Upstream a id → Passive p registry a ∧ ¬ p.OnLoop a) :
  id ∈ cold
  := by
  -- By induction on the place of the node among the pulled ones.
  induction hk : pulled.idxOf id using Nat.strong_induction_on generalizing id with
  | _ k ih =>
      apply (h.mem_iff id hid).mpr
      use (hup id ReflTransGen.refl).1
      intro s hs
      have hspulled := mem_pulled_of_upstream horder hid (ReflTransGen.single hs)
      have hbefore : [s, id].Sublist pulled := by
        apply (horder.before id hid s hs rfl).resolve_right
        intro hreach
        -- Otherwise the node would be upstream of its source.
        apply (hup s (ReflTransGen.single hs)).2
        apply TransGen.head' hs hreach.upstream
      refine ⟨ih _ ?_ hspulled ?_ rfl, hbefore⟩
      · rw [← hk]
        apply idxOf_lt_of_pair_sublist horder.nodup hbefore
      · intro a ha
        apply hup a (ha.tail hs)

/-- A node is cold exactly if all that is upstream of it is passive and on no feedback
loop. -/
theorem mem_iff_upstream (h : IsCold p registry pulled cold)
    (horder : p.IsSignalOrder p.pulling (fun _ => true) pulled) (hid : id ∈ pulled) :
  id ∈ cold ↔ ∀ a, p.Upstream a id → Passive p registry a ∧ ¬ p.OnLoop a
  := by
  constructor
  · intro hcold a ha
    have hacold := h.upstream hcold ha
    exact ⟨h.passive hacold, h.not_onLoop horder.nodup hacold⟩
  · apply h.mem_of_upstream horder hid

/-- A cold source comes before a hot consumer. -/
theorem before_hot (h : IsCold p registry pulled cold)
    (horder : p.IsSignalOrder p.pulling (fun _ => true) pulled) (hid : id ∈ pulled)
    (hhot : id ∉ cold) (ha : a ∈ cold) (hfeeds : p.Feeds a id) :
  [a, id].Sublist pulled
  := by
  apply (horder.before id hid a hfeeds rfl).resolve_right
  intro hreach
  apply hhot (h.upstream ha hreach.upstream)

end IsCold

end Schedule

end AudioPatch
