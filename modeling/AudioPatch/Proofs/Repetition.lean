import Mathlib.Data.List.Induction
import Mathlib.Data.List.Nodup

/-!
# Lists without their repetitions

Of equal elements of a list the first is kept. What is kept has no repetitions, and a list without
repetitions is kept as it is.
-/

namespace AudioPatch

variable {α β : Type} [BEq α] [LawfulBEq α] [BEq β] [LawfulBEq β]

theorem eraseDups_append_singleton (l : List α) (a : α) :
  (l ++ [a]).eraseDups = if l.contains a then l.eraseDups else l.eraseDups ++ [a]
  := by
  rw [List.eraseDups_append]
  by_cases ha : a ∈ l
  · simp [List.removeAll, ha]
  · simp [List.removeAll, ha, List.eraseDups_cons]

theorem nodup_eraseDups (l : List α) :
  l.eraseDups.Nodup
  := by
  induction l using List.reverseRecOn with
  | nil => exact List.nodup_nil
  | append_singleton l a ih =>
      rw [eraseDups_append_singleton]
      by_cases ha : l.contains a
      · rw [if_pos ha]
        apply ih
      · rw [if_neg ha]
        apply ih.append (List.nodup_singleton a)
        simpa using ha

theorem eraseDups_eq_self_iff {l : List α} :
  l.eraseDups = l ↔ l.Nodup
  := by
  constructor
  · intro h
    rw [← h]
    apply nodup_eraseDups
  · intro h
    induction l using List.reverseRecOn with
    | nil => rfl
    | append_singleton l a ih =>
        obtain ⟨hl, -, hdisjoint⟩ := List.nodup_append'.mp h
        have ha : ¬ l.contains a := fun hmem =>
          hdisjoint (List.contains_iff_mem.mp hmem) (List.mem_singleton_self a)
        rw [eraseDups_append_singleton, if_neg ha, ih hl]

theorem eraseDups_map {f : α → β} (hf : Function.Injective f) (l : List α) :
  (l.map f).eraseDups = l.eraseDups.map f
  := by
  induction l using List.reverseRecOn with
  | nil => rfl
  | append_singleton l a ih =>
      rw [List.map_append, List.map_singleton, eraseDups_append_singleton,
        eraseDups_append_singleton, ih]
      by_cases ha : a ∈ l
      · simp [ha, List.mem_map_of_mem ha]
      · simp [ha, hf.eq_iff]

/-- What occurs in a list comes before what first occurs after it. -/
theorem idxOf_eraseDups_lt {a b : α} {l : List α} (ha : a ∈ l) (hb : b ∉ l) (l' : List α) :
  (l ++ l').eraseDups.idxOf a < (l ++ l').eraseDups.idxOf b
  := by
  have ha' : a ∈ l.eraseDups := List.mem_eraseDups.mpr ha
  have hb' : b ∉ l.eraseDups := mt List.mem_eraseDups.mp hb
  rw [List.eraseDups_append, List.idxOf_append_of_mem ha', List.idxOf_append_of_notMem hb']
  apply Nat.lt_add_right
  apply List.idxOf_lt_length_iff.mpr ha'

/-- In lists that have nothing in common, repetitions are left out list by list. -/
theorem eraseDups_flatMap {ι : Type} {l : List ι} {f : ι → List α}
    (h : l.Pairwise fun i j => (f i).Disjoint (f j)) :
  (l.flatMap f).eraseDups = l.flatMap fun i => (f i).eraseDups
  := by
  induction l with
  | nil => rfl
  | cons i rest ih =>
      obtain ⟨hi, hrest⟩ := List.pairwise_cons.mp h
      have hothers : (rest.flatMap f).removeAll (f i) = rest.flatMap f := by
        apply List.filter_eq_self.mpr
        intro a ha
        obtain ⟨j, hj, ha⟩ := List.mem_flatMap.mp ha
        simpa using fun hmem => hi j hj hmem ha
      rw [List.flatMap_cons, List.eraseDups_append, hothers, ih hrest, List.flatMap_cons]

end AudioPatch
