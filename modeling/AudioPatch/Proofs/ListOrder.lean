import Mathlib.Data.List.Forall2
import Mathlib.Data.List.Nodup
import Mathlib.Data.List.Sublists

/-!
# One element before another

In a list without repetitions an element comes before another one if the two, in this order,
are a part of the list.
-/

namespace AudioPatch

variable {α : Type} {l : List α} {a b c : α}

/-- In two lists one after the other. -/
theorem pair_sublist_append_iff {l' : List α} :
  [a, b].Sublist (l ++ l') ↔ [a, b].Sublist l ∨ (a ∈ l ∧ b ∈ l') ∨ [a, b].Sublist l'
  := by
  constructor
  · intro h
    obtain ⟨l₁, l₂, hl, h₁, h₂⟩ := List.sublist_append_iff.mp h
    match l₁, hl with
    | [], hl =>
        rw [List.nil_append] at hl
        exact .inr (.inr (hl ▸ h₂))
    | [x], hl =>
        obtain ⟨rfl, rfl⟩ : a = x ∧ [b] = l₂ := List.cons.inj hl
        exact .inr (.inl ⟨List.singleton_sublist.mp h₁, List.singleton_sublist.mp h₂⟩)
    | x :: y :: rest, hl =>
        obtain ⟨rfl, rfl, rfl, -⟩ : a = x ∧ b = y ∧ rest = [] ∧ l₂ = [] := by simpa using hl
        exact .inl h₁
  · rintro (h | ⟨ha, hb⟩ | h)
    · apply h.trans (List.sublist_append_left l l')
    · apply (List.singleton_sublist.mpr ha).append (List.singleton_sublist.mpr hb)
    · apply h.trans (List.sublist_append_right l l')

/-- Before the last element there are all others. -/
theorem pair_sublist_append_singleton_iff :
  [a, b].Sublist (l ++ [c]) ↔ [a, b].Sublist l ∨ (a ∈ l ∧ b = c)
  := by
  have hpair : ¬ [a, b].Sublist [c] := fun h => absurd h.length_le (by simp)
  rw [pair_sublist_append_iff, List.mem_singleton, or_iff_left hpair]

theorem mem_of_pair_sublist (h : [a, b].Sublist l) :
  a ∈ l ∧ b ∈ l
  := ⟨h.subset (by simp), h.subset (by simp)⟩

/-- In a list without repetitions an element is not among those before it. -/
theorem not_mem_of_split {before after : List α} (hl : l.Nodup) (h : l = before ++ a :: after) :
  a ∉ before
  := by
  rw [h] at hl
  intro hmem
  apply (List.nodup_append.mp hl).2.2 a hmem a List.mem_cons_self rfl

/-- What comes before another element has the smaller place. -/
theorem idxOf_lt_of_pair_sublist [DecidableEq α] (hl : l.Nodup) (h : [a, b].Sublist l) :
  l.idxOf a < l.idxOf b
  := by
  induction l with
  | nil => cases h
  | cons x rest ih =>
      obtain ⟨hx, hrest⟩ := List.nodup_cons.mp hl
      cases h with
      | cons _ h =>
          obtain ⟨ha, hb⟩ := mem_of_pair_sublist h
          have hxa : x ≠ a := fun heq => hx (heq ▸ ha)
          have hxb : x ≠ b := fun heq => hx (heq ▸ hb)
          rw [List.idxOf_cons_ne _ hxa, List.idxOf_cons_ne _ hxb]
          apply Nat.succ_lt_succ (ih hrest h)
      | cons_cons _ h =>
          have hb : b ∈ rest := List.singleton_sublist.mp h
          have hab : a ≠ b := fun heq => hx (heq ▸ hb)
          rw [List.idxOf_cons_self, List.idxOf_cons_ne _ hab]
          apply Nat.succ_pos

/-- Of two elements one comes before the other. -/
theorem pair_sublist_or (ha : a ∈ l) (hb : b ∈ l) (hab : a ≠ b) :
  [a, b].Sublist l ∨ [b, a].Sublist l
  := by
  induction l with
  | nil => cases ha
  | cons x rest ih =>
      rcases List.mem_cons.mp ha with rfl | ha'
      · rcases List.mem_cons.mp hb with rfl | hb'
        · exact absurd rfl hab
        · exact .inl ((List.singleton_sublist.mpr hb').cons_cons a)
      · rcases List.mem_cons.mp hb with rfl | hb'
        · exact .inr ((List.singleton_sublist.mpr ha').cons_cons b)
        · apply (ih ha' hb').imp (·.cons x) (·.cons x)

/-- No two elements come before each other. -/
theorem not_pair_sublist_swap (hl : l.Nodup) (h : [a, b].Sublist l) :
  ¬ [b, a].Sublist l
  := by
  classical
  intro h'
  apply Nat.lt_asymm (idxOf_lt_of_pair_sublist hl h) (idxOf_lt_of_pair_sublist hl h')

/-- An element that has come before occurs twice. -/
theorem twice_sublist {l' : List α} (h : a ∈ l) :
  [a, a].Sublist (l ++ a :: l')
  := pair_sublist_append_iff.mpr (.inr (.inl ⟨h, List.mem_cons_self⟩))

/-- Sorting by a key puts smaller keys first. -/
theorem pairwise_mergeSort_key (key : α → Nat) (l : List α) :
  (l.mergeSort fun a b => key a ≤ key b).Pairwise fun a b => key a ≤ key b
  := by
  have hsorted : (l.mergeSort fun a b => key a ≤ key b).Pairwise
      fun a b => decide (key a ≤ key b) = true := by
    apply List.pairwise_mergeSort
    · intro a b c hab hbc
      apply decide_eq_true (Nat.le_trans (of_decide_eq_true hab) (of_decide_eq_true hbc))
    · intro a b
      simpa using Nat.le_total (key a) (key b)
  apply hsorted.imp of_decide_eq_true

variable {β : Type}

/-- Elements chosen by their places. -/
theorem map_filter_range {here : Nat → Bool} {chosen : α → Bool}
    {f : Nat → β} {g : α → β} (hchosen : ∀ i (h : i < l.length), here i = chosen l[i])
    (hf : ∀ i (h : i < l.length), f i = g l[i]) :
  ((List.range l.length).filter here).map f = (l.filter chosen).map g
  := by
  induction l using List.reverseRecOn with
  | nil => rfl
  | append_singleton before a ih =>
      rw [List.length_append, List.length_singleton, List.range_succ, List.filter_append,
        List.map_append, List.filter_append, List.map_append]
      congr 1
      · apply ih
        · intro i hi
          rw [hchosen i (by simp; omega), List.getElem_append_left hi]
        · intro i hi
          rw [hf i (by simp; omega), List.getElem_append_left hi]
      · have hhere : here before.length = chosen a := by simpa using hchosen before.length (by simp)
        have hvalue : f before.length = g a := by simpa using hf before.length (by simp)
        cases ha : chosen a with
        | false => simp [hhere, ha]
        | true => simp [hhere, ha, hvalue]

/-! ### Lists that go along with each other -/

variable {l' : List β} {r : α → β → Prop}

theorem exists_of_mem_forall₂ (h : List.Forall₂ r l l') (ha : a ∈ l) :
  ∃ b ∈ l', r a b
  := by
  induction h with
  | nil => cases ha
  | cons hr _ ih =>
      rcases List.mem_cons.mp ha with rfl | ha
      · exact ⟨_, List.mem_cons_self, hr⟩
      · obtain ⟨b, hb, hab⟩ := ih ha
        exact ⟨b, List.mem_cons_of_mem _ hb, hab⟩

/-- What holds of all pairs of a list carries over to a list that goes along with it. -/
theorem pairwise_of_forall₂ {s : α → α → Prop} {t : β → β → Prop} (h : List.Forall₂ r l l')
    (hl : l.Pairwise s) (hst : ∀ a b c d, r a c → r b d → s a b → t c d) :
  l'.Pairwise t
  := by
  induction h with
  | nil => apply List.Pairwise.nil
  | @cons a c l l' hac hrest ih =>
      obtain ⟨ha, hl⟩ := List.pairwise_cons.mp hl
      apply List.pairwise_cons.mpr ⟨?_, ih hl⟩
      intro d hd
      obtain ⟨b, hb, hdb⟩ := exists_of_mem_forall₂ hrest.flip hd
      apply hst a b c d hac hdb (ha b hb)

end AudioPatch
