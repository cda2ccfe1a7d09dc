import AudioPatch.Table
import Mathlib.Data.List.Nodup

/-!
# Looking up in tables

A table is known by its look-ups: each operation is described by what it does to them.
-/

namespace AudioPatch.Table

variable {κ α β : Type} [LT κ]

@[simp]
theorem keys_map (f : κ → α → β) (t : Table κ α) :
  (t.map f).keys = t.keys
  := by
  rw [keys, map, List.map_map]
  rfl

theorem map_map {γ : Type} (f : κ → α → β) (g : κ → β → γ) (t : Table κ α) :
  (t.map f).map g = t.map fun k v => g k (f k v)
  := by
  simp only [map, List.map_map]
  rfl

theorem values_filter (p : α → Bool) (t : Table κ α) :
  (t.filter fun _ v => p v).values = t.values.filter p
  := by
  rw [values, values, List.filter_map]
  rfl

section LookUp

variable [DecidableEq κ]

/-- A value that is looked up is listed with its key. -/
theorem mem_of_find? {t : Table κ α} {k : κ} {v : α} (h : t.find? k = some v) :
  (k, v) ∈ t.entries
  := by
  obtain ⟨e, he, rfl⟩ := Option.map_eq_some_iff.mp h
  obtain rfl : e.1 = k := by simpa using List.find?_some he
  apply List.mem_of_find?_eq_some he

/-- A key that is listed can be looked up. -/
theorem isSome_find?_iff {t : Table κ α} {k : κ} :
  (t.find? k).isSome ↔ k ∈ t.keys
  := by
  rw [find?, Option.isSome_map, List.find?_isSome, keys, List.mem_map]
  simp

theorem mem_keys_of_find? {t : Table κ α} {k : κ} {v : α} (h : t.find? k = some v) :
  k ∈ t.keys
  := List.mem_map_of_mem (mem_of_find? h)

theorem contains_eq_isSome (t : Table κ α) (k : κ) :
  t.contains k = (t.find? k).isSome
  := by
  rw [find?, Option.isSome_map, Bool.eq_iff_iff, List.find?_isSome, contains, List.any_eq_true]

theorem find?_eq_none_iff {t : Table κ α} {k : κ} :
  t.find? k = none ↔ k ∉ t.keys
  := by
  rw [← isSome_find?_iff]
  simp

@[simp]
theorem find?_map (f : κ → α → β) (t : Table κ α) (k : κ) :
  (t.map f).find? k = (t.find? k).map (f k)
  := by
  rw [find?, map, List.find?_map, find?, Option.map_map, Option.map_map]
  cases h : t.entries.find? fun e => e.1 = k with
  | none =>
      simp only [Function.comp_def, h, Option.map_none]
  | some e =>
      obtain rfl : e.1 = k := by simpa using List.find?_some h
      simp only [Function.comp_def, h, Option.map_some]

theorem find?_modify (t : Table κ α) (k : κ) (f : α → α) (k' : κ) :
  (t.modify k f).find? k' = (t.find? k').map fun v => if k' = k then f v else v
  := find?_map _ _ _

@[simp]
theorem keys_modify (t : Table κ α) (k : κ) (f : α → α) :
  (t.modify k f).keys = t.keys
  := keys_map _ _

end LookUp

section Order

variable [LE κ] [Std.LawfulOrderLT κ]

/-- The keys of different entries are different. -/
theorem nodup_keys (t : Table κ α) :
  t.keys.Nodup
  := by
  apply List.pairwise_map.mpr
  apply t.ordered.imp
  intro a b hab heq
  rw [heq] at hab
  apply Std.lt_irrefl hab

/-- Tables with the same entries are equal. -/
theorem eq_of_mem_entries_iff [Std.IsLinearOrder κ] {t t' : Table κ α}
    (h : ∀ e, e ∈ t.entries ↔ e ∈ t'.entries) :
  t = t'
  := by
  have hentries : t.entries = t'.entries := by
    apply List.Perm.eq_of_pairwise _ t.ordered t'.ordered
    · apply (List.perm_ext_iff_of_nodup t.nodup_keys.of_map t'.nodup_keys.of_map).mpr h
    · intro a b _ _ hab hba
      cases Std.lt_irrefl (Std.lt_trans hab hba)
  cases t
  cases t'
  cases hentries
  rfl

variable [DecidableEq κ]

/-- A look-up gives a value exactly if the key is listed with it. -/
theorem find?_eq_some_iff {t : Table κ α} {k : κ} {v : α} :
  t.find? k = some v ↔ (k, v) ∈ t.entries
  := by
  constructor
  · apply mem_of_find?
  · intro h
    have hk : (t.find? k).isSome := isSome_find?_iff.mpr (List.mem_map_of_mem h)
    obtain ⟨w, hw⟩ := Option.isSome_iff_exists.mp hk
    have hsame := List.inj_on_of_nodup_map t.nodup_keys (mem_of_find? hw) h rfl
    rw [hw, (Prod.mk.inj hsame).2]

/-- What is made of the values is made of the keys, if it is so for every entry. -/
theorem map_values_eq {t : Table κ α} {f : α → β} {g : κ → β}
    (h : ∀ k v, t.find? k = some v → f v = g k) :
  t.values.map f = t.keys.map g
  := by
  rw [values, keys, List.map_map, List.map_map]
  apply List.map_congr_left
  intro e he
  apply h e.1 e.2 (find?_eq_some_iff.mpr he)

theorem find?_filter_eq_some_iff {p : κ → α → Bool} {t : Table κ α} {k : κ} {v : α} :
  (t.filter p).find? k = some v ↔ t.find? k = some v ∧ p k v
  := by
  rw [find?_eq_some_iff, find?_eq_some_iff, filter, List.mem_filter]

theorem find?_erase {t : Table κ α} {k k' : κ} :
  (t.erase k).find? k' = if k' = k then none else t.find? k'
  := by
  apply Option.ext
  intro v
  rw [erase, find?_filter_eq_some_iff, decide_eq_true_iff, Option.ite_none_left_eq_some, and_comm]

end Order

section Insertion

variable [LE κ] [Std.LawfulOrderLT κ] [Std.IsLinearOrder κ] [DecidableEq κ] [DecidableLT κ]

/-- The entries after an insertion are the new one and those with other keys. -/
theorem mem_insertEntry_iff {k : κ} {v : α} {e : κ × α} {l : List (κ × α)}
    (hl : l.Pairwise fun a b => a.1 < b.1) :
  e ∈ insertEntry k v l ↔ e = (k, v) ∨ e ∈ l ∧ e.1 ≠ k
  := by
  induction l with
  | nil => simp [insertEntry]
  | cons a rest ih =>
      obtain ⟨ha, hrest⟩ := List.pairwise_cons.mp hl
      have hne : ∀ x ∈ rest, x.1 ≠ a.1 := by
        intro x hx heq
        have := ha x hx
        rw [heq] at this
        apply Std.lt_irrefl this
      simp only [insertEntry]
      split
      · rename_i hlt
        -- All keys of the list are larger, so none of its entries is left out.
        have hk : ∀ x ∈ a :: rest, x.1 ≠ k := by
          intro x hx heq
          rcases List.mem_cons.mp hx with rfl | hx
          · rw [heq] at hlt
            apply Std.lt_irrefl hlt
          · have := Std.lt_trans hlt (ha x hx)
            rw [heq] at this
            apply Std.lt_irrefl this
        rw [List.mem_cons]
        constructor
        · rintro (rfl | he)
          · exact .inl rfl
          · exact .inr ⟨he, hk e he⟩
        · rintro (rfl | ⟨he, -⟩)
          · exact .inl rfl
          · exact .inr he
      · split
        · rename_i heq
          subst heq
          rw [List.mem_cons, List.mem_cons]
          constructor
          · rintro (rfl | he)
            · exact .inl rfl
            · exact .inr ⟨.inr he, hne e he⟩
          · rintro (rfl | ⟨rfl | he, hek⟩)
            · exact .inl rfl
            · exact absurd rfl hek
            · exact .inr he
        · rename_i hka
          rw [List.mem_cons, List.mem_cons, ih hrest]
          constructor
          · rintro (rfl | rfl | ⟨he, hek⟩)
            · exact .inr ⟨.inl rfl, fun h => hka h.symm⟩
            · exact .inl rfl
            · exact .inr ⟨.inr he, hek⟩
          · rintro (rfl | ⟨rfl | he, hek⟩)
            · exact .inr (.inl rfl)
            · exact .inl rfl
            · exact .inr (.inr ⟨he, hek⟩)

theorem find?_insert_eq_some_iff {t : Table κ α} {k k' : κ} {v w : α} :
  (t.insert k v).find? k' = some w ↔ (k' = k ∧ w = v) ∨ (k' ≠ k ∧ t.find? k' = some w)
  := by
  rw [find?_eq_some_iff, insert, mem_insertEntry_iff t.ordered, find?_eq_some_iff, Prod.mk.injEq,
    and_comm (a := (k', w) ∈ t.entries)]

@[simp]
theorem find?_insert_self (t : Table κ α) (k : κ) (v : α) :
  (t.insert k v).find? k = some v
  := find?_insert_eq_some_iff.mpr (.inl ⟨rfl, rfl⟩)

theorem find?_insert_of_ne {t : Table κ α} {k k' : κ} {v : α} (h : k' ≠ k) :
  (t.insert k v).find? k' = t.find? k'
  := by
  apply Option.ext
  intro w
  rw [find?_insert_eq_some_iff]
  simp [h]

theorem find?_insert {t : Table κ α} {k k' : κ} {v : α} :
  (t.insert k v).find? k' = if k' = k then some v else t.find? k'
  := by
  by_cases h : k' = k
  · rw [if_pos h, h, find?_insert_self]
  · rw [if_neg h, find?_insert_of_ne h]

/-- To put the value at a key that is already there changes nothing. -/
theorem insert_of_find? {t : Table κ α} {k : κ} {v : α} (h : t.find? k = some v) :
  t.insert k v = t
  := by
  apply eq_of_mem_entries_iff
  intro ⟨k', w⟩
  rw [← find?_eq_some_iff, ← find?_eq_some_iff, find?_insert]
  by_cases hk : k' = k
  · rw [if_pos hk, hk, h]
  · rw [if_neg hk]

theorem mem_keys_insert_iff {t : Table κ α} {k k' : κ} {v : α} :
  k' ∈ (t.insert k v).keys ↔ k' = k ∨ k' ∈ t.keys
  := by
  by_cases h : k' = k
  · simp [h, ← isSome_find?_iff]
  · rw [← isSome_find?_iff, find?_insert_of_ne h, isSome_find?_iff]
    simp [h]

/-- Of entries with different keys, all are in the table. -/
theorem mem_entries_ofList_iff {l : List (κ × α)} (hl : (l.map Prod.fst).Nodup) {e : κ × α} :
  e ∈ (ofList l).entries ↔ e ∈ l
  := by
  -- Entries that are put in later do not have the keys of those that are already there.
  have hrun : ∀ t : Table κ α, (∀ k ∈ t.keys, k ∉ l.map Prod.fst) →
      (e ∈ (l.foldl (fun t e => t.insert e.1 e.2) t).entries ↔ e ∈ t.entries ∨ e ∈ l) := by
    induction l with
    | nil => simp
    | cons a rest ih =>
        intro t ht
        obtain ⟨ha, hrest⟩ := List.nodup_cons.mp hl
        have hfresh : ∀ x ∈ t.entries, x.1 ≠ a.1 := by
          intro x hx heq
          apply ht x.1 (List.mem_map_of_mem hx)
          rw [heq]
          apply List.mem_cons_self
        rw [List.foldl_cons, ih hrest, insert, mem_insertEntry_iff t.ordered, List.mem_cons]
        · constructor
          · rintro ((rfl | ⟨he, -⟩) | he)
            · exact .inr (.inl rfl)
            · exact .inl he
            · exact .inr (.inr he)
          · rintro (he | rfl | he)
            · exact .inl (.inr ⟨he, hfresh e he⟩)
            · exact .inl (.inl rfl)
            · exact .inr he
        · intro k hk
          rcases mem_keys_insert_iff.mp hk with rfl | hk
          · apply ha
          · exact fun hmem => ht k hk (List.mem_cons_of_mem _ hmem)
  rw [ofList, hrun empty (by simp [keys, empty])]
  simp [empty]

/-- A table can be made of its entries in any order. -/
theorem ofList_eq {t : Table κ α} {l : List (κ × α)} (h : t.entries.Perm l) :
  ofList l = t
  := by
  apply eq_of_mem_entries_iff
  intro e
  have hkeys : (l.map Prod.fst).Nodup := (h.map Prod.fst).nodup_iff.mp t.nodup_keys
  rw [mem_entries_ofList_iff hkeys, h.mem_iff]

end Insertion

end AudioPatch.Table
