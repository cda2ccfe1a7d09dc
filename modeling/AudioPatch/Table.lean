/-!
# Ordered tables

A table keeps at most one value for a key and lists its entries by increasing key.
The order of the entries is part of the type, so two tables that answer every
look-up alike are equal.
-/

namespace AudioPatch

/-- A finite map whose entries are listed by strictly increasing key. -/
structure Table (κ α : Type) [LT κ] where
  /-- The keys with their values. -/
  entries : List (κ × α)
  /-- The keys increase from each entry to the next ones. -/
  ordered : entries.Pairwise fun a b => a.1 < b.1
deriving DecidableEq

namespace Table

variable {κ α β : Type} [LT κ]

/-- The table without entries. -/
def empty : Table κ α := ⟨[], .nil⟩

instance : Inhabited (Table κ α) := ⟨empty⟩

/-- The number of entries. -/
def size (t : Table κ α) : Nat := t.entries.length

/-- Whether there is no entry. -/
def isEmpty (t : Table κ α) : Bool := t.entries.isEmpty

/-- The keys, in increasing order. -/
def keys (t : Table κ α) : List κ := t.entries.map (·.1)

/-- The values, in the order of their keys. -/
def values (t : Table κ α) : List α := t.entries.map (·.2)

/-- The value at a key. -/
def find? [DecidableEq κ] (t : Table κ α) (k : κ) : Option α :=
  (t.entries.find? fun e => e.1 = k).map (·.2)

/-- Whether a key has a value. -/
def contains [DecidableEq κ] (t : Table κ α) (k : κ) : Bool :=
  t.entries.any fun e => e.1 = k

/-- Every value replaced, under its key. -/
def map (f : κ → α → β) (t : Table κ α) : Table κ β where
  entries := t.entries.map fun e => (e.1, f e.1 e.2)
  ordered := List.pairwise_map.mpr t.ordered

/-- The entries that satisfy a predicate. -/
def filter (p : κ → α → Bool) (t : Table κ α) : Table κ α where
  entries := t.entries.filter fun e => p e.1 e.2
  ordered := t.ordered.filter _

/-- The value at a key replaced, where there is one. -/
def modify [DecidableEq κ] (t : Table κ α) (k : κ) (f : α → α) : Table κ α :=
  t.map fun k' v => if k' = k then f v else v

/-- The table without the entry of a key. -/
def erase [DecidableEq κ] (t : Table κ α) (k : κ) : Table κ α :=
  t.filter fun k' _ => k' ≠ k

/-! ### Insertion -/

section Insertion

variable [DecidableEq κ] [DecidableLT κ]

/-- A list of entries with a value put at a key: in place of the value that the key
has, or before the first larger key. -/
def insertEntry (k : κ) (v : α) : List (κ × α) → List (κ × α)
  | [] => [(k, v)]
  | e :: rest =>
      if k < e.1 then (k, v) :: e :: rest
      else if k = e.1 then (k, v) :: rest
      else e :: insertEntry k v rest

theorem eq_or_mem_of_mem_insertEntry {k : κ} {v : α} {e : κ × α} {l : List (κ × α)}
    (h : e ∈ insertEntry k v l) :
  e = (k, v) ∨ e ∈ l
  := by
  induction l with
  | nil => exact .inl (List.mem_singleton.mp h)
  | cons a rest ih =>
      simp only [insertEntry] at h
      split at h
      · simpa using h
      · split at h
        · rcases List.mem_cons.mp h with h | h
          · exact .inl h
          · exact .inr (List.mem_cons_of_mem _ h)
        · rcases List.mem_cons.mp h with h | h
          · exact .inr (h ▸ List.mem_cons_self)
          · exact (ih h).imp_right (List.mem_cons_of_mem _)

variable [LE κ] [Std.LawfulOrderLT κ] [Std.IsLinearOrder κ]

theorem pairwise_insertEntry (k : κ) (v : α) {l : List (κ × α)}
    (h : l.Pairwise fun a b => a.1 < b.1) :
  (insertEntry k v l).Pairwise fun a b => a.1 < b.1
  := by
  induction l with
  | nil => exact List.pairwise_singleton _ _
  | cons e rest ih =>
      obtain ⟨he, hrest⟩ := List.pairwise_cons.mp h
      simp only [insertEntry]
      split
      · rename_i hlt
        refine List.pairwise_cons.mpr ⟨fun b hb => ?_, h⟩
        rcases List.mem_cons.mp hb with rfl | hb
        · exact hlt
        · exact Std.lt_trans hlt (he b hb)
      · split
        · rename_i heq
          exact List.pairwise_cons.mpr ⟨fun b hb => heq ▸ he b hb, hrest⟩
        · rename_i hge hne
          refine List.pairwise_cons.mpr ⟨fun b hb => ?_, ih hrest⟩
          rcases eq_or_mem_of_mem_insertEntry hb with rfl | hb
          · exact Std.lt_of_le_of_ne (Std.not_lt.mp hge) (Ne.symm hne)
          · exact he b hb

/-- A value put at a key, in place of the value that the key has. -/
def insert (t : Table κ α) (k : κ) (v : α) : Table κ α :=
  ⟨insertEntry k v t.entries, pairwise_insertEntry k v t.ordered⟩

/-- The table of a list of entries; of two values for one key the later stays. -/
def ofList (l : List (κ × α)) : Table κ α :=
  l.foldl (fun t e => t.insert e.1 e.2) empty

end Insertion

end Table

end AudioPatch
