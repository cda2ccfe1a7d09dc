import AudioPatch.Patch.Saved
import AudioPatch.Proofs.ListOrder
import Mathlib.Data.List.Perm.Basic

/-!
# Fields in another order

A document may give the fields of a table in any order, and programs that pass documents on often
sort them by name. A reader that goes by names finds the same values, their own tables reordered.
-/

namespace AudioPatch

namespace Value

mutual

/-- A value with the fields of its tables, at any depth, in another order. -/
inductive Reorders : Value → Value → Prop where
  | refl (v : Value) : Reorders v v
  | list {items items' : List Value} (h : List.Forall₂ Reorders items items') :
      Reorders (.list items) (.list items')
  | table {fields moved fields' : List (String × Value)}
      (h : List.Forall₂ FieldReorders fields moved) (hmoved : moved.Perm fields') :
      Reorders (.table fields) (.table fields')

/-- A field with the same name and a reordered value. -/
inductive FieldReorders : String × Value → String × Value → Prop where
  | mk (name : String) {v v' : Value} (h : Reorders v v') : FieldReorders (name, v) (name, v')

end

variable {v w : Value} {items : List Value} {fields fields' : List (String × Value)} {α : Type}

theorem FieldReorders.refl (f : String × Value) :
  FieldReorders f f
  := .mk f.1 (.refl f.2)

/-- Each field reordered, and then all of them. -/
def FieldsReorder (fields fields' : List (String × Value)) : Prop :=
  ∃ moved, List.Forall₂ FieldReorders fields moved ∧ moved.Perm fields'

theorem Reorders.exists_of_list (h : (Value.list items).Reorders w) :
  ∃ items', w = .list items' ∧ List.Forall₂ Reorders items items'
  := by
  cases h with
  | refl => exact ⟨items, rfl, List.forall₂_same.mpr fun v _ => .refl v⟩
  | list h => exact ⟨_, rfl, h⟩

theorem Reorders.exists_of_table (h : (Value.table fields).Reorders w) :
  ∃ fields', w = .table fields' ∧ FieldsReorder fields fields'
  := by
  cases h with
  | refl => exact ⟨fields, rfl, fields, List.forall₂_same.mpr fun f _ => .refl f, .refl _⟩
  | table h hmoved => exact ⟨_, rfl, _, h, hmoved⟩

/-! ### Reading -/

theorem mapM_eq_some_of_forall₂ {β : Type} {read? : β → Option α} {l : List α} {bs : List β}
    (h : List.Forall₂ (fun a b => read? b = some a) l bs) :
  bs.mapM read? = some l
  := by
  induction h with
  | nil => rfl
  | cons ha _ ih =>
      rw [List.mapM_cons, ha, ih]
      rfl

/-- A list is read item by item. -/
theorem Reorders.mapM_list {l : List α} {save : α → Value} {read? : Value → Option α}
    (h : (Value.list (l.map save)).Reorders w)
    (hread : ∀ a ∈ l, ∀ v, (save a).Reorders v → read? v = some a) :
  (do (← list? w).mapM read?) = some l
  := by
  obtain ⟨items, rfl, hitems⟩ := h.exists_of_list
  rw [List.forall₂_map_left_iff] at hitems
  apply mapM_eq_some_of_forall₂
  apply ((List.forall₂_and_left l items).mpr ⟨hread, hitems⟩).imp
  rintro a v ⟨hload, hv⟩
  apply hload v hv

namespace FieldsReorder

/-- There are as many fields of a name. -/
theorem names_perm (h : FieldsReorder fields fields') :
  (fields.map Prod.fst).Perm (fields'.map Prod.fst)
  := by
  obtain ⟨moved, h, hmoved⟩ := h
  have hnames : fields.map Prod.fst = moved.map Prod.fst := by
    induction h generalizing fields' with
    | nil => rfl
    | cons hf _ ih =>
        cases hf
        rw [List.map_cons, List.map_cons, ih (.refl _)]
  rw [hnames]
  apply hmoved.map

variable {name : String}

/-- A field is still there, with its value reordered. -/
theorem exists_mem (h : FieldsReorder fields fields') (hv : (name, v) ∈ fields) :
  ∃ v', (name, v') ∈ fields' ∧ v.Reorders v'
  := by
  obtain ⟨moved, h, hmoved⟩ := h
  obtain ⟨f, hf, hreorders⟩ := exists_of_mem_forall₂ h hv
  cases hreorders with
  | mk _ hv' => exact ⟨_, hmoved.mem_iff.mp hf, hv'⟩

/-- The only field of a name is found, with its value reordered. -/
theorem exists_find? (h : FieldsReorder fields fields') (hnames : (fields.map Prod.fst).Nodup)
    (hv : (name, v) ∈ fields) :
  ∃ v', fields'.find? (·.1 = name) = some (name, v') ∧ v.Reorders v'
  := by
  obtain ⟨v', hmem, hv'⟩ := h.exists_mem hv
  refine ⟨v', ?_, hv'⟩
  have hfound : (fields'.find? (·.1 = name)).isSome := by
    rw [List.find?_isSome]
    exact ⟨_, hmem, by simp⟩
  obtain ⟨f, hf⟩ := Option.isSome_iff_exists.mp hfound
  have hname : f.1 = name := by simpa using List.find?_some hf
  rw [hf, List.inj_on_of_nodup_map (h.names_perm.nodup_iff.mp hnames)
    (List.mem_of_find?_eq_some hf) hmem hname]

variable {read? : Value → Option α} {a : α}

theorem required?_eq (h : FieldsReorder fields fields') (hnames : (fields.map Prod.fst).Nodup)
    (hv : (name, v) ∈ fields) (hread : ∀ v', v.Reorders v' → read? v' = some a) :
  required? fields' name read? = some a
  := by
  obtain ⟨v', hfind, hv'⟩ := h.exists_find? hnames hv
  rw [required?, hfind]
  apply hread v' hv'

theorem optional?_eq (h : FieldsReorder fields fields') (hnames : (fields.map Prod.fst).Nodup)
    (hv : (name, v) ∈ fields) (hread : ∀ v', v.Reorders v' → read? v' = some a) {default : α} :
  optional? fields' name default read? = some a
  := by
  obtain ⟨v', hfind, hv'⟩ := h.exists_find? hnames hv
  rw [optional?, hfind]
  apply hread v' hv'

end FieldsReorder

end Value

end AudioPatch
