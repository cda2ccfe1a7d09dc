import AudioPatch.Code.Basic

/-!
# Code put together from pieces

Texts that meet are joined, so to append code is more than to append its elements. It is
associative all the same, and code that is put together in parts is the code of all the pieces.
-/

namespace AudioPatch.Code

/-! ### One more element -/

theorem push_text_of_ne {code : Code} {s : String} (hs : s ≠ "")
    (h : ∀ t, code.getLast? ≠ some (.text t)) :
  code.push (.text s) = code ++ [.text s]
  := by
  rw [push, if_neg hs]
  split
  · rename_i t ht
    exact absurd ht (h t)
  · rfl

theorem push_append_text {code : Code} {s t : String} (hs : s ≠ "") :
  Code.push (code ++ [.text t]) (.text s) = code ++ [.text (t ++ s)]
  := by
  rw [push, if_neg hs, List.getLast?_concat, List.dropLast_concat]

/-- Two texts one after the other are as good as one. -/
theorem push_push_text (code : Code) {s : String} (hs : s ≠ "") (t : String) :
  (code.push (.text t)).push (.text s) = code.push (.text (t ++ s))
  := by
  by_cases ht : t = ""
  · rw [ht, String.empty_append]
    rfl
  · have hts : t ++ s ≠ "" := by simp [hs]
    by_cases hlast : ∃ u, code.getLast? = some (.text u)
    · obtain ⟨u, hu⟩ := hlast
      obtain ⟨before, rfl⟩ := List.getLast?_eq_some_iff.mp hu
      rw [push_append_text ht, push_append_text hs, push_append_text hts, String.append_assoc]
    · rw [not_exists] at hlast
      rw [push_text_of_ne ht hlast, push_append_text hs, push_text_of_ne hts hlast]

/-! ### Code after code -/

theorem append_concat (a b : Code) (e : Element) :
  a.append (b ++ [e]) = (a.append b).push e
  := by
  rw [append, List.foldl_append]
  rfl

theorem append_push (a b : Code) (e : Element) :
  a.append (b.push e) = (a.append b).push e
  := by
  cases e with
  | text s =>
      by_cases hs : s = ""
      · rw [push, if_pos hs, push, if_pos hs]
      · by_cases hlast : ∃ t, b.getLast? = some (.text t)
        · obtain ⟨t, ht⟩ := hlast
          obtain ⟨before, rfl⟩ := List.getLast?_eq_some_iff.mp ht
          rw [push_append_text hs, append_concat, append_concat, push_push_text _ hs]
        · rw [not_exists] at hlast
          rw [push_text_of_ne hs hlast, append_concat]
  | binding => apply append_concat
  | function => apply append_concat

theorem append_assoc (a b c : Code) :
  (a.append b).append c = a.append (b.append c)
  := by
  induction c generalizing b with
  | nil => rfl
  | cons e rest ih =>
      show ((a.append b).push e).append rest = a.append ((b.push e).append rest)
      rw [← append_push, ih]

/-! ### Many pieces -/

theorem append_foldl (a b : Code) (pieces : List Code) :
  a.append (pieces.foldl append b) = pieces.foldl append (a.append b)
  := by
  induction pieces generalizing b with
  | nil => rfl
  | cons piece rest ih =>
      rw [List.foldl_cons, List.foldl_cons, ih, append_assoc]

theorem concat_append_singleton (pieces : List Code) (piece : Code) :
  concat (pieces ++ [piece]) = (concat pieces).append piece
  := by
  rw [concat, List.foldl_append]
  rfl

theorem concat_append (pieces more : List Code) :
  concat (pieces ++ more) = (concat pieces).append (concat more)
  := by
  rw [concat, List.foldl_append, concat, concat, append_foldl]
  rfl

theorem concat_cons (piece : Code) (pieces : List Code) :
  concat (piece :: pieces) = (concat [piece]).append (concat pieces)
  := concat_append [piece] pieces

theorem concat_singleton_concat (pieces : List Code) :
  concat [concat pieces] = concat pieces
  := append_foldl empty empty pieces

/-- Code that is put together in parts. -/
theorem concat_flatten (parts : List (List Code)) :
  concat parts.flatten = concat (parts.map concat)
  := by
  induction parts with
  | nil => rfl
  | cons part rest ih =>
      rw [List.flatten_cons, concat_append, ih, List.map_cons, concat_cons (concat part),
        concat_singleton_concat]

/-- Pieces without code can be left out. -/
theorem concat_map_filter {α : Type} {keep : α → Bool} {f : α → Code} (l : List α)
    (h : ∀ a, ¬ keep a → f a = empty) :
  concat ((l.filter keep).map f) = concat (l.map f)
  := by
  induction l with
  | nil => rfl
  | cons a rest ih =>
      rw [List.map_cons, concat_cons (f a), ← ih]
      by_cases ha : keep a
      · rw [List.filter_cons_of_pos ha, List.map_cons, concat_cons (f a)]
      · rw [List.filter_cons_of_neg ha, h a ha]
        symm
        apply append_foldl empty empty

end AudioPatch.Code
