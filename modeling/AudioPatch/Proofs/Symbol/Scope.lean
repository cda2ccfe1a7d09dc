import AudioPatch.Proofs.Outcome
import AudioPatch.Proofs.Table
import Mathlib.Data.String.Basic

/-!
# Looking up in scopes

Names that can be parts of symbols and numbers are their own canonical keys, and different
numbers are different keys. A scope is known by its look-ups, like a table: what an operation does
depends only on whether its key has a value.
-/

namespace AudioPatch

/-! ### Keys -/

/-- A key that does not start with a dollar sign is canonical. -/
theorem canonicalKey_of_head {key : String} (h : ∀ rest, key.toList ≠ '$' :: rest) :
  canonicalKey key = key
  := by
  rw [canonicalKey]
  split
  · rename_i digits hdigits
    exact absurd hdigits (h digits)
  · rfl

theorem isNamePart_iff {part : String} :
  isNamePart part ↔ part ≠ "" ∧ ∀ c ∈ part.toList, c.isAlphanum ∨ c = '_'
  := by
  simp [isNamePart]

theorem checkNamePart_of_isNamePart {part : String} (h : isNamePart part) :
  checkNamePart part = .ok ()
  := if_pos h

theorem canonicalKey_of_isNamePart {part : String} (h : isNamePart part) :
  canonicalKey part = part
  := by
  apply canonicalKey_of_head
  intro rest hrest
  have hdollar := (isNamePart_iff.mp h).2 '$' (by simp [hrest])
  revert hdollar
  decide

theorem canonicalKey_toString (k : Nat) :
  canonicalKey (toString k) = toString k
  := by
  apply canonicalKey_of_head
  intro rest hrest
  have hdigit : ('$' : Char).isDigit := by
    apply Nat.isDigit_of_mem_toDigits (b := 10) (n := k) (by decide) (by decide)
    rw [← Nat.toList_repr]
    show '$' ∈ (toString k).toList
    rw [hrest]
    apply List.mem_cons_self
  revert hdigit
  decide

theorem canonicalKey_portlet (q : UInt32) :
  canonicalKey (toString q) = toString q
  := canonicalKey_toString q.toNat

/-- Different numbers are written differently. -/
theorem toString_nat_injective :
  Function.Injective (toString : Nat → String)
  := by
  intro k l h
  have hdigits : Nat.toDigits 10 k = Nat.toDigits 10 l := by
    rw [← Nat.toList_repr, ← Nat.toList_repr]
    apply congrArg String.toList h
  rw [← Nat.ofDigitChars_ten_toDigits (n := k), hdigits, Nat.ofDigitChars_ten_toDigits]

theorem toString_portlet_injective :
  Function.Injective (toString : UInt32 → String)
  := by
  intro q r h
  apply UInt32.toNat_inj.mp
  apply toString_nat_injective h

/-! ### Look-ups -/

namespace Scope

variable {α : Type} {s : Scope α} {key key' : String} {v w : α}

@[simp]
theorem get?_empty (name key : String) :
  (empty name : Scope α).get? key = none
  := rfl

theorem get_eq_ok_iff :
  s.get key = .ok v ↔ s.get? key = some v
  := by
  rw [get]
  cases s.get? key with
  | none => simp
  | some w => simp

/-- Keys with one canonical form have one value. -/
theorem get?_congr (h : canonicalKey key = canonicalKey key') :
  s.get? key = s.get? key'
  := by
  rw [get?, get?, h]

theorem contains_eq_isSome :
  s.contains key = (s.get? key).isSome
  := Table.contains_eq_isSome s.entries (canonicalKey key)

@[simp]
theorem name_put :
  (s.put key v).name = s.name
  := rfl

/-- After a value is put at a key it is found there, and nothing else has changed. -/
theorem get?_put :
  (s.put key v).get? key' = if canonicalKey key' = canonicalKey key then some v else s.get? key'
  := by
  rw [get?, put]
  by_cases h : canonicalKey key' = canonicalKey key
  · rw [if_pos h, h, Table.find?_insert_self]
  · rw [if_neg h, Table.find?_insert_of_ne h, get?]

theorem get?_put_self :
  (s.put key v).get? key = some v
  := by
  rw [get?_put, if_pos rfl]

theorem get?_put_of_ne (h : canonicalKey key' ≠ canonicalKey key) :
  (s.put key v).get? key' = s.get? key'
  := by
  rw [get?_put, if_neg h]

theorem put_of_get? (h : s.get? key = some v) :
  s.put key v = s
  := by
  rw [put, Table.insert_of_find? h]

theorem get?_put_portlet {q q' : UInt32} :
  (s.put (toString q) v).get? (toString q') = if q' = q then some v else s.get? (toString q')
  := by
  rw [get?_put, canonicalKey_portlet, canonicalKey_portlet]
  simp only [toString_portlet_injective.eq_iff]

/-- A declaration puts a value at a key that has none, and fails at a key that has one. -/
theorem meets_declare (s : Scope α) (key : String) (v : α) :
  Meets (s.declare key v) (fun s' => s.get? key = none ∧ s' = s.put key v)
    (fun e => (s.get? key).isSome ∧ e = .alreadyAssigned s.name (canonicalKey key))
  := by
  rw [declare, contains_eq_isSome]
  cases h : s.get? key with
  | none => simp
  | some w => simp

theorem set_eq_ok (h : (s.get? key).isSome) :
  s.set key v = .ok (s.put key v)
  := by
  rw [set, contains_eq_isSome, if_pos h]

/-! ### Keys with and without a value -/

theorem contains_eq_false_iff :
  s.contains key = false ↔ s.get? key = none
  := by
  rw [contains_eq_isSome, Option.isSome_eq_false_iff, Option.isNone_iff_eq_none]

theorem get_of_none (h : s.get? key = none) :
  s.get key = .error (.unknownKey s.name key)
  := by
  rw [get, h]

/-- A probe key is looked for as it is written, which is how it is kept. -/
theorem canonicalKey_of_probe (h : key ∈ probeKeys) :
  canonicalKey key = key
  := by
  revert key
  decide

theorem lookup_of_some (h : s.get? key = some v) :
  s.lookup key = .ok (some v)
  := by
  rw [lookup, if_neg, get_eq_ok_iff.mpr h]
  · rfl
  · rintro ⟨hprobe, habsent⟩
    apply habsent
    rw [Table.contains_eq_isSome, ← canonicalKey_of_probe hprobe]
    apply Option.isSome_of_eq_some h

theorem lookup_of_none (h : s.get? key = none) :
  s.lookup key =
    if key ∈ probeKeys then .ok none else .error (.unknownKey s.name key)
  := by
  rw [lookup]
  by_cases hprobe : key ∈ probeKeys
  · have habsent : ¬ s.entries.contains key := by
      rw [Table.contains_eq_isSome, ← canonicalKey_of_probe hprobe, ← get?, h]
      apply Bool.false_ne_true
    rw [if_pos ⟨hprobe, habsent⟩, if_pos hprobe]
  · rw [if_neg fun hboth => hprobe hboth.1, if_neg hprobe, get_of_none h]
    rfl

theorem getOrDeclare_of_some (h : s.get? key = some v) (w : α) :
  s.getOrDeclare key w = (v, s)
  := by
  rw [getOrDeclare, h]

theorem getOrDeclare_of_none (h : s.get? key = none) (v : α) :
  s.getOrDeclare key v = (v, s.put key v)
  := by
  rw [getOrDeclare, h]

theorem declare_of_none (h : s.get? key = none) (v : α) :
  s.declare key v = .ok (s.put key v)
  := by
  rw [declare, contains_eq_isSome, h]
  rfl

theorem declare_of_some (h : s.get? key = some w) (v : α) :
  s.declare key v = .error (.alreadyAssigned s.name (canonicalKey key))
  := by
  rw [declare, contains_eq_isSome, h]
  rfl

theorem exists_declare_iff :
  (∃ s', s.declare key v = .ok s') ↔ s.get? key = none
  := by
  cases h : s.get? key with
  | none => simp [declare_of_none h]
  | some w => simp [declare_of_some h]

theorem exists_get_error_iff :
  (∃ e, s.get key = .error e) ↔ s.get? key = none
  := by
  cases h : s.get? key with
  | none => simp [get_of_none h]
  | some w => simp [get_eq_ok_iff.mpr h]

theorem lookup_eq_ok_none_iff :
  s.lookup key = .ok none ↔ key ∈ probeKeys ∧ s.get? key = none
  := by
  cases h : s.get? key with
  | none =>
      rw [lookup_of_none h]
      by_cases hprobe : key ∈ probeKeys
      · simp [hprobe]
      · simp [hprobe]
  | some v => simp [lookup_of_some h]

/-- To look up a key is to get its value, but for a probe key without a value. -/
theorem lookup_eq_map_get (h : s.lookup key ≠ .ok none) :
  s.lookup key = (s.get key).map some
  := by
  cases hkey : s.get? key with
  | none =>
      have hprobe : key ∉ probeKeys := fun hprobe => h (lookup_eq_ok_none_iff.mpr ⟨hprobe, hkey⟩)
      rw [lookup_of_none hkey, if_neg hprobe, get_of_none hkey]
      rfl
  | some v =>
      rw [lookup_of_some hkey, get_eq_ok_iff.mpr hkey]
      rfl

end Scope

/-! ### Runs of calls -/

/-- The answers to calls, and the state after them. -/
def answerAll {σ γ ρ : Type} (answer : σ → γ → ρ × σ) (s : σ) : List γ → List ρ × σ
  | [] => ([], s)
  | c :: rest =>
      let (first, s) := answer s c
      let (others, s) := answerAll answer s rest
      (first :: others, s)

theorem answerAll_snoc {σ γ ρ : Type} (answer : σ → γ → ρ × σ) (s : σ) (calls : List γ) (c : γ) :
  (answerAll answer s (calls ++ [c])).2 = (answer (answerAll answer s calls).2 c).2
  := by
  induction calls generalizing s with
  | nil => rfl
  | cons d rest ih => apply ih

/-- If each call is answered alike from a state and from a view of it, so are all. -/
theorem answerAll_view {σ τ γ ρ : Type} {answer : σ → γ → ρ × σ} {answer' : τ → γ → ρ × τ}
    {view : σ → τ} (h : ∀ s c, answer' (view s) c = ((answer s c).1, view (answer s c).2))
    (s : σ) (calls : List γ) :
  answerAll answer' (view s) calls =
    ((answerAll answer s calls).1, view (answerAll answer s calls).2)
  := by
  induction calls generalizing s with
  | nil => rfl
  | cons c rest ih => simp only [answerAll, h, ih]

end AudioPatch
