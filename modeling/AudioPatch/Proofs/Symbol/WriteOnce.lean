import AudioPatch.Proofs.Symbol.Scope
import AudioPatch.Proofs.Text.ByteOrder
import Mathlib.Data.List.Induction
import Mathlib.Logic.Function.Basic

/-!
# Scopes as write-once maps

Two spellings are one key if they differ at most by a dollar sign before digits. A scope that is
made by calls behaves like a map on such keys to which a value can only be added. A key has the
value that some call assigned to a spelling of it, and keeps that value in all later calls
(`Scope.get?_reached_iff`).
-/

namespace AudioPatch

/-! ### Spellings of one key -/

/-- A key is written as a dollar sign before some digits. -/
def Dollars (key digits : String) : Prop :=
  digits ≠ "" ∧ (∀ c ∈ digits.toList, c.isDigit) ∧ key = "$" ++ digits

/-- Two keys are equal, or differ only by a dollar sign before digits. -/
def SameKey (a b : String) : Prop :=
  a = b ∨ Dollars a b ∨ Dollars b a

theorem canonicalKey_of_dollars {key digits : String} (h : Dollars key digits) :
  canonicalKey key = digits
  := by
  obtain ⟨hne, hdigits, rfl⟩ := h
  have hlist : ("$" ++ digits).toList = '$' :: digits.toList := String.toList_append
  rw [canonicalKey, hlist]
  simp only [List.all_eq_true]
  rw [if_pos ⟨mt String.toList_eq_nil_iff.mp hne, hdigits⟩, String.ofList_toList]

theorem canonicalKey_of_not_dollars {key : String} (h : ∀ digits, ¬ Dollars key digits) :
  canonicalKey key = key
  := by
  rw [canonicalKey]
  split
  · rename_i digits hkey
    apply if_neg
    rintro ⟨hne, hdigits⟩
    apply h (String.ofList digits)
    refine ⟨?_, ?_, ?_⟩
    · simpa using hne
    · simpa using hdigits
    · rw [← String.toList_inj, hkey]
      simp
  · rfl

theorem canonicalKey_cases (key : String) :
  Dollars key (canonicalKey key) ∨ canonicalKey key = key
  := by
  by_cases h : ∃ digits, Dollars key digits
  · obtain ⟨digits, hdigits⟩ := h
    rw [canonicalKey_of_dollars hdigits]
    exact .inl hdigits
  · exact .inr (canonicalKey_of_not_dollars (not_exists.mp h))

/-- What stands after a dollar sign is canonical. -/
theorem Dollars.canonicalKey_eq {key digits : String} (h : Dollars key digits) :
  canonicalKey digits = digits
  := by
  apply canonicalKey_of_head
  intro rest hrest
  have hdollar := h.2.1 '$' (by simp [hrest])
  revert hdollar
  decide

theorem canonicalKey_idem (key : String) :
  canonicalKey (canonicalKey key) = canonicalKey key
  := by
  rcases canonicalKey_cases key with h | h
  · apply h.canonicalKey_eq
  · rw [h, h]

theorem not_dollars_canonicalKey (key digits : String) :
  ¬ Dollars (canonicalKey key) digits
  := by
  intro h
  have hsame : canonicalKey key = digits := by
    rw [← canonicalKey_idem, canonicalKey_of_dollars h]
  have hlength := congrArg String.length h.2.2
  rw [hsame, String.length_append] at hlength
  have : "$".length = 1 := rfl
  omega

/-- Spellings of one key have the same canonical form, and no others have. -/
theorem canonicalKey_eq_iff {a b : String} :
  canonicalKey a = canonicalKey b ↔ SameKey a b
  := by
  constructor
  · intro h
    rcases canonicalKey_cases a with ha | ha
    · rcases canonicalKey_cases b with hb | hb
      · rw [SameKey, ha.2.2, hb.2.2, h]
        exact .inl rfl
      · rw [h, hb] at ha
        exact .inr (.inl ha)
    · rcases canonicalKey_cases b with hb | hb
      · rw [← h, ha] at hb
        exact .inr (.inr hb)
      · rw [ha, hb] at h
        exact .inl h
  · rintro (rfl | h | h)
    · rfl
    · rw [canonicalKey_of_dollars h, h.canonicalKey_eq]
    · rw [canonicalKey_of_dollars h, h.canonicalKey_eq]

theorem sameKey_canonicalKey (key : String) :
  SameKey (canonicalKey key) key
  := canonicalKey_eq_iff.mp (canonicalKey_idem key)

instance : DecidableRel SameKey := fun _ _ => decidable_of_iff _ canonicalKey_eq_iff

/-- Spellings of one key are equivalent. -/
def keySetoid : Setoid String where
  r := SameKey
  iseqv :=
    { refl := fun _ => .inl rfl
      symm := fun h => canonicalKey_eq_iff.mp (canonicalKey_eq_iff.mpr h).symm
      trans := fun h h' =>
        canonicalKey_eq_iff.mp ((canonicalKey_eq_iff.mpr h).trans (canonicalKey_eq_iff.mpr h')) }

/-- A key, however it is written. -/
abbrev Key : Type := Quotient keySetoid

/-- The key with a spelling. -/
def Key.of (key : String) : Key := Quotient.mk keySetoid key

theorem Key.of_eq_of_iff {a b : String} :
  Key.of a = Key.of b ↔ canonicalKey a = canonicalKey b
  := Quotient.eq.trans canonicalKey_eq_iff.symm

instance : DecidableEq Key :=
  @Quotient.decidableEq String keySetoid fun a b => inferInstanceAs (Decidable (SameKey a b))

/-! ### Calls -/

namespace Scope

variable {α : Type}

/-- A use of a scope. -/
inductive Call (α : Type) where
  | declare (key : String) (v : α)
  | get (key : String)
  | lookup (key : String)
  | getOrDeclare (key : String) (v : α)
  | contains (key : String)

/-- A value or none, or whether there is one. -/
abbrev Answer (α : Type) := Except SymbolError (Option α ⊕ Bool)

/-- The answer to a call, and the scope after it. -/
def call (s : Scope α) : Call α → Answer α × Scope α
  | .declare key v =>
      match s.declare key v with
      | .ok s' => (.ok (.inl (some v)), s')
      | .error e => (.error e, s)
  | .get key => ((s.get key).map fun v => .inl (some v), s)
  | .lookup key => ((s.lookup key).map .inl, s)
  | .getOrDeclare key v =>
      let (w, s') := s.getOrDeclare key v
      (.ok (.inl (some w)), s')
  | .contains key => (.ok (.inr (s.contains key)), s)

/-- A scope that was empty, after some calls. -/
def reached (name : String) (calls : List (Call α)) : Scope α :=
  (answerAll call (empty name) calls).2

/-- A call assigns a value to a key: it declares the key and succeeds, or it asks for the key with
a value for the case that there is none, and there is none. -/
inductive Assigns (s : Scope α) : Call α → String → α → Prop
  | declare {key v s'} (h : s.declare key v = .ok s') : Assigns s (.declare key v) key v
  | getOrDeclare {key v} (h : s.contains key = false) : Assigns s (.getOrDeclare key v) key v

/-- One of the calls assigned a value to some spelling of a key. -/
def Assigned (name : String) (calls : List (Call α)) (key : String) (v : α) : Prop :=
  ∃ before c after key', calls = before ++ c :: after ∧ SameKey key' key ∧
    Assigns (reached name before) c key' v

/-! ### Write-once maps -/

/-- A map on keys to which values are added. -/
@[ext]
structure Ledger (α : Type) where
  /-- The path that stands in messages. -/
  name : String
  /-- The values of the keys that have one. -/
  value? : Key → Option α

namespace Ledger

/-- The map with a value for one more key. -/
def assign (m : Ledger α) (key : String) (v : α) : Ledger α :=
  { m with value? := Function.update m.value? (.of key) (some v) }

/-- The answer to a call, and the map after it. -/
def call (m : Ledger α) (c : Call α) : Answer α × Ledger α :=
  match c with
  | .declare key v =>
      match m.value? (.of key) with
      | some _ => (.error (.alreadyAssigned m.name (canonicalKey key)), m)
      | none => (.ok (.inl (some v)), m.assign key v)
  | .get key =>
      match m.value? (.of key) with
      | some v => (.ok (.inl (some v)), m)
      | none => (.error (.unknownKey m.name key), m)
  | .lookup key =>
      match m.value? (.of key) with
      | some v => (.ok (.inl (some v)), m)
      | none =>
          if key ∈ probeKeys then (.ok (.inl none), m) else (.error (.unknownKey m.name key), m)
  | .getOrDeclare key v =>
      match m.value? (.of key) with
      | some w => (.ok (.inl (some w)), m)
      | none => (.ok (.inl (some v)), m.assign key v)
  | .contains key => (.ok (.inr (m.value? (.of key)).isSome), m)

end Ledger

/-- What a scope holds, without the spelling of its keys. -/
def ledger (s : Scope α) : Ledger α where
  name := s.name
  value? := Quotient.lift s.get? fun _ _ h => get?_congr (canonicalKey_eq_iff.mpr h)

theorem value?_ledger (s : Scope α) (key : String) :
  s.ledger.value? (.of key) = s.get? key
  := rfl

theorem Ledger.value?_assign (m : Ledger α) (key key' : String) (v : α) :
  (m.assign key v).value? (.of key') =
    if canonicalKey key' = canonicalKey key then some v else m.value? (.of key')
  := by
  simp only [assign, Function.update_apply, Key.of_eq_of_iff]

variable {s : Scope α} {name key key' : String} {v w : α} {c : Call α} {calls : List (Call α)}

theorem ledger_put :
  (s.put key v).ledger = s.ledger.assign key v
  := by
  apply Ledger.ext
  · rfl
  funext k
  obtain ⟨key', rfl⟩ : ∃ key', Key.of key' = k := Quotient.exists_rep k
  rw [value?_ledger, get?_put, Ledger.value?_assign, value?_ledger]

theorem ledger_empty (name : String) :
  (empty name : Scope α).ledger = ⟨name, fun _ => none⟩
  := by
  apply Ledger.ext
  · rfl
  funext k
  obtain ⟨key, rfl⟩ : ∃ key, Key.of key = k := Quotient.exists_rep k
  rfl

/-! ### One call -/

/-- A call is answered like one of the map, and does the same to it. -/
theorem call_ledger (s : Scope α) (c : Call α) :
  s.ledger.call c = ((s.call c).1, (s.call c).2.ledger)
  := by
  cases c with
  | declare key v =>
      cases h : s.get? key with
      | none => simp only [call, Ledger.call, value?_ledger, h, declare_of_none h, ledger_put]
      | some w =>
          simp only [call, Ledger.call, value?_ledger, h, declare_of_some h]
          rfl
  | get key =>
      cases h : s.get? key with
      | none =>
          simp only [call, Ledger.call, value?_ledger, h, get_of_none h]
          rfl
      | some w =>
          simp only [call, Ledger.call, value?_ledger, h, get_eq_ok_iff.mpr h]
          rfl
  | lookup key =>
      cases h : s.get? key with
      | none =>
          simp only [call, Ledger.call, value?_ledger, h, lookup_of_none h]
          by_cases hprobe : key ∈ probeKeys
          · rw [if_pos hprobe, if_pos hprobe]
            rfl
          · rw [if_neg hprobe, if_neg hprobe]
            rfl
      | some w =>
          simp only [call, Ledger.call, value?_ledger, h, lookup_of_some h]
          rfl
  | getOrDeclare key v =>
      cases h : s.get? key with
      | none => simp only [call, Ledger.call, value?_ledger, h, getOrDeclare_of_none h, ledger_put]
      | some w => simp only [call, Ledger.call, value?_ledger, h, getOrDeclare_of_some h]
  | contains key => simp only [call, Ledger.call, value?_ledger, contains_eq_isSome]

namespace Assigns

theorem get?_eq_none (h : Assigns s c key v) :
  s.get? key = none
  := by
  cases h with
  | declare h => apply ((s.meets_declare key v).of_eq_ok h).1
  | getOrDeclare h => apply contains_eq_false_iff.mp h

theorem snd_call (h : Assigns s c key v) :
  (s.call c).2 = s.put key v
  := by
  have hnone := h.get?_eq_none
  cases h with
  | declare h => simp only [call, declare_of_none hnone]
  | getOrDeclare h => simp only [call, getOrDeclare_of_none hnone]

theorem unique (h : Assigns s c key v) (h' : Assigns s c key' w) :
  key = key' ∧ v = w
  := by
  cases h with
  | declare h => cases h' with | declare h' => exact ⟨rfl, rfl⟩
  | getOrDeclare h => cases h' with | getOrDeclare h' => exact ⟨rfl, rfl⟩

end Assigns

/-- A call that assigns nothing changes nothing. -/
theorem snd_call_of_not_assigns (h : ∀ key v, ¬ Assigns s c key v) :
  (s.call c).2 = s
  := by
  cases c with
  | declare key v =>
      cases hkey : s.get? key with
      | none => exact absurd (.declare (declare_of_none hkey v)) (h key v)
      | some w => simp only [call, declare_of_some hkey]
  | get key => rfl
  | lookup key => rfl
  | getOrDeclare key v =>
      cases hkey : s.get? key with
      | none => exact absurd (.getOrDeclare (contains_eq_false_iff.mpr hkey)) (h key v)
      | some w => simp only [call, getOrDeclare_of_some hkey]
  | contains key => rfl

/-- A call assigns one value to one key, or changes nothing. -/
theorem call_cases (s : Scope α) (c : Call α) :
  (∃ key v, Assigns s c key v ∧ (s.call c).2 = s.put key v) ∨
    (∀ key v, ¬ Assigns s c key v) ∧ (s.call c).2 = s
  := by
  by_cases h : ∃ key v, Assigns s c key v
  · obtain ⟨key, v, h⟩ := h
    exact .inl ⟨key, v, h, h.snd_call⟩
  · simp only [not_exists] at h
    exact .inr ⟨h, snd_call_of_not_assigns h⟩

/-- After a call, a key has the value that it had or that the call assigned to a spelling of it. -/
theorem get?_call_iff :
  (s.call c).2.get? key = some v ↔
    s.get? key = some v ∨ ∃ key', SameKey key' key ∧ Assigns s c key' v
  := by
  rcases call_cases s c with ⟨key₀, v₀, h, hcall⟩ | ⟨h, hcall⟩
  · have hassigns : (∃ key', SameKey key' key ∧ Assigns s c key' v) ↔
        canonicalKey key = canonicalKey key₀ ∧ v₀ = v := by
      rw [eq_comm (a := canonicalKey key), canonicalKey_eq_iff]
      constructor
      · rintro ⟨key', hsame, h'⟩
        obtain ⟨rfl, rfl⟩ := h.unique h'
        exact ⟨hsame, rfl⟩
      · rintro ⟨hsame, rfl⟩
        exact ⟨key₀, hsame, h⟩
    rw [hcall, get?_put, hassigns]
    by_cases hkey : canonicalKey key = canonicalKey key₀
    · -- No spelling of the key had a value, or the call would not have assigned one.
      rw [if_pos hkey, get?_congr hkey, h.get?_eq_none]
      simp [hkey]
    · rw [if_neg hkey]
      simp [hkey]
  · rw [hcall]
    simp [h]

/-! ### All calls -/

theorem reached_snoc (name : String) (calls : List (Call α)) (c : Call α) :
  reached name (calls ++ [c]) = ((reached name calls).call c).2
  := answerAll_snoc call (empty name) calls c

theorem assigned_snoc_iff :
  Assigned name (calls ++ [c]) key v ↔
    Assigned name calls key v ∨ ∃ key', SameKey key' key ∧ Assigns (reached name calls) c key' v
  := by
  constructor
  · rintro ⟨before, d, after, key', hsplit, hsame, hassigns⟩
    rcases List.eq_nil_or_concat after with rfl | ⟨rest, last, rfl⟩
    · obtain ⟨rfl, hlast⟩ := List.append_inj' hsplit rfl
      obtain rfl := List.singleton_inj.mp hlast
      exact .inr ⟨key', hsame, hassigns⟩
    · rw [List.concat_eq_append, ← List.cons_append, ← List.append_assoc] at hsplit
      obtain ⟨rfl, -⟩ := List.append_inj' hsplit rfl
      exact .inl ⟨before, d, rest, key', rfl, hsame, hassigns⟩
  · rintro (⟨before, d, after, key', rfl, hsame, hassigns⟩ | ⟨key', hsame, hassigns⟩)
    · exact ⟨before, d, after ++ [c], key', by simp, hsame, hassigns⟩
    · exact ⟨calls, c, [], key', rfl, hsame, hassigns⟩

/-- A key has the value that one of the calls assigned to a spelling of it. -/
theorem get?_reached_iff :
  (reached name calls).get? key = some v ↔ Assigned name calls key v
  := by
  induction calls using List.reverseRecOn with
  | nil =>
      constructor
      · intro h
        cases h
      · rintro ⟨before, c, after, key', hsplit, -, -⟩
        simp at hsplit
  | append_singleton calls c ih => rw [reached_snoc, get?_call_iff, ih, assigned_snoc_iff]

theorem get?_reached_eq_none_iff :
  (reached name calls).get? key = none ↔ ∀ v, ¬ Assigned name calls key v
  := by
  rw [Option.eq_none_iff_forall_ne_some]
  simp only [ne_eq, get?_reached_iff]

/-- The keys under which a scope keeps its values have no dollar sign before digits. -/
theorem canonicalKey_of_mem_reached {k : String}
    (h : k ∈ (reached name calls).entries.keys) :
  canonicalKey k = k
  := by
  induction calls using List.reverseRecOn with
  | nil => cases h
  | append_singleton calls c ih =>
      rw [reached_snoc] at h
      rcases call_cases (reached name calls) c with ⟨key, v, -, hcall⟩ | ⟨-, hcall⟩
      · rw [hcall] at h
        rcases Table.mem_keys_insert_iff.mp h with rfl | h
        · apply canonicalKey_idem
        · apply ih h
      · rw [hcall] at h
        apply ih h

theorem mem_reached_iff {e : String × α} :
  e ∈ (reached name calls).entries.entries ↔
    canonicalKey e.1 = e.1 ∧ Assigned name calls e.1 e.2
  := by
  rw [← get?_reached_iff, get?]
  constructor
  · intro he
    have hkey : canonicalKey e.1 = e.1 := canonicalKey_of_mem_reached (List.mem_map_of_mem he)
    rw [hkey]
    exact ⟨rfl, Table.find?_eq_some_iff.mpr he⟩
  · rintro ⟨hkey, he⟩
    rw [hkey] at he
    apply Table.find?_eq_some_iff.mp he

/-- A key with a value is listed once, in its canonical spelling. -/
theorem existsUnique_mem_reached (h : Assigned name calls key v) :
  ∃! e, e ∈ (reached name calls).entries.entries ∧ SameKey e.1 key
  := by
  have hvalue : (reached name calls).get? key = some v := get?_reached_iff.mpr h
  refine ⟨(canonicalKey key, v), ⟨?_, sameKey_canonicalKey key⟩, ?_⟩
  · apply mem_reached_iff.mpr ⟨canonicalKey_idem key, ?_⟩
    rw [← get?_reached_iff, get?_congr (canonicalKey_idem key), hvalue]
  · rintro ⟨k, w⟩ ⟨hmem, hsame⟩
    obtain ⟨hk, hw⟩ := mem_reached_iff.mp hmem
    have hkey : canonicalKey k = canonicalKey key := canonicalKey_eq_iff.mpr hsame
    rw [← get?_reached_iff, get?_congr hkey, hvalue] at hw
    apply Prod.ext
    · apply hk.symm.trans hkey
    · apply (Option.some.inj hw).symm

/-! ### Numbered slots -/

namespace Slots

/-- A number is declared with a dollar sign and again without, and keys that tools ask for are
among the others. -/
def uses : List (Call Nat) :=
  [.declare "$3" 7, .declare "3" 8, .getOrDeclare "then" 1, .lookup "toJSON", .declare "$x" 2,
    .getOrDeclare "$3" 9]

theorem assigned_three {key : String} (h : SameKey "$3" key) :
  Assigned "slots" uses key 7
  := ⟨[], .declare "$3" 7, uses.tail, "$3", rfl, h, .declare (declare_of_none rfl 7)⟩

end Slots

/-- A scope that is made by calls answers like a write-once map on keys. A key can be declared
unless some spelling of it was assigned a value. Once it was, that is the value of all spellings,
and without it there is none; only a probe key may then be looked up. The entries are in the order
of the bytes of their keys. There is one for each key with a value, without the dollar sign. -/
theorem keys_write_once (name : String) (calls : List (Call α)) :
  (answerAll call (empty name) calls).1 =
      (answerAll Ledger.call ⟨name, fun _ => none⟩ calls).1 ∧
    (∀ key v, (∃ s, (reached name calls).declare key v = .ok s) ↔
      ∀ w, ¬ Assigned name calls key w) ∧
    (∀ key v, Assigned name calls key v →
      (reached name calls).get key = .ok v ∧ (reached name calls).lookup key = .ok (some v) ∧
        ∀ w, (reached name calls).getOrDeclare key w = (v, reached name calls)) ∧
    (∀ key, (∃ e, (reached name calls).get key = .error e) ↔ ∀ v, ¬ Assigned name calls key v) ∧
    (∀ key, ((reached name calls).lookup key = .ok none ↔
        key ∈ probeKeys ∧ ∀ v, ¬ Assigned name calls key v) ∧
      ((reached name calls).lookup key ≠ .ok none →
        (reached name calls).lookup key = ((reached name calls).get key).map some)) ∧
    (reached name calls).entries.entries.Pairwise (fun a b => bytes a.1 < bytes b.1) ∧
    (∀ e ∈ (reached name calls).entries.entries,
      (∀ digits, ¬ Dollars e.1 digits) ∧ Assigned name calls e.1 e.2) ∧
    ∀ key v, Assigned name calls key v →
      ∃! e, e ∈ (reached name calls).entries.entries ∧ SameKey e.1 key
  := by
  refine ⟨?_, ?_, ?_, ?_, ?_, ?_, ?_, ?_⟩
  · have hview := answerAll_view call_ledger (empty name) calls
    rw [ledger_empty] at hview
    rw [hview]
  · intro key v
    rw [exists_declare_iff, get?_reached_eq_none_iff]
  · intro key v h
    have hvalue := get?_reached_iff.mpr h
    exact ⟨get_eq_ok_iff.mpr hvalue, lookup_of_some hvalue, getOrDeclare_of_some hvalue⟩
  · intro key
    rw [exists_get_error_iff, get?_reached_eq_none_iff]
  · intro key
    rw [lookup_eq_ok_none_iff, get?_reached_eq_none_iff]
    exact ⟨Iff.rfl, lookup_eq_map_get⟩
  · apply (reached name calls).entries.ordered.imp
    intro a b hab
    apply bytes_lt_bytes hab
  · intro e he
    obtain ⟨hkey, hassigned⟩ := mem_reached_iff.mp he
    refine ⟨?_, hassigned⟩
    rw [← hkey]
    apply not_dollars_canonicalKey
  · intro key v h
    apply existsUnique_mem_reached h

theorem keys_write_once_slots :
  Assigned "slots" Slots.uses "3" 7 ∧
    (reached "slots" Slots.uses).get "3" = .ok 7 ∧
    (¬ ∃ s, (reached "slots" Slots.uses).declare "$3" 8 = .ok s) ∧
    (reached "slots" Slots.uses).lookup "toJSON" = .ok none ∧
    ∃! e, e ∈ (reached "slots" Slots.uses).entries.entries ∧ SameKey e.1 "3"
  := by
  have hthree : Assigned "slots" Slots.uses "3" 7 := Slots.assigned_three (by decide)
  obtain ⟨-, hdeclare, hvalue, -, hlookup, -, -, hunique⟩ := keys_write_once "slots" Slots.uses
  refine ⟨hthree, (hvalue "3" 7 hthree).1, ?_, ?_, hunique "3" 7 hthree⟩
  · rw [hdeclare "$3" 8]
    intro hnone
    apply hnone 7 (Slots.assigned_three (by decide))
  · apply (hlookup "toJSON").1.mpr
    exact ⟨by decide, get?_reached_eq_none_iff.mp (by decide)⟩

end Scope

end AudioPatch
