import Mathlib.Data.String.Basic

/-!
# The order of bytes

Texts are compared character by character. Their encodings, compared byte by byte, are in the same
order (`bytes_lt_bytes`): the bytes of a smaller character are smaller at the first place where two
characters differ.
-/

namespace AudioPatch

/-- The bytes that encode a text. -/
def bytes (text : String) : List UInt8 := text.toByteArray.data.toList

theorem bytes_eq_flatMap (text : String) :
  bytes text = text.toList.flatMap String.utf8EncodeChar
  := by
  rw [bytes, ← String.utf8Encode_toList, List.utf8Encode, List.toList_data_toByteArray]

theorem ofNat_cons_lt_iff {k l : Nat} (hk : k < 256) (hl : l < 256) {x y : List UInt8} :
  UInt8.ofNat k :: x < UInt8.ofNat l :: y ↔ k < l ∨ k = l ∧ x < y
  := by
  rw [List.cons_lt_cons_iff, UInt8.lt_iff_toNat_lt, ← UInt8.toNat_inj,
    UInt8.toNat_ofNat_of_lt' hk, UInt8.toNat_ofNat_of_lt' hl]

/-- Of two numbers the smaller has the smaller digit at the first place where they differ. -/
theorem digits_lt {v w : Nat} (h : v < w) :
  v / 262144 < w / 262144 ∨ v / 262144 = w / 262144 ∧
    (v / 4096 % 64 < w / 4096 % 64 ∨ v / 4096 % 64 = w / 4096 % 64 ∧
      (v / 64 % 64 < w / 64 % 64 ∨ v / 64 % 64 = w / 64 % 64 ∧ v % 64 < w % 64))
  := by
  have hdigit : ∀ {k l : Nat}, k < l → k / 64 < l / 64 ∨ k / 64 = l / 64 ∧ k % 64 < l % 64 := by
    omega
  have hsquare : ∀ k : Nat, k / 64 / 64 = k / 4096 := fun k => Nat.div_div_eq_div_mul k 64 64
  have hcube : ∀ k : Nat, k / 4096 / 64 = k / 262144 := fun k => Nat.div_div_eq_div_mul k 4096 64
  rcases hdigit h with h | ⟨h, hlast⟩
  · rcases hdigit h with h | ⟨h, hlast⟩
    · rw [hsquare, hsquare] at h
      rcases hdigit h with h | ⟨h, hlast⟩
      · rw [hcube, hcube] at h
        exact .inl h
      · rw [hcube, hcube] at h
        exact .inr ⟨h, .inl hlast⟩
    · rw [hsquare, hsquare] at h
      rw [← hcube, ← hcube, h]
      exact .inr ⟨rfl, .inr ⟨rfl, .inl hlast⟩⟩
  · rw [← hcube, ← hcube, ← hsquare, ← hsquare, h]
    exact .inr ⟨rfl, .inr ⟨rfl, .inr ⟨rfl, hlast⟩⟩⟩

/-- The first byte tells how many there are, and more bytes encode larger characters. Of as many
bytes, the first ones hold the higher digits. -/
theorem utf8EncodeChar_append_lt {c d : Char} (h : c < d) (x y : List UInt8) :
  String.utf8EncodeChar c ++ x < String.utf8EncodeChar d ++ y
  := by
  have hval : c.val.toNat < d.val.toNat := h
  have hmax : d.val.toNat < 1114112 := by
    rcases d.valid with hd | hd <;> omega
  have hdigits := digits_lt hval
  simp only [String.utf8EncodeChar]
  generalize c.val.toNat = v at hval hdigits
  generalize d.val.toNat = w at hval hdigits hmax
  have hv : v / 262144 % 8 = v / 262144 := by omega
  have hw : w / 262144 % 8 = w / 262144 := by omega
  split_ifs
  all_goals
    simp (disch := omega) only [List.cons_append, List.nil_append, ofNat_cons_lt_iff]
    omega

theorem flatMap_utf8EncodeChar_lt {l m : List Char} (h : l < m) :
  l.flatMap String.utf8EncodeChar < m.flatMap String.utf8EncodeChar
  := by
  have hlex : List.Lex (· < ·) l m := h
  induction hlex with
  | @nil d m =>
      obtain ⟨b, rest, hb⟩ := List.exists_cons_of_ne_nil (String.utf8EncodeChar_ne_nil (c := d))
      rw [List.flatMap_cons, hb]
      apply List.nil_lt_cons
  | cons hrest ih =>
      apply List.append_left_lt
      apply ih hrest
  | rel hlt => apply utf8EncodeChar_append_lt hlt

/-- Texts are in the order of their bytes. -/
theorem bytes_lt_bytes {s t : String} (h : s < t) :
  bytes s < bytes t
  := by
  rw [bytes_eq_flatMap, bytes_eq_flatMap]
  apply flatMap_utf8EncodeChar_lt h

end AudioPatch
