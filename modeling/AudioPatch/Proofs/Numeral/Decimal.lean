import AudioPatch.Numeral.Decimal
import Mathlib.Data.List.Basic
import Mathlib.Data.List.TakeWhile
import Mathlib.Tactic.Ring

/-!
# Digits and decimals

Writing a number in digits and reading them gives it back. Zeros before the digits do not matter,
and each zero after them multiplies by the base. So the digits of a decimal that is written
without exponent denote the same quotient.
-/

namespace AudioPatch

variable {base n : Nat}

/-! ### Reading digits -/

theorem ofDigits_append (digits more : List Char) :
  ofDigits base (digits ++ more) = ofDigits base digits * base ^ more.length + ofDigits base more
  := by
  have hstart : ∀ start : Nat, more.foldl (fun n c => n * base + digitValue c) start =
      start * base ^ more.length + ofDigits base more := by
    induction more with
    | nil => simp [ofDigits]
    | cons c rest ih =>
        intro start
        rw [ofDigits, List.foldl_cons, List.foldl_cons, ih, ih, List.length_cons, pow_succ]
        ring
  rw [ofDigits, List.foldl_append, hstart]
  rfl

theorem ofDigits_replicate_zero (k : Nat) :
  ofDigits base (List.replicate k '0') = 0
  := by
  induction k with
  | zero => rfl
  | succ k ih =>
      have hzero : ofDigits base ['0'] = 0 := by simp [ofDigits, digitValue]
      rw [List.replicate_succ', ofDigits_append, ih, hzero, Nat.zero_mul]

theorem ofDigits_toDigits (n : Nat) :
  ofDigits 10 (Nat.toDigits 10 n) = n
  := by
  have hstep : ∀ m, ∀ c ∈ Nat.toDigits 10 n,
      m * 10 + digitValue c = 10 * m + (c.toNat - '0'.toNat) := by
    intro m c hc
    rw [digitValue, if_pos (Nat.isDigit_of_mem_toDigits (by decide) (by decide) hc), Nat.mul_comm]
    rfl
  rw [ofDigits, List.foldl_ext _ _ _ hstep]
  apply Nat.ofDigitChars_ten_toDigits

/-! ### Written numbers -/

/-- The first digit of a positive number is not zero. -/
theorem head?_toDigits_ne {n : Nat} (hn : 0 < n) :
  (Nat.toDigits 10 n).head? ≠ some '0'
  := by
  induction n using Nat.strongRecOn with
  | ind n ih =>
      rw [Nat.toDigits_eq_if (by decide)]
      split
      · have hdigit : ∀ d < 10, 0 < d → [Nat.digitChar d].head? ≠ some '0' := by decide
        apply hdigit n (by assumption) hn
      · rw [List.head?_append_of_ne_nil _ Nat.toDigits_ne_nil]
        apply ih (n / 10) <;> omega

theorem lt_ten_pow_digitCount (n : Nat) :
  n < 10 ^ digitCount n
  := by
  rw [digitCount]
  split
  · simp [*]
  · apply (Nat.length_toDigits_le_iff (by decide) Nat.length_toDigits_pos).mp (Nat.le_refl _)

theorem digitCount_pos (hn : n ≠ 0) :
  0 < digitCount n
  := by
  rw [digitCount, if_neg hn]
  apply Nat.length_toDigits_pos

theorem ten_pow_le_of_ne_zero (hn : n ≠ 0) :
  10 ^ (digitCount n - 1) ≤ n
  := by
  cases hcount : digitCount n - 1 with
  | zero => exact Nat.pos_of_ne_zero hn
  | succ k =>
      apply Nat.le_of_not_lt
      intro hlt
      have hlength := (Nat.length_toDigits_le_iff (by decide) (Nat.succ_pos k)).mpr hlt
      rw [digitCount, if_neg hn] at hcount
      omega

/-! ### Zeros at the end -/

/-- What is dropped at the end are zeros. -/
theorem exists_dropTrailingZeros (cs : List Char) :
  ∃ k, cs = dropTrailingZeros cs ++ List.replicate k '0'
  := by
  have hzeros : ∀ c ∈ cs.reverse.takeWhile (· = '0'), c = '0' := by
    intro c hc
    simpa using List.mem_takeWhile_imp hc
  refine ⟨(cs.reverse.takeWhile (· = '0')).length, ?_⟩
  calc cs = cs.reverse.reverse := (List.reverse_reverse cs).symm
    _ = (cs.reverse.takeWhile (· = '0') ++ cs.reverse.dropWhile (· = '0')).reverse := by
        rw [List.takeWhile_append_dropWhile]
    _ = dropTrailingZeros cs ++ (cs.reverse.takeWhile (· = '0')).reverse := List.reverse_append
    _ = dropTrailingZeros cs ++ List.replicate (cs.reverse.takeWhile (· = '0')).length '0' := by
        rw [List.eq_replicate_of_mem hzeros, List.reverse_replicate, List.length_replicate]

/-! ### Decimals -/

namespace Decimal

variable {c : Decimal}

/-- A decimal is a quotient of whole numbers. -/
def numerator (c : Decimal) : Nat := c.digits * 10 ^ c.exponent.toNat

/-- The power of ten that a decimal is divided by. -/
def denominator (c : Decimal) : Nat := 10 ^ (-c.exponent).toNat

theorem denominator_pos (c : Decimal) :
  0 < c.denominator
  := Nat.pow_pos (by decide)

/-- A decimal of small magnitude is small. -/
theorem numerator_mul_lt {limit : Nat}
    (h : c.exponent + digitCount c.digits < -limit) :
  c.numerator * 10 ^ limit < c.denominator
  := by
  have hexponent : c.exponent.toNat = 0 := by omega
  calc c.numerator * 10 ^ limit = c.digits * 10 ^ limit := by
        rw [numerator, hexponent, pow_zero, Nat.mul_one]
    _ < 10 ^ digitCount c.digits * 10 ^ limit :=
        Nat.mul_lt_mul_of_pos_right (lt_ten_pow_digitCount _) (Nat.pow_pos (by decide))
    _ = 10 ^ (digitCount c.digits + limit) := (pow_add _ _ _).symm
    _ ≤ c.denominator := by
        apply Nat.pow_le_pow_right (by decide)
        omega

/-- A decimal of large magnitude is large. -/
theorem denominator_mul_le {limit : Nat} (hc : c.digits ≠ 0)
    (h : limit < c.exponent + digitCount c.digits) :
  c.denominator * 10 ^ limit ≤ c.numerator
  := by
  have hcount := digitCount_pos hc
  calc c.denominator * 10 ^ limit = 10 ^ ((-c.exponent).toNat + limit) := (pow_add _ _ _).symm
    _ ≤ 10 ^ (digitCount c.digits - 1 + c.exponent.toNat) := by
        apply Nat.pow_le_pow_right (by decide)
        omega
    _ = 10 ^ (digitCount c.digits - 1) * 10 ^ c.exponent.toNat := pow_add _ _ _
    _ ≤ c.numerator := Nat.mul_le_mul_right _ (ten_pow_le_of_ne_zero hc)

/-! ### Written decimals -/

/-- Digits, of which there is at least one. -/
def IsDigits (cs : List Char) : Prop := cs ≠ [] ∧ ∀ d ∈ cs, d.isDigit

theorem isDigits_zero :
  IsDigits ['0']
  := ⟨List.cons_ne_nil _ _, List.all_eq_true.mp rfl⟩

/-- Digits before and after a point denote a decimal, without zeros that could be left out in
front. -/
structure Denotes (whole fraction : List Char) (c : Decimal) : Prop where
  isDigits_whole : IsDigits whole
  lead : whole.length = 1 ∨ whole.head? ≠ some '0'
  isDigits_fraction : IsDigits fraction
  value : ofDigits 10 (whole ++ fraction) * c.denominator = c.numerator * 10 ^ fraction.length

/-- The digits of a decimal with zeros after them for a positive exponent, and before them for a
negative one. -/
def padded (c : Decimal) : List Char :=
  let digits := Nat.toDigits 10 c.digits ++ List.replicate c.exponent.toNat '0'
  List.replicate ((-c.exponent).toNat + 1 - digits.length) '0' ++ digits

theorem ofDigits_padded (c : Decimal) :
  ofDigits 10 c.padded = c.numerator
  := by
  rw [padded, ofDigits_append, ofDigits_replicate_zero, Nat.zero_mul, Nat.zero_add, ofDigits_append,
    ofDigits_replicate_zero, ofDigits_toDigits, List.length_replicate, Nat.add_zero, numerator]

theorem lt_length_padded (c : Decimal) :
  (-c.exponent).toNat < c.padded.length
  := by
  rw [padded, List.length_append, List.length_replicate]
  omega

theorem isDigit_of_mem_padded {d : Char} (h : d ∈ c.padded) :
  d.isDigit
  := by
  simp only [padded, List.mem_append, List.mem_replicate] at h
  rcases h with ⟨-, rfl⟩ | h | ⟨-, rfl⟩
  · rfl
  · apply Nat.isDigit_of_mem_toDigits (by decide) (by decide) h
  · rfl

theorem head?_padded_ne (hc : c.digits ≠ 0) (h : (-c.exponent).toNat + 1 < c.padded.length) :
  c.padded.head? ≠ some '0'
  := by
  rw [padded, List.length_append, List.length_replicate] at h
  rw [padded, Nat.sub_eq_zero_of_le (by omega), List.replicate_zero, List.nil_append,
    List.head?_append_of_ne_nil _ Nat.toDigits_ne_nil]
  apply head?_toDigits_ne (Nat.pos_of_ne_zero hc)

/-- The digits are cut at the point, and zeros at the end are dropped. -/
theorem exists_print_eq (c : Decimal) :
  ∃ whole kept k, c.padded = whole ++ kept ++ List.replicate k '0' ∧
    whole.length + (-c.exponent).toNat = c.padded.length ∧
    kept.length + k = (-c.exponent).toNat ∧
    c.print.toList = whole ++ '.' :: if kept = [] then ['0'] else kept
  := by
  have hlength := c.lt_length_padded
  generalize hcut : c.padded.length - (-c.exponent).toNat = cut
  obtain ⟨k, hk⟩ := exists_dropTrailingZeros (c.padded.drop cut)
  refine ⟨c.padded.take cut, dropTrailingZeros (c.padded.drop cut), k, ?_, ?_, ?_, ?_⟩
  · rw [List.append_assoc, ← hk, List.take_append_drop]
  · rw [List.length_take]
    omega
  · have hdrop := congrArg List.length hk
    simp only [List.length_drop, List.length_append, List.length_replicate] at hdrop
    omega
  · rw [← hcut]
    exact String.toList_ofList

/-- A decimal is written with digits on both sides of the point, which denote it. -/
theorem exists_print (hc : c.digits ≠ 0) :
  ∃ whole fraction, c.print.toList = whole ++ '.' :: fraction ∧ Denotes whole fraction c
  := by
  obtain ⟨whole, kept, k, hpadded, hwhole, hkept, hprint⟩ := c.exists_print_eq
  have hlength := c.lt_length_padded
  have hdigit : ∀ d, d ∈ whole ∨ d ∈ kept → d.isDigit := by
    intro d hd
    apply isDigit_of_mem_padded (c := c)
    rw [hpadded]
    apply List.mem_append_left
    apply List.mem_append.mpr hd
  have hvalue : ofDigits 10 (whole ++ kept) * 10 ^ k = c.numerator := by
    rw [← ofDigits_padded, hpadded, ofDigits_append _ (.replicate k '0'), ofDigits_replicate_zero,
      List.length_replicate, Nat.add_zero]
  have hne : whole ≠ [] := List.ne_nil_of_length_pos (by omega)
  have hlead : whole.length = 1 ∨ whole.head? ≠ some '0' := by
    by_cases hlong : (-c.exponent).toNat + 1 < c.padded.length
    · have hhead := head?_padded_ne hc hlong
      rw [hpadded, List.append_assoc, List.head?_append_of_ne_nil _ hne] at hhead
      exact .inr hhead
    · left
      omega
  refine ⟨whole, _, hprint, ⟨hne, fun d hd => hdigit d (.inl hd)⟩, hlead, ?_, ?_⟩
  · split
    · exact isDigits_zero
    · exact ⟨by assumption, fun d hd => hdigit d (.inr hd)⟩
  · rw [← hvalue, denominator, ← hkept]
    split
    case isTrue hnil =>
      have hzero : ofDigits 10 ['0'] = 0 := ofDigits_replicate_zero 1
      rw [hnil, ofDigits_append whole ['0'], List.append_nil, hzero]
      simp only [List.length_nil, List.length_singleton]
      ring
    case isFalse => ring

end Decimal

end AudioPatch
