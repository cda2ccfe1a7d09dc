import AudioPatch.Proofs.Numeral.Binary
import AudioPatch.Proofs.Numeral.Decimal

/-!
# Reading back what was written

The decimals that round to a number are those of its interval, and with seventeen digits there is
one of them on every grid. So the fewest digits that are in the interval are found, and reading
them gives the number back.
-/

namespace AudioPatch

variable {f : Format} {sign : Bool} {n d n' d' units : Nat}

/-! ### Intervals -/

namespace RoundingInterval

variable {i : RoundingInterval} {tie : Tie} {exponent : Int}

/-- A quotient lies between the bounds, and on a bound only if that counts. -/
structure Holds (i : RoundingInterval) (n d : Nat) : Prop where
  low_le : i.low * d ≤ n * i.denominator
  le_high : n * i.denominator ≤ i.high * d
  closed : i.low * d = n * i.denominator ∨ n * i.denominator = i.high * d → i.closed

/-- It does not matter how a quotient is written. -/
theorem Holds.congr (h : i.Holds n d) (hd : 0 < d) (hd' : 0 < d') (heq : n * d' = n' * d) :
  i.Holds n' d'
  := by
  have hscaled : n * i.denominator * d' = n' * i.denominator * d := by
    rw [Nat.mul_right_comm, heq, Nat.mul_right_comm]
  constructor
  case low_le =>
    apply Nat.le_of_mul_le_mul_right _ hd
    rw [← hscaled, Nat.mul_right_comm]
    apply Nat.mul_le_mul_right _ h.low_le
  case le_high =>
    apply Nat.le_of_mul_le_mul_right _ hd
    rw [← hscaled, Nat.mul_right_comm _ d']
    apply Nat.mul_le_mul_right _ h.le_high
  case closed =>
    intro htie
    apply h.closed
    rcases htie with htie | htie
    · left
      apply Nat.eq_of_mul_eq_mul_right hd'
      rw [hscaled, Nat.mul_right_comm, htie]
    · right
      apply Nat.eq_of_mul_eq_mul_right hd'
      rw [hscaled, htie, Nat.mul_right_comm]

end RoundingInterval

theorem RoundingInterval.contains_iff {i : RoundingInterval} {d : Decimal} :
  i.contains d ↔ i.Holds d.numerator d.denominator
  := by
  cases hclosed : i.closed with
  | true =>
      simp only [contains, hclosed, if_true, decide_eq_true_eq, Nat.pow_eq]
      exact ⟨fun h => ⟨h.1, h.2, fun _ => hclosed⟩, fun h => ⟨h.low_le, h.le_high⟩⟩
  | false =>
      have hne : ¬ i.closed := by simp [hclosed]
      simp only [contains, hclosed, Bool.false_eq_true, if_false, decide_eq_true_eq, Nat.pow_eq]
      constructor
      · rintro ⟨hlow, hhigh⟩
        exact ⟨hlow.le, hhigh.le, fun h => absurd h (not_or.mpr ⟨hlow.ne, hhigh.ne⟩)⟩
      · intro h
        exact ⟨lt_of_le_of_ne h.low_le fun heq => hne (h.closed (.inl heq)),
          lt_of_le_of_ne h.le_high fun heq => hne (h.closed (.inr heq))⟩

/-! ### Rounding -/

/-- A quotient is rounded to the whole number that it is at most a half away from; if it is just a
half away, to an even one. -/
theorem roundQuotient_eq {q : Nat} (hd : 0 < d) (hlow : 2 * (q * d) ≤ 2 * n + d)
    (hhigh : 2 * n ≤ 2 * (q * d) + d)
    (htie : 2 * (q * d) = 2 * n + d ∨ 2 * n = 2 * (q * d) + d → q % 2 = 0) :
  roundQuotient n d = q
  := by
  have hn := Nat.div_add_mod' n d
  have hr := Nat.mod_lt n hd
  rw [roundQuotient]
  generalize n / d = k at hn ⊢
  generalize n % d = r at hn hr ⊢
  rcases Nat.lt_trichotomy k q with hlt | rfl | hgt
  · -- The quotient is less than one below, so it is in the upper half.
    obtain rfl : q = k + 1 := by
      apply Nat.le_antisymm _ hlt
      apply Nat.le_of_not_lt
      intro hfar
      have hmul := Nat.mul_le_mul_right d (show k + 2 ≤ q from hfar)
      rw [Nat.add_mul] at hmul
      omega
    have hsucc : (k + 1) * d = k * d + d := Nat.succ_mul k d
    split
    · omega
    · split
      · rfl
      · omega
  · split
    · rfl
    · split
      · omega
      · omega
  · have hmul := Nat.mul_le_mul_right d (show q + 1 ≤ k from hgt)
    rw [Nat.succ_mul] at hmul
    omega

namespace Binary

variable {x : Binary f}

theorem fields_of_read (hx : x.read = .finite sign units) :
  x.negative = sign ∧ x.significand * 2 ^ (x.exponent - 1) = units
  := by
  rw [read_eq_finite (exponent_ne_of_read hx)] at hx
  exact Reading.finite.inj hx

theorem significand_pos (hx : x.read = .finite sign units) (hunits : units ≠ 0) :
  0 < x.significand
  := by
  apply Nat.pos_of_ne_zero
  intro hzero
  apply hunits
  rw [← (fields_of_read hx).2, hzero, Nat.zero_mul]

theorem eq_zero_of_read (hx : x.read = .finite sign 0) :
  x = ofPattern sign 0
  := by
  obtain ⟨hsign, hzero⟩ := fields_of_read hx
  have hsignificand : x.significand = 0 := by
    have := Nat.two_pow_pos (x.exponent - 1)
    rcases Nat.mul_eq_zero.mp hzero with h | h
    · exact h
    · omega
  have hfields : x.exponent = 0 ∧ x.fraction = 0 := by
    have := Nat.two_pow_pos f.fractionBits
    rw [significand] at hsignificand
    split at hsignificand <;> omega
  have hx := ofPattern_fields x
  rw [hfields.1, hfields.2, Nat.zero_mul, hsign] at hx
  exact hx.symm

/-- A quotient of digits of a number is nearer to its own digits than to those of its neighbours,
the lower of which is nearer if the number is a power of two. -/
structure Near (x : Binary f) (n d : Nat) : Prop where
  low : 2 * (x.significand * d) ≤ 2 * n + d
  high : 2 * n ≤ 2 * (x.significand * d) + d
  low_of_power : x.fraction = 0 → 1 < x.exponent → 4 * (x.significand * d) ≤ 4 * n + d
  tie : 2 * (x.significand * d) = 2 * n + d ∨ 2 * n = 2 * (x.significand * d) + d →
    x.fraction % 2 = 0

theorem near_of_holds (hx : x.read = .finite sign units) (hunits : units ≠ 0)
    (h : (x.interval units).Holds n d) :
  x.Near (n * 2 ^ f.scale) (2 ^ (x.exponent - 1) * d)
  := by
  have hone : 1 * (2 ^ (x.exponent - 1) * d) ≤ x.significand * (2 ^ (x.exponent - 1) * d) :=
    Nat.mul_le_mul_right _ (significand_pos hx hunits)
  obtain ⟨rfl, rfl⟩ := fields_of_read hx
  obtain ⟨hlow, hhigh, hclosed⟩ := h
  simp only [interval, Nat.pow_eq, decide_eq_true_eq] at hlow hhigh hclosed
  have hscale : n * 2 ^ (f.scale + 2) = 4 * (n * 2 ^ f.scale) := by ring
  rw [hscale] at hlow hhigh hclosed
  rw [Nat.sub_mul, Nat.mul_assoc 4, Nat.mul_assoc x.significand] at hlow hclosed
  rw [Nat.add_mul, Nat.mul_assoc 4, Nat.mul_assoc x.significand, Nat.mul_assoc 2] at hhigh hclosed
  rw [ite_mul, Nat.mul_assoc 2] at hlow hclosed
  split at hlow
  case isTrue hpower =>
    rw [if_pos hpower] at hclosed
    exact ⟨by omega, by omega, fun _ _ => by omega, fun _ => by rw [hpower.1]⟩
  case isFalse hpower =>
    rw [if_neg hpower] at hclosed
    refine ⟨by omega, by omega, fun hzero hlt => absurd ⟨hzero, hlt⟩ hpower, ?_⟩
    intro htie
    apply hclosed
    omega

theorem log2_sub_eq {k bits shift : Nat} (hlt : k < 2 ^ (bits + 1 + shift))
    (hle : shift = 0 ∨ 2 ^ (bits + shift) ≤ k) :
  k.log2 - bits = shift
  := by
  rcases Nat.eq_zero_or_pos k with rfl | hk
  · rcases hle with rfl | hle
    · simp
    · have := Nat.two_pow_pos (bits + shift)
      omega
  · have hupper := (Nat.log2_lt hk.ne').mpr hlt
    rcases hle with rfl | hle
    · omega
    · have hlower := (Nat.le_log2 hk.ne').mpr hle
      omega

theorem significand_mod_two (hf : 0 < f.fractionBits) :
  x.significand % 2 = x.fraction % 2
  := by
  obtain ⟨bits, hbits⟩ := Nat.exists_eq_add_of_lt hf
  rw [significand, hbits, Nat.zero_add, pow_succ]
  split <;> omega

/-- Just below a power of two the digits are rounded up to it. -/
theorem pattern_below_power {bits e shift : Nat} (hd : 0 < d)
    (hlow : 4 * (2 ^ bits * (2 ^ e * d)) ≤ 2 * n + 2 ^ e * d)
    (hbelow : n < 2 * (2 ^ bits * (2 ^ e * d))) (hshift : (n / d).log2 - bits = shift) :
  shift * 2 ^ bits + roundQuotient n (d * 2 ^ shift) = (e + 1) * 2 ^ bits + 2 ^ bits
  := by
  have hone : 1 * (2 ^ e * d) ≤ 2 ^ bits * (2 ^ e * d) :=
    Nat.mul_le_mul_right _ (Nat.two_pow_pos _)
  obtain rfl : e = shift := by
    apply Eq.trans (Eq.symm _) hshift
    apply log2_sub_eq
    · apply Nat.div_lt_of_lt_mul
      rw [pow_add, pow_succ, Nat.mul_comm d, Nat.mul_assoc, Nat.mul_comm _ 2, Nat.mul_assoc]
      exact hbelow
    · right
      rw [Nat.le_div_iff_mul_le hd, pow_add, Nat.mul_assoc]
      omega
  have hround : roundQuotient n (2 ^ e * d) = 2 * 2 ^ bits := by
    apply roundQuotient_eq (Nat.mul_pos (Nat.two_pow_pos _) hd)
    · rw [Nat.mul_assoc]
      omega
    · rw [Nat.mul_assoc]
      omega
    · intro _
      apply Nat.mul_mod_right
  rw [Nat.mul_comm d, hround]
  ring

/-- A quotient near to a number has its pattern. -/
theorem pattern_of_near {shift : Nat} (hf : 0 < f.fractionBits) (hd : 0 < d)
    (h : x.Near n (2 ^ (x.exponent - 1) * d))
    (hshift : (n / d).log2 - f.fractionBits = shift) :
  shift * 2 ^ f.fractionBits + roundQuotient n (d * 2 ^ shift) =
    (x.exponent - 1) * 2 ^ f.fractionBits + x.significand
  := by
  obtain ⟨hlow, hhigh, hpower, htie⟩ := h
  have hstep : 0 < 2 ^ (x.exponent - 1) * d := Nat.mul_pos (Nat.two_pow_pos _) hd
  have hlt : n / d < 2 ^ (f.fractionBits + 1 + (x.exponent - 1)) := by
    have hmul := Nat.mul_le_mul_right (2 ^ (x.exponent - 1) * d)
      (Nat.succ_le_of_lt x.significand_lt)
    rw [Nat.succ_mul] at hmul
    apply Nat.div_lt_of_lt_mul
    rw [pow_add, Nat.mul_comm d, Nat.mul_assoc]
    omega
  by_cases hcase : x.exponent - 1 = 0 ∨ 2 ^ (f.fractionBits + (x.exponent - 1)) ≤ n / d
  · obtain rfl : x.exponent - 1 = shift := (log2_sub_eq hlt hcase).symm.trans hshift
    rw [Nat.mul_comm d, roundQuotient_eq hstep hlow hhigh]
    intro h
    rw [significand_mod_two hf, htie h]
  · -- The quotient has fewer digits than the number, which then is a power of two.
    obtain ⟨hne, hbelow⟩ := not_or.mp hcase
    have hbelow : n < 2 ^ f.fractionBits * (2 ^ (x.exponent - 1) * d) := by
      rw [← Nat.mul_assoc, ← pow_add]
      apply (Nat.div_lt_iff_lt_mul hd).mp (Nat.lt_of_not_le hbelow)
    have hsignificand : x.significand = 2 ^ f.fractionBits + x.fraction := by
      rw [significand, if_neg (by omega)]
    have hfraction : x.fraction = 0 := by
      by_contra hfraction
      have hmul := Nat.mul_le_mul_right (2 ^ (x.exponent - 1) * d)
        (show 2 ^ f.fractionBits + 1 ≤ x.significand by omega)
      rw [Nat.succ_mul] at hmul
      omega
    have hlow := hpower hfraction (by omega)
    obtain ⟨e, he⟩ := Nat.exists_eq_add_one_of_ne_zero hne
    have hdouble : 2 ^ (e + 1) * d = 2 * (2 ^ e * d) := by ring
    rw [hsignificand, hfraction, Nat.add_zero, he, hdouble,
      Nat.mul_left_comm (2 ^ f.fractionBits)] at hlow
    rw [he, hdouble, Nat.mul_left_comm] at hbelow
    rw [hsignificand, hfraction, Nat.add_zero, he]
    apply pattern_below_power hd (by omega) hbelow hshift

/-- A quotient near to a number is rounded to it. -/
theorem ofQuotient_of_near (hf : 0 < f.fractionBits) (hx : x.exponent ≠ 2 ^ f.exponentBits - 1)
    (hd : 0 < d) (h : x.Near (n * 2 ^ f.scale) (2 ^ (x.exponent - 1) * d)) :
  ofQuotient x.negative n d = x
  := by
  simp only [ofQuotient, Nat.pow_eq]
  rw [pattern_of_near hf hd h rfl, ← exponent_mul_add_fraction_eq_significand,
    Nat.min_eq_left (fields_lt_infinity hx).le, ofPattern_fields]

/-! ### Decimals of an interval -/

theorem step_le_units (hx : x.read = .finite sign units) (hunits : units ≠ 0) :
  2 ^ (x.exponent - 1) ≤ units
  := by
  rw [← (fields_of_read hx).2]
  apply Nat.le_mul_of_pos_left _ (significand_pos hx hunits)

theorem interval_low_pos (hx : x.read = .finite sign units) (hunits : units ≠ 0) :
  0 < (x.interval units).low
  := by
  have hstep := Nat.two_pow_pos (x.exponent - 1)
  have hle := step_le_units hx hunits
  simp only [interval, Nat.pow_eq]
  split <;> omega

theorem interval_high_lt (hx : x.read = .finite sign units) (hunits : units ≠ 0)
    (hrange : f.scale + 2 ≤ 2 ^ f.exponentBits) :
  (x.interval units).high < 2 ^ 2 ^ f.exponentBits * 2 ^ (f.scale + 2)
  := by
  have hlt := (Exact.of_read hx).lt
  have hle := step_le_units hx hunits
  have hscale : f.fractionBits ≤ f.scale := Nat.le_add_left _ _
  calc (x.interval units).high = 4 * units + 2 * 2 ^ (x.exponent - 1) := rfl
    _ < 2 ^ (f.fractionBits + (2 ^ f.exponentBits - 2)) * 2 ^ 3 := by omega
    _ = 2 ^ (f.fractionBits + (2 ^ f.exponentBits - 2) + 3) := (pow_add _ _ _).symm
    _ ≤ 2 ^ (2 ^ f.exponentBits + (f.scale + 2)) := by
        apply Nat.pow_le_pow_right two_pos
        omega
    _ = 2 ^ 2 ^ f.exponentBits * 2 ^ (f.scale + 2) := pow_add _ _ _

/-- No decimal of an interval is cut off as too small. -/
theorem neg_limit_le_magnitude {c : Decimal} (hx : x.read = .finite sign units)
    (hunits : units ≠ 0) (hrange : f.scale + 2 ≤ 2 ^ f.exponentBits)
    (h : (x.interval units).Holds c.numerator c.denominator) :
  ¬ c.exponent + digitCount c.digits < -((2 ^ f.exponentBits : Nat) : Int)
  := by
  intro hsmall
  have hlt := Decimal.numerator_mul_lt hsmall
  have hle : c.denominator ≤ c.numerator * 10 ^ 2 ^ f.exponentBits :=
    calc c.denominator ≤ (x.interval units).low * c.denominator :=
          Nat.le_mul_of_pos_left _ (interval_low_pos hx hunits)
      _ ≤ c.numerator * 2 ^ (f.scale + 2) := h.low_le
      _ ≤ c.numerator * 2 ^ 2 ^ f.exponentBits :=
          Nat.mul_le_mul_left _ (Nat.pow_le_pow_right two_pos hrange)
      _ ≤ c.numerator * 10 ^ 2 ^ f.exponentBits :=
          Nat.mul_le_mul_left _ (Nat.pow_le_pow_left (by decide) _)
  omega

/-- No decimal of an interval is cut off as too large. -/
theorem magnitude_le_limit {c : Decimal} (hx : x.read = .finite sign units)
    (hunits : units ≠ 0) (hrange : f.scale + 2 ≤ 2 ^ f.exponentBits) (hc : c.digits ≠ 0)
    (h : (x.interval units).Holds c.numerator c.denominator) :
  ¬ ((2 ^ f.exponentBits : Nat) : Int) < c.exponent + digitCount c.digits
  := by
  intro hlarge
  have hlt : c.numerator * 2 ^ (f.scale + 2) < c.numerator * 2 ^ (f.scale + 2) :=
    calc c.numerator * 2 ^ (f.scale + 2) ≤ (x.interval units).high * c.denominator := h.le_high
      _ < 2 ^ 2 ^ f.exponentBits * 2 ^ (f.scale + 2) * c.denominator :=
          Nat.mul_lt_mul_of_pos_right (interval_high_lt hx hunits hrange) c.denominator_pos
      _ = c.denominator * 2 ^ 2 ^ f.exponentBits * 2 ^ (f.scale + 2) := by ring
      _ ≤ c.denominator * 10 ^ 2 ^ f.exponentBits * 2 ^ (f.scale + 2) := by
          apply Nat.mul_le_mul_right
          apply Nat.mul_le_mul_left _ (Nat.pow_le_pow_left (by decide) _)
      _ ≤ c.numerator * 2 ^ (f.scale + 2) :=
          Nat.mul_le_mul_right _ (Decimal.denominator_mul_le hc hlarge)
  omega

theorem digits_ne_zero {c : Decimal} (hx : x.read = .finite sign units) (hunits : units ≠ 0)
    (h : (x.interval units).Holds c.numerator c.denominator) :
  c.digits ≠ 0
  := by
  intro hzero
  have hle := h.low_le
  have hlow := Nat.mul_pos (interval_low_pos hx hunits) c.denominator_pos
  rw [Decimal.numerator, hzero, Nat.zero_mul, Nat.zero_mul] at hle
  omega

/-- A decimal that rounds to a number is read as it. -/
theorem ofDecimal_of_holds {c : Decimal} (hf : 0 < f.fractionBits)
    (hrange : f.scale + 2 ≤ 2 ^ f.exponentBits) (hx : x.read = .finite sign units)
    (hunits : units ≠ 0) (h : (x.interval units).Holds c.numerator c.denominator) :
  ofDecimal sign c = x
  := by
  have hdigits := digits_ne_zero hx hunits h
  rw [ofDecimal]
  simp only [Nat.pow_eq]
  rw [if_neg (not_or.mpr ⟨hdigits, neg_limit_le_magnitude hx hunits hrange h⟩),
    if_neg (magnitude_le_limit hx hunits hrange hdigits h), ← (fields_of_read hx).1]
  apply ofQuotient_of_near hf (exponent_ne_of_read hx) c.denominator_pos
  apply near_of_holds hx hunits h

end Binary

/-! ### The fewest digits -/

namespace RoundingInterval

variable {i : RoundingInterval} {tie : Tie} {exponent : Int} {c : Decimal} {gap : Nat}

/-- The value of an interval is away from both bounds. -/
structure Room (i : RoundingInterval) (gap : Nat) : Prop where
  pos : 0 < gap
  low : i.low + gap ≤ i.value
  high : i.value + gap ≤ i.high

/-- A point of a grid that is nearer to the value than the bounds is in the interval. -/
theorem contains_of_near {digits : Nat} (hroom : i.Room gap)
    (hlow : i.value * 10 ^ (-exponent).toNat <
      digits * (i.denominator * 10 ^ exponent.toNat) + gap * 10 ^ (-exponent).toNat)
    (hhigh : digits * (i.denominator * 10 ^ exponent.toNat) <
      i.value * 10 ^ (-exponent).toNat + gap * 10 ^ (-exponent).toNat) :
  i.contains ⟨digits, exponent⟩
  := by
  have hroom_low := Nat.mul_le_mul_right (10 ^ (-exponent).toNat) hroom.low
  have hroom_high := Nat.mul_le_mul_right (10 ^ (-exponent).toNat) hroom.high
  rw [Nat.add_mul] at hroom_low hroom_high
  have hnumerator : (Decimal.mk digits exponent).numerator * i.denominator =
      digits * (i.denominator * 10 ^ exponent.toNat) := by
    rw [Decimal.numerator]
    ring
  have hdenominator : (Decimal.mk digits exponent).denominator = 10 ^ (-exponent).toNat := rfl
  rw [contains_iff]
  constructor <;> rw [hnumerator, hdenominator] <;> omega

theorem contains_of_onGrid? (h : i.onGrid? tie exponent = some c) :
  i.contains c
  := by
  rw [onGrid?] at h
  split at h
  · obtain rfl := Option.some.inj h
    split <;> assumption
  · obtain rfl := Option.some.inj h
    assumption
  · obtain rfl := Option.some.inj h
    assumption
  · cases h

/-- A grid whose steps are less than twice the distance to the bounds has a point in the
interval. -/
theorem isSome_onGrid? (hroom : i.Room gap) (hpos : 0 < i.denominator)
    (hstep : i.denominator * 10 ^ exponent.toNat < 2 * (gap * 10 ^ (-exponent).toNat)) :
  (i.onGrid? tie exponent).isSome
  := by
  have hvalue := Nat.div_add_mod' (i.value * 10 ^ (-exponent).toNat)
    (i.denominator * 10 ^ exponent.toNat)
  have hmod := Nat.mod_lt (i.value * 10 ^ (-exponent).toNat)
    (Nat.mul_pos hpos (Nat.pow_pos (by decide) : 0 < 10 ^ exponent.toNat))
  generalize hdigits : i.value * 10 ^ (-exponent).toNat / (i.denominator * 10 ^ exponent.toNat) =
    digits at hvalue
  have hsucc : (digits + 1) * (i.denominator * 10 ^ exponent.toNat) =
    digits * (i.denominator * 10 ^ exponent.toNat) + i.denominator * 10 ^ exponent.toNat :=
    Nat.succ_mul _ _
  have hcontains : i.contains ⟨digits, exponent⟩ ∨ i.contains ⟨digits + 1, exponent⟩ := by
    by_cases hhalf : 2 * (i.value * 10 ^ (-exponent).toNat %
        (i.denominator * 10 ^ exponent.toNat)) ≤ i.denominator * 10 ^ exponent.toNat
    · left
      apply contains_of_near hroom <;> omega
    · right
      apply contains_of_near hroom <;> omega
  simp only [onGrid?, Nat.pow_eq, hdigits]
  rcases hcontains with hbelow | habove
  · rw [hbelow]
    split <;> simp_all
  · rw [habove]
    split <;> simp_all

/-- From a number of digits on, some are found if the last grid has a point in the interval. -/
theorem contains_shortestFrom {digits tries : Nat}
    (h : (i.onGrid? tie (i.gridExponent (digits + tries))).isSome) :
  i.contains (i.shortestFrom tie digits tries)
  := by
  induction tries generalizing digits with
  | zero =>
      obtain ⟨c, hc⟩ := Option.isSome_iff_exists.mp h
      rw [shortestFrom, ← Nat.add_zero digits, hc]
      apply contains_of_onGrid? hc
  | succ tries ih =>
      rw [shortestFrom]
      split
      case h_1 hc => apply contains_of_onGrid? hc
      case h_2 =>
        apply ih
        rwa [Nat.add_right_comm, Nat.add_assoc]

/-- The value has as many digits on its grid. -/
theorem ten_pow_le_value (hvalue : 0 < i.value) (hpos : 0 < i.denominator) (digits : Nat) :
  i.denominator * 10 ^ (i.gridExponent (digits + 1)).toNat * 10 ^ digits ≤
    i.value * 10 ^ (-i.gridExponent (digits + 1)).toNat
  := by
  by_cases hwhole : i.value / i.denominator = 0
  · -- The number of zeros after the point comes from the quotient the other way around.
    generalize hceil : (i.denominator + i.value - 1) / i.value = ceil
    have hgrid : i.gridExponent (digits + 1) = -(digitCount (ceil - 1) + digits : Nat) := by
      rw [gridExponent, if_neg (not_not.mpr hwhole), hceil]
      omega
    have hle : i.denominator ≤ i.value * 10 ^ digitCount (ceil - 1) := by
      have hdivision := Nat.div_add_mod' (i.denominator + i.value - 1) i.value
      have hmod := Nat.mod_lt (i.denominator + i.value - 1) hvalue
      have hlt := lt_ten_pow_digitCount (ceil - 1)
      have hmul := Nat.mul_le_mul_right i.value (show ceil ≤ 10 ^ digitCount (ceil - 1) by omega)
      rw [hceil] at hdivision
      rw [Nat.mul_comm i.value]
      omega
    rw [hgrid, neg_neg, Int.toNat_natCast, Int.toNat_neg_natCast, pow_zero, Nat.mul_one, pow_add,
      ← Nat.mul_assoc]
    apply Nat.mul_le_mul_right _ hle
  · have hcount := digitCount_pos hwhole
    have hgrid : i.gridExponent (digits + 1) =
        digitCount (i.value / i.denominator) - (digits + 1 : Nat) := by
      rw [gridExponent, if_pos hwhole]
    generalize i.gridExponent (digits + 1) = exponent at hgrid
    have hle : i.denominator * 10 ^ (digitCount (i.value / i.denominator) - 1) ≤ i.value := by
      rw [Nat.mul_comm]
      apply (Nat.le_div_iff_mul_le hpos).mp (ten_pow_le_of_ne_zero hwhole)
    calc i.denominator * 10 ^ exponent.toNat * 10 ^ digits
        = i.denominator * 10 ^ (digitCount (i.value / i.denominator) - 1 + (-exponent).toNat) := by
          rw [Nat.mul_assoc, ← pow_add]
          congr 2
          omega
      _ = i.denominator * 10 ^ (digitCount (i.value / i.denominator) - 1) *
            10 ^ (-exponent).toNat := by rw [pow_add, Nat.mul_assoc]
      _ ≤ i.value * 10 ^ (-exponent).toNat := Nat.mul_le_mul_right _ hle

/-- With seventeen digits there is always a decimal in an interval that is not too narrow. -/
theorem contains_shortest (hroom : i.Room gap) (hvalue : 0 < i.value) (hpos : 0 < i.denominator)
    (hgap : i.value < 2 * gap * 10 ^ 16) :
  i.contains (i.shortest tie)
  := by
  apply contains_shortestFrom
  apply isSome_onGrid? hroom hpos
  have hle := ten_pow_le_value hvalue hpos 16
  have hmul := Nat.mul_lt_mul_of_pos_right hgap
    (Nat.pow_pos (by decide) : 0 < 10 ^ (-i.gridExponent 17).toNat)
  apply Nat.lt_of_mul_lt_mul_right (a := 10 ^ 16)
  apply hle.trans_lt
  apply hmul.trans_eq
  ring

end RoundingInterval

namespace Binary

variable {x : Binary f} {tie : Tie}

/-- The bounds of an interval are not too near to its value. -/
theorem exists_room (hx : x.read = .finite sign units) (hunits : units ≠ 0) :
  ∃ gap, (x.interval units).Room gap ∧ units ≤ 2 ^ f.fractionBits * gap
  := by
  have hstep := Nat.two_pow_pos (x.exponent - 1)
  have hle := step_le_units hx hunits
  have hunits := (fields_of_read hx).2
  have hvalue : (x.interval units).value = 4 * units := rfl
  have hhigh : (x.interval units).high = 4 * units + 2 * 2 ^ (x.exponent - 1) := rfl
  by_cases hpower : x.fraction = 0 ∧ 1 < x.exponent
  · have hlow : (x.interval units).low = 4 * units - 2 ^ (x.exponent - 1) := by
      simp only [interval, Nat.pow_eq, if_pos hpower]
    refine ⟨2 ^ (x.exponent - 1), ⟨hstep, by omega, by omega⟩, ?_⟩
    rw [← hunits, significand, if_neg (by omega), hpower.1, Nat.add_zero]
  · have hlow : (x.interval units).low = 4 * units - 2 * 2 ^ (x.exponent - 1) := by
      simp only [interval, Nat.pow_eq, if_neg hpower]
    refine ⟨2 * 2 ^ (x.exponent - 1), ⟨by omega, by omega, by omega⟩, ?_⟩
    rw [← hunits, ← Nat.mul_assoc, ← pow_succ]
    apply Nat.mul_le_mul_right _ x.significand_lt.le

/-- The fewest digits of a number are in its interval. -/
theorem holds_shortest (hf : f.fractionBits ≤ 52) (hx : x.read = .finite sign units)
    (hunits : units ≠ 0) :
  (x.interval units).Holds ((x.interval units).shortest tie).numerator
    ((x.interval units).shortest tie).denominator
  := by
  obtain ⟨gap, hroom, hle⟩ := exists_room hx hunits
  have hpos := hroom.pos
  have hbits : 2 ^ f.fractionBits * gap ≤ 2 ^ 52 * gap :=
    Nat.mul_le_mul_right _ (Nat.pow_le_pow_right two_pos hf)
  have hvalue : (x.interval units).value = 4 * units := rfl
  apply RoundingInterval.contains_iff.mp
  apply RoundingInterval.contains_shortest hroom _ (Nat.two_pow_pos _) <;> omega

end Binary

end AudioPatch
