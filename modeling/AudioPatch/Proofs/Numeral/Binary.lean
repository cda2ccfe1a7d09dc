import AudioPatch.Numeral.Binary
import Mathlib.Algebra.Order.Ring.Nat
import Mathlib.Data.Nat.Log
import Mathlib.Tactic.Ring

/-!
# Rounding without loss

A number of units is a number of a format if its binary digits fit in the fraction and it is not
too large. Rounding such a number gives it back, so a number that is converted to a wider format
and back again is the same.
-/

namespace AudioPatch.Binary

variable {f g : Format} {x : Binary f} {sign : Bool} {pattern units n d : Nat}

/-! ### The fields of a pattern -/

theorem two_pow_width (f : Format) :
  2 ^ f.width = 2 * 2 ^ (f.exponentBits + f.fractionBits)
  := by
  rw [Format.width, Nat.add_assoc, pow_add, pow_one]

theorem toNat_ofPattern (h : pattern < 2 ^ (f.exponentBits + f.fractionBits)) :
  (ofPattern sign pattern : Binary f).bits.toNat =
    (if sign then 1 else 0) * 2 ^ (f.exponentBits + f.fractionBits) + pattern
  := by
  rw [ofPattern, BitVec.toNat_ofNat, two_pow_width, Nat.pow_eq, Nat.mod_eq_of_lt]
  · cases sign <;> simp
  · cases sign <;> simp <;> omega

theorem exponent_ofPattern (h : pattern < 2 ^ (f.exponentBits + f.fractionBits)) :
  (ofPattern sign pattern : Binary f).exponent = pattern / 2 ^ f.fractionBits
  := by
  have hpattern : pattern / 2 ^ f.fractionBits < 2 ^ f.exponentBits := by
    apply Nat.div_lt_of_lt_mul
    rwa [← pow_add, Nat.add_comm]
  rw [exponent, toNat_ofPattern h, Nat.pow_eq, Nat.pow_eq, pow_add, ← Nat.mul_assoc,
    Nat.add_comm, Nat.add_mul_div_right _ _ (Nat.two_pow_pos _), Nat.add_mul_mod_self_right,
    Nat.mod_eq_of_lt hpattern]

theorem fraction_ofPattern (h : pattern < 2 ^ (f.exponentBits + f.fractionBits)) :
  (ofPattern sign pattern : Binary f).fraction = pattern % 2 ^ f.fractionBits
  := by
  rw [fraction, toNat_ofPattern h, Nat.pow_eq, pow_add, ← Nat.mul_assoc, Nat.add_comm,
    Nat.add_mul_mod_self_right]

theorem negative_ofPattern (h : pattern < 2 ^ (f.exponentBits + f.fractionBits)) :
  (ofPattern sign pattern : Binary f).negative = sign
  := by
  rw [negative, toNat_ofPattern h, Nat.pow_eq, Nat.add_comm,
    Nat.add_mul_div_right _ _ (Nat.two_pow_pos _), Nat.div_eq_of_lt h]
  cases sign <;> rfl

theorem exponent_lt (x : Binary f) :
  x.exponent < 2 ^ f.exponentBits
  := Nat.mod_lt _ (Nat.two_pow_pos _)

theorem fraction_lt (x : Binary f) :
  x.fraction < 2 ^ f.fractionBits
  := Nat.mod_lt _ (Nat.two_pow_pos _)

theorem exponent_mul_add_fraction (x : Binary f) :
  x.exponent * 2 ^ f.fractionBits + x.fraction =
    x.bits.toNat % 2 ^ (f.exponentBits + f.fractionBits)
  := by
  rw [Nat.add_comm f.exponentBits, pow_add, Nat.mod_mul, exponent, fraction]
  simp only [Nat.pow_eq]
  ring

/-- A number is known by its fields. -/
theorem ofPattern_fields (x : Binary f) :
  ofPattern x.negative (x.exponent * 2 ^ f.fractionBits + x.fraction) = x
  := by
  have hlt : x.bits.toNat / 2 ^ (f.exponentBits + f.fractionBits) < 2 := by
    apply Nat.div_lt_of_lt_mul
    apply x.bits.isLt.trans_eq
    rw [two_pow_width, Nat.mul_comm]
  have hsign : (if x.negative then 1 else 0) =
      x.bits.toNat / 2 ^ (f.exponentBits + f.fractionBits) := by
    simp only [negative, Nat.pow_eq, decide_eq_true_eq]
    generalize x.bits.toNat / 2 ^ (f.exponentBits + f.fractionBits) = high at hlt ⊢
    split <;> omega
  have hbits : (ofPattern x.negative (x.exponent * 2 ^ f.fractionBits + x.fraction) :
      Binary f).bits = x.bits := by
    apply BitVec.eq_of_toNat_eq
    rw [exponent_mul_add_fraction, toNat_ofPattern (Nat.mod_lt _ (Nat.two_pow_pos _)), hsign,
      Nat.div_add_mod']
  cases x
  exact congrArg Binary.mk hbits

/-! ### Finite numbers -/

/-- The digits of a finite number, with the leading one that its pattern leaves out. -/
def significand (x : Binary f) : Nat :=
  (if x.exponent = 0 then 0 else 2 ^ f.fractionBits) + x.fraction

theorem significand_lt (x : Binary f) :
  x.significand < 2 ^ (f.fractionBits + 1)
  := by
  have hfraction := x.fraction_lt
  rw [significand, pow_succ]
  split <;> omega

theorem exponent_mul_add_fraction_eq_significand (x : Binary f) :
  x.exponent * 2 ^ f.fractionBits + x.fraction =
    (x.exponent - 1) * 2 ^ f.fractionBits + x.significand
  := by
  rw [significand]
  cases x.exponent with
  | zero => simp
  | succ e =>
      rw [if_neg (Nat.succ_ne_zero e), Nat.add_sub_cancel]
      ring

theorem read_eq_finite (h : x.exponent ≠ 2 ^ f.exponentBits - 1) :
  x.read = .finite x.negative (x.significand * 2 ^ (x.exponent - 1))
  := by
  rw [read, Nat.pow_eq, if_neg h, significand]
  split
  · simp [*]
  · simp only [Nat.pow_eq]

theorem fields_lt_infinity (h : x.exponent ≠ 2 ^ f.exponentBits - 1) :
  x.exponent * 2 ^ f.fractionBits + x.fraction < f.infinity
  := by
  have hexponent : x.exponent + 1 ≤ 2 ^ f.exponentBits - 1 := by
    have := x.exponent_lt
    omega
  calc x.exponent * 2 ^ f.fractionBits + x.fraction
      < (x.exponent + 1) * 2 ^ f.fractionBits := by
        rw [Nat.add_one_mul]
        apply Nat.add_lt_add_left x.fraction_lt
    _ ≤ f.infinity := Nat.mul_le_mul_right _ hexponent

theorem exponent_ne_of_read (h : x.read = .finite sign units) :
  x.exponent ≠ 2 ^ f.exponentBits - 1
  := by
  intro he
  rw [read, Nat.pow_eq, if_pos he] at h
  split at h <;> cases h

theorem log2_mul_two_pow (hn : n ≠ 0) (k : Nat) :
  (n * 2 ^ k).log2 = n.log2 + k
  := by
  obtain ⟨hlow, hhigh⟩ := (Nat.log2_eq_iff hn).mp rfl
  rw [Nat.log2_eq_iff (Nat.mul_ne_zero hn (Nat.two_pow_pos k).ne'), Nat.add_right_comm, pow_add,
    pow_add]
  exact ⟨Nat.mul_le_mul_right _ hlow, Nat.mul_lt_mul_of_pos_right hhigh (Nat.two_pow_pos k)⟩

theorem log2_significand_mul (x : Binary f) :
  (x.significand * 2 ^ (x.exponent - 1)).log2 - f.fractionBits = x.exponent - 1
  := by
  have hfraction := x.fraction_lt
  rw [significand]
  cases x.exponent with
  | zero =>
      by_cases hzero : x.fraction = 0
      · simp [hzero]
      · have hlog : x.fraction.log2 < f.fractionBits := (Nat.log2_lt hzero).mpr hfraction
        rw [if_pos rfl, Nat.zero_add, Nat.zero_sub, pow_zero, Nat.mul_one]
        omega
  | succ e =>
      rw [if_neg (Nat.succ_ne_zero e), Nat.add_sub_cancel]
      have hpos : 2 ^ f.fractionBits + x.fraction ≠ 0 := by
        have := Nat.two_pow_pos f.fractionBits
        omega
      have hlog : (2 ^ f.fractionBits + x.fraction).log2 = f.fractionBits := by
        rw [Nat.log2_eq_iff hpos, pow_succ]
        omega
      rw [log2_mul_two_pow hpos, hlog, Nat.add_sub_cancel_left]

/-! ### Exact rounding -/

theorem roundQuotient_mul (n : Nat) (hd : 0 < d) :
  roundQuotient (n * d) d = n
  := by
  simp [roundQuotient, Nat.mul_div_cancel n hd, hd]

/-- Rounding a whole number of units whose digits fit in the fraction. -/
theorem ofQuotient_eq (hdvd : 2 ^ (units.log2 - f.fractionBits) ∣ units) (hd : 0 < d)
    (h : n * 2 ^ f.scale = units * d) :
  (ofQuotient sign n d : Binary f) = ofPattern sign
    (min ((units.log2 - f.fractionBits) * 2 ^ f.fractionBits +
      units / 2 ^ (units.log2 - f.fractionBits)) f.infinity)
  := by
  obtain ⟨digits, hdigits⟩ := hdvd
  simp only [ofQuotient, Nat.pow_eq]
  rw [h, Nat.mul_div_cancel units hd]
  congr 3
  generalize hshift : units.log2 - f.fractionBits = shift at hdigits ⊢
  subst hdigits
  rw [Nat.mul_div_cancel_left digits (Nat.two_pow_pos shift),
    show 2 ^ shift * digits * d = digits * (d * 2 ^ shift) by ring]
  apply roundQuotient_mul digits (Nat.mul_pos hd (Nat.two_pow_pos shift))

/-- A finite number is what its own units are rounded to. -/
theorem ofQuotient_of_read (hx : x.read = .finite sign units) (hd : 0 < d)
    (h : n * 2 ^ f.scale = units * d) :
  ofQuotient sign n d = x
  := by
  have hexponent := exponent_ne_of_read hx
  rw [read_eq_finite hexponent] at hx
  obtain ⟨rfl, rfl⟩ := Reading.finite.inj hx
  rw [ofQuotient_eq (by rw [log2_significand_mul]; apply Nat.dvd_mul_left) hd h,
    log2_significand_mul, Nat.mul_div_cancel _ (Nat.two_pow_pos _),
    ← exponent_mul_add_fraction_eq_significand, Nat.min_eq_left (fields_lt_infinity hexponent).le,
    ofPattern_fields]

theorem infinity_lt (f : Format) :
  f.infinity < 2 ^ (f.exponentBits + f.fractionBits)
  := by
  rw [Format.infinity, pow_add]
  apply Nat.mul_lt_mul_of_pos_right _ (Nat.two_pow_pos _)
  apply Nat.sub_one_lt (Nat.two_pow_pos _).ne'

/-- Units that are a finite number of the format: their digits fit in the fraction, and they
stay below infinity. -/
structure Exact (f : Format) (units : Nat) : Prop where
  dvd : 2 ^ (units.log2 - f.fractionBits) ∣ units
  lt : units < 2 ^ (f.fractionBits + (2 ^ f.exponentBits - 2))

theorem Exact.of_read (hx : x.read = .finite sign units) :
  Exact f units
  := by
  have hexponent := exponent_ne_of_read hx
  rw [read_eq_finite hexponent] at hx
  obtain ⟨rfl, rfl⟩ := Reading.finite.inj hx
  constructor
  case dvd =>
    rw [log2_significand_mul]
    apply Nat.dvd_mul_left
  case lt =>
    have hlt := x.exponent_lt
    cases he : x.exponent with
    | zero =>
        rw [significand, if_pos he, Nat.zero_add, Nat.zero_sub, pow_zero, Nat.mul_one]
        apply x.fraction_lt.trans_le
        apply Nat.pow_le_pow_right two_pos (Nat.le_add_right _ _)
    | succ e =>
        calc x.significand * 2 ^ e
            < 2 ^ (f.fractionBits + 1) * 2 ^ e :=
              Nat.mul_lt_mul_of_pos_right x.significand_lt (Nat.two_pow_pos e)
          _ = 2 ^ (f.fractionBits + 1 + e) := (pow_add _ _ _).symm
          _ ≤ 2 ^ (f.fractionBits + (2 ^ f.exponentBits - 2)) := by
              apply Nat.pow_le_pow_right two_pos
              omega

/-- The finite number with given fields. -/
theorem read_ofPattern (sign : Bool) {e m : Nat} (he : e < 2 ^ f.exponentBits - 1)
    (hm : m < 2 ^ f.fractionBits) :
  (ofPattern sign (e * 2 ^ f.fractionBits + m) : Binary f).read =
    .finite sign (((if e = 0 then 0 else 2 ^ f.fractionBits) + m) * 2 ^ (e - 1))
  := by
  have hpattern : e * 2 ^ f.fractionBits + m < 2 ^ (f.exponentBits + f.fractionBits) := by
    rw [pow_add]
    apply Nat.lt_of_lt_of_le _ (Nat.mul_le_mul_right _ (show e + 1 ≤ 2 ^ f.exponentBits by omega))
    rw [Nat.add_one_mul]
    apply Nat.add_lt_add_left hm
  have hexponent : (ofPattern sign (e * 2 ^ f.fractionBits + m) : Binary f).exponent = e := by
    rw [exponent_ofPattern hpattern, Nat.add_comm, Nat.add_mul_div_right _ _ (Nat.two_pow_pos _),
      Nat.div_eq_of_lt hm, Nat.zero_add]
  have hfraction : (ofPattern sign (e * 2 ^ f.fractionBits + m) : Binary f).fraction = m := by
    rw [fraction_ofPattern hpattern, Nat.add_comm, Nat.add_mul_mod_self_right,
      Nat.mod_eq_of_lt hm]
  rw [read_eq_finite (by omega), significand, hexponent, hfraction, negative_ofPattern hpattern]

/-- Units that fit are those of a number. -/
theorem Exact.exists_read (hunits : Exact f units) (hf : 0 < f.exponentBits) (sign : Bool) :
  ∃ x : Binary f, x.read = .finite sign units
  := by
  have htwo : 2 ≤ 2 ^ f.exponentBits := Nat.le_self_pow hf.ne' 2
  by_cases hsmall : units < 2 ^ f.fractionBits
  · refine ⟨_, (read_ofPattern sign (show 0 < 2 ^ f.exponentBits - 1 by omega) hsmall).trans ?_⟩
    simp
  · obtain ⟨digits, hdigits⟩ := hunits.dvd
    have hpos : units ≠ 0 := by
      have := Nat.two_pow_pos f.fractionBits
      omega
    have hlog : f.fractionBits ≤ units.log2 := (Nat.le_log2 hpos).mpr (by omega)
    have hlt : units.log2 < f.fractionBits + (2 ^ f.exponentBits - 2) :=
      (Nat.log2_lt hpos).mpr hunits.lt
    obtain ⟨shift, hshift⟩ := Nat.exists_eq_add_of_le hlog
    obtain ⟨hlow, hhigh⟩ := (Nat.log2_eq_iff hpos).mp hshift
    rw [hshift, Nat.add_sub_cancel_left] at hdigits
    -- The digits without the leading one are the fraction.
    have hdigits_le : 2 ^ f.fractionBits ≤ digits := by
      rw [hdigits, Nat.add_comm, pow_add] at hlow
      apply Nat.le_of_mul_le_mul_left hlow (Nat.two_pow_pos shift)
    have hdigits_lt : digits < 2 ^ f.fractionBits * 2 := by
      rw [hdigits, Nat.add_right_comm, Nat.add_comm, pow_add, pow_succ] at hhigh
      apply Nat.lt_of_mul_lt_mul_left hhigh
    have hread := read_ofPattern sign (show shift + 1 < 2 ^ f.exponentBits - 1 by omega)
      (show digits - 2 ^ f.fractionBits < 2 ^ f.fractionBits by omega)
    refine ⟨_, hread.trans ?_⟩
    rw [if_neg (Nat.succ_ne_zero shift), Nat.add_sub_cancel' hdigits_le, Nat.add_sub_cancel,
      hdigits, Nat.mul_comm]

/-! ### Conversion -/

/-- Every finite number of the first format is one of the second. -/
structure Within (f g : Format) : Prop where
  exponentBits_pos : 0 < g.exponentBits
  fraction : f.fractionBits ≤ g.fractionBits
  scale : f.scale ≤ g.scale
  range : f.fractionBits + (2 ^ f.exponentBits - 2) + (g.scale - f.scale) ≤
    g.fractionBits + (2 ^ g.exponentBits - 2)

theorem Exact.widen (hunits : Exact f units) (hwithin : Within f g) :
  Exact g (units * 2 ^ (g.scale - f.scale))
  := by
  generalize hwiden : g.scale - f.scale = widen
  constructor
  case dvd =>
    by_cases hzero : units = 0
    · simp [hzero]
    · have hfraction := hwithin.fraction
      apply Dvd.dvd.trans (b := 2 ^ (units.log2 - f.fractionBits) * 2 ^ widen)
      · rw [log2_mul_two_pow hzero, ← pow_add]
        apply Nat.pow_dvd_pow
        omega
      · apply Nat.mul_dvd_mul_right hunits.dvd
  case lt =>
    have hrange := hwithin.range
    rw [hwiden] at hrange
    calc units * 2 ^ widen
        < 2 ^ (f.fractionBits + (2 ^ f.exponentBits - 2)) * 2 ^ widen :=
          Nat.mul_lt_mul_of_pos_right hunits.lt (Nat.two_pow_pos widen)
      _ = 2 ^ (f.fractionBits + (2 ^ f.exponentBits - 2) + widen) := (pow_add _ _ _).symm
      _ ≤ 2 ^ (g.fractionBits + (2 ^ g.exponentBits - 2)) := Nat.pow_le_pow_right two_pos hrange

theorem convert_of_read (hx : x.read = .finite sign units) :
  (x.convert : Binary g) = ofQuotient sign units (2 ^ f.scale)
  := by
  rw [convert, hx]
  rfl

/-- A finite number that is converted to a wider format and back is the same. -/
theorem convert_convert_of_finite (hwithin : Within f g)
    (hx : x.read = .finite sign units) :
  (x.convert : Binary g).convert = x
  := by
  have hwiden : units * 2 ^ g.scale = units * 2 ^ (g.scale - f.scale) * 2 ^ f.scale := by
    rw [Nat.mul_assoc, ← pow_add, Nat.sub_add_cancel hwithin.scale]
  obtain ⟨y, hy⟩ := ((Exact.of_read hx).widen hwithin).exists_read hwithin.exponentBits_pos sign
  have hwide : (x.convert : Binary g) = y := by
    rw [convert_of_read hx]
    apply ofQuotient_of_read hy (Nat.two_pow_pos _) hwiden
  rw [hwide, convert_of_read hy]
  apply ofQuotient_of_read hx (Nat.two_pow_pos _) hwiden.symm

theorem single_within_double :
  Within .single .double
  := by
  constructor <;> decide

/-! ### Infinity and what is no number -/

theorem exponent_infinite (sign : Bool) :
  (infinite sign : Binary f).exponent = 2 ^ f.exponentBits - 1
  := by
  rw [infinite, exponent_ofPattern (infinity_lt f), Format.infinity, Nat.pow_eq, Nat.pow_eq,
    Nat.mul_div_cancel _ (Nat.two_pow_pos _)]

theorem read_infinite (sign : Bool) :
  (infinite sign : Binary f).read = .infinite sign
  := by
  have hfraction : (infinite sign : Binary f).fraction = 0 := by
    rw [infinite, fraction_ofPattern (infinity_lt f), Format.infinity, Nat.pow_eq, Nat.pow_eq,
      Nat.mul_mod_left]
  rw [read, exponent_infinite, Nat.pow_eq, if_pos rfl, if_pos hfraction, infinite,
    negative_ofPattern (infinity_lt f)]

theorem eq_infinite_of_read (hx : x.read = .infinite sign) :
  x = infinite sign
  := by
  by_cases hexponent : x.exponent = 2 ^ f.exponentBits - 1
  · rw [read, Nat.pow_eq, if_pos hexponent] at hx
    split at hx
    case isTrue hfraction =>
      obtain rfl := Reading.infinite.inj hx
      calc x = ofPattern x.negative (x.exponent * 2 ^ f.fractionBits + x.fraction) :=
            (ofPattern_fields x).symm
        _ = infinite x.negative := by
            rw [hexponent, hfraction]
            rfl
    case isFalse => cases hx
  · rw [read_eq_finite hexponent] at hx
    cases hx

theorem convert_infinite (sign : Bool) :
  ((infinite sign : Binary f).convert : Binary g) = infinite sign
  := by
  rw [convert, read_infinite]

theorem convert_of_nan (hx : x.read = .nan) :
  (x.convert : Binary g) = nan
  := by
  rw [convert, hx]

/-- Of the patterns that stand for no number, only the usual one is used. -/
def Settled (x : Binary f) : Prop := x.read = .nan → x = nan

theorem settled_of_isFinite (h : x.isFinite) :
  x.Settled
  := by
  intro hnan
  rw [isFinite, decide_eq_true_eq, Nat.pow_eq] at h
  rw [read_eq_finite h] at hnan
  cases hnan

theorem settled_ofPattern (h : pattern ≤ f.infinity) :
  (ofPattern sign pattern : Binary f).Settled
  := by
  intro hnan
  have hlt := h.trans_lt (infinity_lt f)
  by_cases hexponent : (ofPattern sign pattern : Binary f).exponent = 2 ^ f.exponentBits - 1
  · have hpattern : pattern = f.infinity := by
      rw [exponent_ofPattern hlt] at hexponent
      apply Nat.le_antisymm h
      rw [Format.infinity, Nat.pow_eq, Nat.pow_eq, ← hexponent]
      apply Nat.div_mul_le_self
    rw [hpattern, ← infinite, read_infinite] at hnan
    cases hnan
  · rw [read_eq_finite hexponent] at hnan
    cases hnan

theorem settled_ofQuotient (sign : Bool) (n d : Nat) :
  (ofQuotient sign n d : Binary f).Settled
  := settled_ofPattern (Nat.min_le_right _ _)

/-- Conversion uses only the usual pattern. -/
theorem settled_convert (x : Binary f) :
  (x.convert : Binary g).Settled
  := by
  rw [convert]
  cases x.read with
  | finite sign units => apply settled_ofQuotient
  | infinite sign =>
      intro hnan
      rw [read_infinite] at hnan
      cases hnan
  | nan =>
      intro _
      rfl

/-- A number of 32 bits that is converted to one of 64 and back is the same. -/
theorem convert_convert {x : Binary .single} (hx : x.Settled) :
  (x.convert : Binary .double).convert = x
  := by
  cases hread : x.read with
  | finite sign units => apply convert_convert_of_finite single_within_double hread
  | infinite sign => rw [eq_infinite_of_read hread, convert_infinite, convert_infinite]
  | nan => rw [convert_of_nan hread, convert_of_nan (by decide), hx hread]

theorem sameValue_self (x : Binary f) :
  x.sameValue x = !x.isNaN
  := by
  rw [sameValue, isNaN]
  cases x.read <;> simp

end AudioPatch.Binary
