import ChainFold.Double.Basic

/-!
# The parts of a double

A double is its sign with the lower 63 bits, and these are its mantissa packed with its
exponent.  What the fields of a double allow is said here of the mantissa and the
exponent, so that nothing else has to look at bits.
-/

namespace ChainFold.Double

/-- A mantissa with its exponent, as the lower 63 bits of a double. -/
def packed (m : Nat) (e : Int) : Nat :=
  if m < Nat.pow 2 52 then m else (e + 1074).toNat * Nat.pow 2 52 + m

theorem two_pow_fraction : Nat.pow 2 52 = 4503599627370496 := rfl

theorem exponentField_lt (d : Double) : d.exponentField < 2048 :=
  Nat.mod_lt _ (by decide)

theorem fractionField_lt (d : Double) : d.fractionField < 4503599627370496 :=
  Nat.mod_lt _ (by decide)

theorem mantissa_lt (d : Double) : d.mantissa < 9007199254740992 := by
  have hfraction := d.fractionField_lt
  unfold mantissa
  rw [two_pow_fraction]
  split <;> omega

theorem le_exponent (d : Double) : -1074 ≤ d.exponent := by
  unfold exponent
  by_cases h : d.exponentField = 0
  · simp [h]
  · simp only [beq_iff_eq, h, if_false]
    omega

theorem exponent_le {d : Double} (h : d.isFinite = true) : d.exponent ≤ 971 := by
  have hfield := d.exponentField_lt
  have hne : d.exponentField ≠ 2047 := by simpa [isFinite] using h
  unfold exponent
  split <;> omega

/-- Above the least exponent the mantissa has all its bits. -/
theorem le_mantissa {d : Double} (h : d.exponent ≠ -1074) : 4503599627370496 ≤ d.mantissa := by
  have hfield : d.exponentField ≠ 0 := by
    intro hzero
    exact h (by simp [exponent, hzero])
  simp only [mantissa, beq_iff_eq, hfield, if_false, two_pow_fraction]
  omega

theorem packed_eq (d : Double) :
    packed d.mantissa d.exponent = d.exponentField * 4503599627370496 + d.fractionField := by
  have hfraction := d.fractionField_lt
  unfold packed mantissa exponent
  by_cases h : d.exponentField = 0
  · simp only [h, beq_self_eq_true, if_true, two_pow_fraction]
    rw [if_pos hfraction]
    omega
  · simp only [beq_iff_eq, h, if_false, two_pow_fraction]
    rw [if_neg (by omega)]
    omega

theorem packed_lt {d : Double} (h : d.isFinite = true) :
    packed d.mantissa d.exponent < 2047 * 4503599627370496 := by
  have hfield := d.exponentField_lt
  have hfraction := d.fractionField_lt
  have hne : d.exponentField ≠ 2047 := by simpa [isFinite] using h
  rw [packed_eq]
  omega

/-- A double is its sign with its mantissa and its exponent. -/
theorem eq_ofMagnitude (d : Double) :
    d = ofMagnitude d.isNegative (packed d.mantissa d.exponent) := by
  have hbits : d.bits.toNat < 18446744073709551616 := d.bits.toNat_lt
  have hsum : packed d.mantissa d.exponent + (if d.isNegative then Nat.pow 2 63 else 0) =
      d.bits.toNat := by
    have hsign : Nat.pow 2 63 = 9223372036854775808 := rfl
    have hfield : Nat.pow 2 11 = 2048 := rfl
    rw [packed_eq]
    simp only [isNegative, exponentField, fractionField, beq_iff_eq, hsign, hfield,
      two_pow_fraction]
    split <;> omega
  rw [ofMagnitude, hsum, UInt64.ofNat_toNat]

theorem eq_zero_of_mantissa {d : Double} (h : d.mantissa = 0) : d = zero d.isNegative := by
  have hpacked : packed d.mantissa d.exponent = 0 := by simp [packed, h]
  have heq := d.eq_ofMagnitude
  rw [hpacked] at heq
  exact heq

/-- How far below a double the numbers begin that round to it, in quarters of its unit. -/
def quartersBelow (d : Double) : Nat :=
  if d.fractionField == 0 && 1 < d.exponentField then 1 else 2

theorem quartersBelow_pos (d : Double) : 0 < d.quartersBelow := by
  unfold quartersBelow
  split <;> omega

theorem quartersBelow_le (d : Double) : d.quartersBelow ≤ 2 := by
  unfold quartersBelow
  split <;> omega

/-- Only the least mantissa above the least exponent has its lower neighbour at half a unit. -/
theorem quartersBelow_eq_one_iff (d : Double) :
    d.quartersBelow = 1 ↔ d.mantissa = 4503599627370496 ∧ d.exponent ≠ -1074 := by
  have hfraction := d.fractionField_lt
  unfold quartersBelow mantissa exponent
  by_cases h : d.exponentField = 0
  · simp only [h]
    simp
  · simp only [beq_iff_eq, h, if_false, two_pow_fraction, Bool.and_eq_true, decide_eq_true_eq]
    by_cases hsmall : d.fractionField = 0 ∧ 1 < d.exponentField
    · rw [if_pos hsmall]
      omega
    · rw [if_neg hsmall]
      omega

end ChainFold.Double
