import ChainFold.Proofs.Double.Parts
import Mathlib.Algebra.Order.Field.Power
import Mathlib.Data.Rat.Cast.Order
import Mathlib.Tactic.FieldSimp
import Mathlib.Tactic.Linarith
import Mathlib.Tactic.NormNum
import Mathlib.Tactic.Positivity
import Mathlib.Tactic.Ring

/-!
# Numbers that round to a double

A ratio is rounded to a mantissa times a power of two, and the exponent of that power
depends on nothing but the size of the ratio.  Every number in the interval of a double
is therefore rounded to the double: in its own unit, or in half of it where the double
is the least one with its unit.
-/

namespace ChainFold.Double

/-! ## Powers of integers -/

/-- A power is computed as a ratio of two powers, one of which is one. -/
theorem zpow_eq_ratio {b : Nat} (hb : 0 < b) (k : Int) :
    (b : ℚ) ^ k = (Nat.pow b k.toNat : Nat) / (Nat.pow b (-k).toNat : Nat) := by
  have hne : (b : ℚ) ≠ 0 := by positivity
  simp only [Nat.pow_eq, Nat.cast_pow]
  rw [← zpow_natCast, ← zpow_natCast, ← zpow_sub₀ hne]
  congr 1
  omega

theorem two_zpow_eq (k : Int) :
    (2 : ℚ) ^ k = (Nat.pow 2 k.toNat : Nat) / (Nat.pow 2 (-k).toNat : Nat) := by
  exact_mod_cast zpow_eq_ratio (b := 2) two_pos k

theorem ten_zpow_eq (k : Int) :
    (10 : ℚ) ^ k = (Nat.pow 10 k.toNat : Nat) / (Nat.pow 10 (-k).toNat : Nat) := by
  exact_mod_cast zpow_eq_ratio (b := 10) (by omega) k

theorem two_zpow_add (e : Int) (k : Nat) : (2 : ℚ) ^ (e + k) = 2 ^ k * 2 ^ e := by
  rw [zpow_add₀ two_ne_zero, mul_comm, zpow_natCast]

/-- A ratio lies between the powers of two that the lengths of its parts give. -/
theorem ratio_bounds {num den : Nat} (hnum : 0 < num) (hden : 0 < den) :
    (2 : ℚ) ^ ((num.log2 : Int) - den.log2 - 1) < num / den ∧
      (num : ℚ) / den < 2 ^ ((num.log2 : Int) - den.log2 + 1) := by
  have hden' : (0 : ℚ) < den := by exact_mod_cast hden
  have hnumLower : (2 : ℚ) ^ num.log2 ≤ num := by exact_mod_cast Nat.log2_self_le hnum.ne'
  have hnumUpper : (num : ℚ) < 2 ^ (num.log2 + 1) := by exact_mod_cast Nat.lt_log2_self
  have hdenLower : (2 : ℚ) ^ den.log2 ≤ den := by exact_mod_cast Nat.log2_self_le hden.ne'
  have hdenUpper : (den : ℚ) < 2 ^ (den.log2 + 1) := by exact_mod_cast Nat.lt_log2_self
  have hsplit : ∀ a b : Nat, (2 : ℚ) ^ ((a : Int) - b) = 2 ^ a / 2 ^ b := by
    intro a b
    rw [zpow_sub₀ two_ne_zero, zpow_natCast, zpow_natCast]
  constructor
  · have hexp : (num.log2 : Int) - den.log2 - 1 = (num.log2 : Int) - (den.log2 + 1 : Nat) := by
      omega
    rw [hexp, hsplit, div_lt_div_iff₀ (by positivity) hden']
    exact mul_lt_mul_of_pos_of_nonneg hnumLower hdenUpper (by positivity) (by positivity)
  · have hexp : (num.log2 : Int) - den.log2 + 1 = (num.log2 + 1 : Nat) - (den.log2 : Int) := by
      omega
    rw [hexp, hsplit, div_lt_div_iff₀ hden' (by positivity)]
    exact mul_lt_mul_of_lt_of_le_of_nonneg_of_pos hnumUpper hdenLower (by positivity)
      (by positivity)

theorem scaled_eq (num : Nat) {den : Nat} (hden : 0 < den) (e : Int) :
    0 < (scaled num den e).2 ∧
      ((scaled num den e).1 : ℚ) / (scaled num den e).2 = num / den / 2 ^ e := by
  have hpow := two_zpow_eq e
  unfold scaled
  by_cases h : 0 ≤ e
  · have hzero : (-e).toNat = 0 := by omega
    simp only [h, if_true]
    constructor
    · exact Nat.mul_pos hden (Nat.pow_pos two_pos)
    · rw [hpow, hzero]
      simp [div_div]
  · have hzero : e.toNat = 0 := by omega
    simp only [h, if_false]
    constructor
    · exact hden
    · rw [hpow, hzero]
      simp [mul_div_right_comm]

/-! ## Rounding to an integer -/

/-- A natural number is nearest to a number; an odd one is nearest without a tie. -/
structure Rounds (y : ℚ) (m : Nat) : Prop where
  lower : 2 * (m : ℚ) - 1 ≤ 2 * y
  upper : 2 * y ≤ 2 * m + 1
  strict : m % 2 = 1 → 2 * (m : ℚ) - 1 < 2 * y ∧ 2 * y < 2 * m + 1

/-- What is nearest to a ratio, said without fractions. -/
theorem Rounds.of_ratio {num den m : Nat} (hden : 0 < den) (h : Rounds ((num : ℚ) / den) m) :
    2 * m * den ≤ 2 * num + den ∧ 2 * num ≤ 2 * m * den + den ∧
      (m % 2 = 1 → 2 * m * den < 2 * num + den ∧ 2 * num < 2 * m * den + den) := by
  have hden' : (0 : ℚ) < den := by exact_mod_cast hden
  have hratio : 2 * ((num : ℚ) / den) = 2 * num / den := by ring
  obtain ⟨hlower, hupper, hstrict⟩ := h
  rw [hratio, le_div_iff₀ hden'] at hlower
  rw [hratio, div_le_iff₀ hden'] at hupper
  rw [hratio, lt_div_iff₀ hden', div_lt_iff₀ hden'] at hstrict
  refine ⟨?_, ?_, ?_⟩
  · have hle : 2 * (m : ℚ) * den ≤ 2 * num + den := by linarith
    exact_mod_cast hle
  · have hle : 2 * (num : ℚ) ≤ 2 * m * den + den := by linarith
    exact_mod_cast hle
  · intro hodd
    obtain ⟨hlt, hgt⟩ := hstrict hodd
    have hlt' : 2 * (m : ℚ) * den < 2 * num + den := by linarith
    have hgt' : 2 * (num : ℚ) < 2 * m * den + den := by linarith
    exact_mod_cast And.intro hlt' hgt'

theorem roundRatio_eq {num den m : Nat} (hden : 0 < den) (h : Rounds ((num : ℚ) / den) m) :
    roundRatio num den = m := by
  obtain ⟨hlower, hupper, hstrict⟩ := h.of_ratio hden
  have hdiv := Nat.div_add_mod num den
  have hmod := Nat.mod_lt num hden
  unfold roundRatio
  generalize num / den = q at *
  generalize num % den = r at *
  subst hdiv
  have hq : q ≤ m := by
    by_contra hlt
    have : (m + 1) * den ≤ q * den := Nat.mul_le_mul_right den (by omega)
    linarith
  have hm : m ≤ q + 1 := by
    by_contra hlt
    have : (q + 2) * den ≤ m * den := Nat.mul_le_mul_right den (by omega)
    linarith
  -- The quotient is rounded down or up, and stays where it is even for a half.
  obtain rfl | rfl : m = q ∨ m = q + 1 := by omega
  · have hcomm : m * den = den * m := Nat.mul_comm m den
    by_cases hhalf : 2 * r = den
    · have heven : m % 2 ≠ 1 := fun hodd => absurd (hstrict hodd).2 (by linarith)
      simp only [hhalf, lt_irrefl, if_false]
      omega
    · have hlt : 2 * r < den := lt_of_le_of_ne (by linarith) hhalf
      simp [hlt]
  · have hcomm : q * den = den * q := Nat.mul_comm q den
    by_cases hhalf : 2 * r = den
    · have heven : (q + 1) % 2 ≠ 1 := fun hodd => absurd (hstrict hodd).1 (by linarith)
      simp only [hhalf, lt_irrefl, if_false]
      omega
    · have hlt : den < 2 * r := lt_of_le_of_ne (by linarith) (Ne.symm hhalf)
      simp [hlt, hlt.le.not_gt]

/-! ## Rounding to a double -/

/-- The exponent of the unit in which a number is rounded: 53 bits, or the least exponent. -/
structure UnitExponent (x : ℚ) (e : Int) : Prop where
  least : -1074 ≤ e
  upper : x < 2 ^ (e + 53)
  lower : e = -1074 ∨ (2 : ℚ) ^ (e + 52) ≤ x

theorem UnitExponent.not_lt {x : ℚ} {e e' : Int} (h : UnitExponent x e) (h' : UnitExponent x e') :
    ¬ e < e' := by
  intro hlt
  have hleast := h.least
  have hlower : (2 : ℚ) ^ (e' + 52) ≤ x := h'.lower.resolve_left (by omega)
  have hpow : (2 : ℚ) ^ (e + 53) ≤ 2 ^ (e' + 52) :=
    zpow_le_zpow_right₀ one_le_two (by omega)
  exact absurd (h.upper.trans_le (hpow.trans hlower)) (lt_irrefl x)

theorem UnitExponent.unique {x : ℚ} {e e' : Int} (h : UnitExponent x e)
    (h' : UnitExponent x e') : e = e' := by
  have hle := h.not_lt h'
  have hge := h'.not_lt h
  omega

/-- The exponent that is found for a ratio. -/
def unitExponent (num den : Nat) : Int :=
  let guess : Int := max ((Nat.log2 num : Int) - (Nat.log2 den : Int) - 53) (-1074)
  if Nat.pow 2 53 ≤ (scaled num den guess).1 / (scaled num den guess).2 then guess + 1 else guess

theorem unitExponent_spec {num den : Nat} (hnum : 0 < num) (hden : 0 < den) :
    UnitExponent ((num : ℚ) / den) (unitExponent num den) := by
  obtain ⟨hlower, hupper⟩ := ratio_bounds hnum hden
  unfold unitExponent
  generalize hguess : max ((num.log2 : Int) - den.log2 - 53) (-1074) = guess
  obtain ⟨hpos, hscaled⟩ := scaled_eq num hden guess
  have hpos' : (0 : ℚ) < (scaled num den guess).2 := by exact_mod_cast hpos
  have hunit : (0 : ℚ) < 2 ^ guess := by positivity
  -- The test compares the ratio with 53 bits of the guessed unit.
  have htest : Nat.pow 2 53 ≤ (scaled num den guess).1 / (scaled num den guess).2 ↔
      (2 : ℚ) ^ (guess + 53) ≤ num / den := by
    have hsplit : (2 : ℚ) ^ (guess + 53) = 2 ^ 53 * 2 ^ guess := two_zpow_add guess 53
    rw [Nat.le_div_iff_mul_le hpos, hsplit, ← le_div_iff₀ hunit, ← hscaled, le_div_iff₀ hpos',
      Nat.pow_eq]
    exact_mod_cast Iff.rfl
  have hbelow : (num : ℚ) / den < 2 ^ (guess + 54) :=
    hupper.trans_le (zpow_le_zpow_right₀ one_le_two (by omega))
  have hleast : -1074 ≤ guess := by omega
  by_cases h : (2 : ℚ) ^ (guess + 53) ≤ num / den
  · simp only [htest, h, if_true]
    refine ⟨by omega, ?_, Or.inr ?_⟩
    · rw [show guess + 1 + 53 = guess + 54 by omega]
      exact hbelow
    · rw [show guess + 1 + 52 = guess + 53 by omega]
      exact h
  · simp only [htest, h, if_false]
    refine ⟨hleast, not_le.mp h, ?_⟩
    by_cases hguess' : guess = -1074
    · exact Or.inl hguess'
    · refine Or.inr (le_trans (zpow_le_zpow_right₀ one_le_two ?_) hlower.le)
      omega

theorem ofRatio_of_pos {num den : Nat} (hnum : 0 < num) (hden : 0 < den) (negative : Bool) :
    ofRatio negative num den =
      (let e := unitExponent num den
       let magnitude := packed (roundRatio (scaled num den e).1 (scaled num den e).2) e
       if 2047 * Nat.pow 2 52 ≤ magnitude then infinity negative
       else ofMagnitude negative magnitude) := by
  have hzero : (num == 0 || den == 0) = false := by simp [hnum.ne', hden.ne']
  rw [ofRatio, if_neg (by rw [hzero]; exact Bool.false_ne_true)]
  rfl

/-- A ratio is rounded to the mantissa nearest to it in its unit. -/
theorem ofRatio_eq {num den m : Nat} {e : Int} (hnum : 0 < num) (hden : 0 < den)
    (he : UnitExponent ((num : ℚ) / den) e) (hm : Rounds ((num : ℚ) / den / 2 ^ e) m)
    (hfinite : packed m e < 2047 * 4503599627370496) (negative : Bool) :
    ofRatio negative num den = ofMagnitude negative (packed m e) := by
  have hexp : unitExponent num den = e := (unitExponent_spec hnum hden).unique he
  obtain ⟨hpos, hscaled⟩ := scaled_eq num hden e
  rw [← hscaled] at hm
  simp only [ofRatio_of_pos hnum hden, hexp, roundRatio_eq hpos hm]
  rw [if_neg (by rw [two_pow_fraction]; omega)]

/-! ## The interval of a double -/

/-- A number lies in the interval of a double, whose ends belong to it for an even mantissa. -/
structure Near (d : Double) (x : ℚ) : Prop where
  lower : (4 * (d.mantissa : ℚ) - d.quartersBelow) * 2 ^ d.exponent ≤ 4 * x
  upper : 4 * x ≤ (4 * (d.mantissa : ℚ) + 2) * 2 ^ d.exponent
  strict : d.mantissa % 2 = 1 →
    (4 * (d.mantissa : ℚ) - d.quartersBelow) * 2 ^ d.exponent < 4 * x ∧
      4 * x < (4 * (d.mantissa : ℚ) + 2) * 2 ^ d.exponent

variable {d : Double} {x : ℚ}

theorem Near.lt (h : Near d x) : x < 2 ^ (d.exponent + 53) := by
  have hunit : (0 : ℚ) < 2 ^ d.exponent := by positivity
  have hmantissa : (d.mantissa : ℚ) + 1 ≤ 2 ^ 53 := by exact_mod_cast d.mantissa_lt
  have hsplit : (2 : ℚ) ^ (d.exponent + 53) = 2 ^ 53 * 2 ^ d.exponent := two_zpow_add d.exponent 53
  have hupper := h.upper
  rw [hsplit]
  nlinarith

theorem Near.rounds (h : Near d x) : Rounds (x / 2 ^ d.exponent) d.mantissa := by
  have hunit : (0 : ℚ) < 2 ^ d.exponent := by positivity
  have hquarters : (d.quartersBelow : ℚ) ≤ 2 := by exact_mod_cast d.quartersBelow_le
  have hx : x = x / 2 ^ d.exponent * 2 ^ d.exponent := by field_simp
  obtain ⟨hlower, hupper, hstrict⟩ := h
  generalize x / 2 ^ d.exponent = y at *
  generalize (2 : ℚ) ^ d.exponent = u at *
  subst hx
  rw [← mul_assoc] at hlower hupper hstrict
  have hlower' := le_of_mul_le_mul_right hlower hunit
  have hupper' := le_of_mul_le_mul_right hupper hunit
  refine ⟨by linarith, by linarith, ?_⟩
  intro hodd
  obtain ⟨hlt, hgt⟩ := hstrict hodd
  have hlt' := lt_of_mul_lt_mul_right hlt hunit.le
  have hgt' := lt_of_mul_lt_mul_right hgt hunit.le
  constructor <;> linarith

/-- Only the least double of a unit is near to a number of fewer bits. -/
theorem Near.quartersBelow_eq (h : Near d x) (hexponent : d.exponent ≠ -1074)
    (hx : x < 2 ^ (d.exponent + 52)) : d.quartersBelow = 1 := by
  refine d.quartersBelow_eq_one_iff.mpr ⟨?_, hexponent⟩
  have hleast := le_mantissa hexponent
  by_contra hne
  have hmore : (4503599627370497 : ℚ) ≤ d.mantissa := by
    exact_mod_cast (by omega : 4503599627370497 ≤ d.mantissa)
  have hquarters : (d.quartersBelow : ℚ) ≤ 2 := by exact_mod_cast d.quartersBelow_le
  have hunit : (0 : ℚ) < 2 ^ d.exponent := by positivity
  have hupper : x < 2 ^ 52 * 2 ^ d.exponent := hx.trans_eq (two_zpow_add d.exponent 52)
  have hlower := h.lower
  norm_num at hupper
  nlinarith

/--
Below the least mantissa of 53 bits the unit is half as large, and the number is
nearest to the mantissa of 54 bits there.
-/
theorem Near.rounds_half (h : Near d x) (hquarters : d.quartersBelow = 1)
    (hx : x < 2 ^ (d.exponent + 52)) :
    UnitExponent x (d.exponent - 1) ∧ Rounds (x / 2 ^ (d.exponent - 1)) 9007199254740992 := by
  obtain ⟨hmantissa, hexponent⟩ := d.quartersBelow_eq_one_iff.mp hquarters
  have hleast := d.le_exponent
  have hunit : (0 : ℚ) < 2 ^ d.exponent := by positivity
  have hupper : x < 2 ^ 52 * 2 ^ d.exponent := hx.trans_eq (two_zpow_add d.exponent 52)
  have hlower := h.lower
  rw [hmantissa, hquarters] at hlower
  norm_num at hlower hupper
  constructor
  · refine ⟨by omega, ?_, Or.inr ?_⟩
    · rw [show d.exponent - 1 + 53 = d.exponent + 52 by omega]
      exact hx
    · rw [show d.exponent - 1 + 52 = d.exponent + (51 : Nat) by omega, two_zpow_add]
      norm_num
      linarith
  · have hhalf : (2 : ℚ) ^ (d.exponent - 1) = 2 ^ d.exponent / 2 := zpow_sub_one₀ two_ne_zero _
    have hdouble : 2 * (x / 2 ^ (d.exponent - 1)) = 4 * x / 2 ^ d.exponent := by
      rw [hhalf]
      field_simp
      ring
    have hle : 2 * (9007199254740992 : ℚ) - 1 ≤ 4 * x / 2 ^ d.exponent := by
      rw [le_div_iff₀ hunit]
      linarith
    have hlt : 4 * x / 2 ^ d.exponent < 2 * 9007199254740992 := by
      rw [div_lt_iff₀ hunit]
      linarith
    refine ⟨?_, ?_, ?_⟩
    · rw [hdouble]
      exact_mod_cast hle
    · rw [hdouble]
      push_cast
      linarith
    · intro hodd
      omega

/-- A ratio in the interval of a finite double is rounded to the double. -/
theorem Near.ofRatio_eq {num den : Nat} (h : Near d ((num : ℚ) / den))
    (hfinite : d.isFinite = true) (hnum : 0 < num) (hden : 0 < den) :
    ofRatio d.isNegative num den = d := by
  have hpacked := packed_lt hfinite
  have hd := d.eq_ofMagnitude
  by_cases hcase : d.exponent = -1074 ∨ (2 : ℚ) ^ (d.exponent + 52) ≤ num / den
  · rw [Double.ofRatio_eq hnum hden ⟨d.le_exponent, h.lt, hcase⟩ h.rounds hpacked]
    exact hd.symm
  · -- The number lies below the least one with the unit of the double.
    rw [not_or, not_le] at hcase
    obtain ⟨hexponent, hx⟩ := hcase
    have hquarters := h.quartersBelow_eq hexponent hx
    obtain ⟨hunit, hrounds⟩ := h.rounds_half hquarters hx
    have hcarry : packed 9007199254740992 (d.exponent - 1) = packed d.mantissa d.exponent := by
      have hleast := d.le_exponent
      rw [(d.quartersBelow_eq_one_iff.mp hquarters).1]
      simp only [packed, two_pow_fraction]
      rw [if_neg (by omega), if_neg (by omega)]
      omega
    rw [Double.ofRatio_eq hnum hden hunit hrounds (by rw [hcarry]; exact hpacked), hcarry]
    exact hd.symm

/-! ## Rounding decimals -/

theorem Near.le (h : Near d x) (hmantissa : d.mantissa ≠ 0) : (2 : ℚ) ^ (-1075 : Int) ≤ x := by
  have hpow : (2 : ℚ) ^ (-1074 : Int) ≤ 2 ^ d.exponent :=
    zpow_le_zpow_right₀ one_le_two d.le_exponent
  have hhalf : (2 : ℚ) ^ (-1075 : Int) = 2 ^ (-1074 : Int) / 2 := by
    rw [show (-1075 : Int) = -1074 - 1 by omega, zpow_sub_one₀ two_ne_zero]
    rfl
  have hquarters : (d.quartersBelow : ℚ) ≤ 2 := by exact_mod_cast d.quartersBelow_le
  have hone : (1 : ℚ) ≤ d.mantissa := by exact_mod_cast Nat.pos_of_ne_zero hmantissa
  have hlower := h.lower
  have hunit : (0 : ℚ) < 2 ^ d.exponent := by positivity
  rw [hhalf]
  nlinarith

theorem Near.lt_two_pow (h : Near d x) (hfinite : d.isFinite = true) :
    x < (2 : ℚ) ^ (1024 : Int) := by
  have hexponent := exponent_le hfinite
  exact h.lt.trans_le (zpow_le_zpow_right₀ one_le_two (by omega))

/-- Three bits are less than a decimal digit. -/
theorem two_pow_le_ten_pow {a b : Nat} (h : a ≤ 3 * b) : (2 : ℚ) ^ a ≤ 10 ^ b := by
  calc (2 : ℚ) ^ a ≤ 2 ^ (3 * b) := pow_le_pow_right₀ one_le_two h
    _ = 8 ^ b := by rw [pow_mul]; norm_num
    _ ≤ 10 ^ b := pow_le_pow_left₀ (by norm_num) (by norm_num) b

theorem lt_ten_pow (n : Nat) : (n : ℚ) < 10 ^ (n.log2 / 3 + 1) := by
  have hlog : (n : ℚ) < 2 ^ (n.log2 + 1) := by exact_mod_cast Nat.lt_log2_self
  exact hlog.trans_le (two_pow_le_ten_pow (by omega))

/-! The exponents that are settled without a ratio are out of the range of doubles. -/

theorem Near.digits_pos {digits : Nat} {exp : Int} (h : Near d (digits * 10 ^ exp))
    (hmantissa : d.mantissa ≠ 0) : 0 < digits := by
  refine Nat.pos_of_ne_zero fun hzero => ?_
  have hlower := h.le hmantissa
  rw [hzero, Nat.cast_zero, zero_mul] at hlower
  exact absurd hlower (not_le.mpr (by positivity))

theorem Near.exp_le {digits : Nat} {exp : Int} (h : Near d (digits * 10 ^ exp))
    (hfinite : d.isFinite = true) (hdigits : 0 < digits) : exp ≤ 400 := by
  by_contra! hlt
  have hone : (1 : ℚ) ≤ digits := by exact_mod_cast hdigits
  have hrange : (2 : ℚ) ^ (1024 : Int) ≤ 10 ^ (401 : Int) := by
    rw [zpow_ofNat, zpow_ofNat]
    exact two_pow_le_ten_pow (by omega)
  have hlarge : (2 : ℚ) ^ (1024 : Int) ≤ digits * 10 ^ exp :=
    calc (2 : ℚ) ^ (1024 : Int) ≤ 10 ^ (401 : Int) := hrange
      _ ≤ 10 ^ exp := zpow_le_zpow_right₀ (by norm_num) (by omega)
      _ ≤ digits * 10 ^ exp := le_mul_of_one_le_left (by positivity) hone
  exact absurd (h.lt_two_pow hfinite) (not_lt.mpr hlarge)

theorem Near.le_exp {digits : Nat} {exp : Int} (h : Near d (digits * 10 ^ exp))
    (hmantissa : d.mantissa ≠ 0) : -400 ≤ exp + (digits.log2 / 3 : Nat) + 1 := by
  by_contra! hlt
  have hrange : (10 : ℚ) ^ (-401 : Int) ≤ 2 ^ (-1075 : Int) := by
    rw [zpow_neg, zpow_neg, zpow_ofNat, zpow_ofNat]
    exact inv_anti₀ (by positivity) (two_pow_le_ten_pow (by omega))
  have hsmall : (digits : ℚ) * 10 ^ exp < 2 ^ (-1075 : Int) :=
    calc (digits : ℚ) * 10 ^ exp < 10 ^ (digits.log2 / 3 + 1) * 10 ^ exp :=
          mul_lt_mul_of_pos_right (lt_ten_pow digits) (by positivity)
      _ = 10 ^ (((digits.log2 / 3 + 1 : Nat) : Int) + exp) := by
          rw [zpow_add₀ (by norm_num), zpow_natCast]
      _ ≤ 10 ^ (-401 : Int) := zpow_le_zpow_right₀ (by norm_num) (by omega)
      _ ≤ 2 ^ (-1075 : Int) := hrange
  exact absurd (h.le hmantissa) (not_le.mpr hsmall)

/-- A decimal in the interval of a finite double is rounded to the double. -/
theorem Near.ofDecimal_eq {digits : Nat} {exp : Int} (h : Near d (digits * 10 ^ exp))
    (hfinite : d.isFinite = true) (hmantissa : d.mantissa ≠ 0) :
    ofDecimal d.isNegative digits exp = d := by
  have hdigits := h.digits_pos hmantissa
  have hlarge := not_lt.mpr (h.exp_le hfinite hdigits)
  have hsmall := not_lt.mpr (h.le_exp hmantissa)
  have hratio := ten_zpow_eq exp
  simp only [ofDecimal, beq_iff_eq, hdigits.ne', hlarge, hsmall, if_false]
  by_cases hexp : 0 ≤ exp
  · have hzero : (-exp).toNat = 0 := by omega
    have heq : (digits : ℚ) * 10 ^ exp =
        ((digits * Nat.pow 10 exp.toNat : Nat) : ℚ) / (1 : Nat) := by
      rw [hratio, hzero]
      simp
    rw [heq] at h
    rw [if_pos hexp]
    exact h.ofRatio_eq hfinite (Nat.mul_pos hdigits (Nat.pow_pos (by omega))) Nat.one_pos
  · have hzero : exp.toNat = 0 := by omega
    have heq : (digits : ℚ) * 10 ^ exp = (digits : ℚ) / (Nat.pow 10 (-exp).toNat : Nat) := by
      rw [hratio, hzero]
      simp [div_eq_mul_inv]
    rw [heq] at h
    rw [if_neg hexp]
    exact h.ofRatio_eq hfinite hdigits (Nat.pow_pos (by omega))

end ChainFold.Double
