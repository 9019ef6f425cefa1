import ChainFold.Double.Decimal
import ChainFold.Proofs.Double.Rounding
import ChainFold.Text.Characters

/-!
# The shortest digits lie in the interval

The search for digits goes from coarse grids of decimals to finer ones and takes the
first grid with a point in the interval of the double.  Seventeen digits are enough,
since the grid they make is finer than the interval is wide; so the search ends with
digits that round to the double.
-/

/-!
## Decimal digits of a number

The digits of a number are decimal digits, the first of them is a zero for zero only, and
they are read as the number.
-/

namespace ChainFold.Text

theorem decimal_eq (n : Nat) : decimal n = Nat.toDigits 10 n := Nat.toList_repr

theorem isDigit_of_mem_decimal {n : Nat} {c : Char} (h : c ∈ decimal n) : c.isDigit = true := by
  rw [decimal_eq] at h
  exact Nat.isDigit_of_mem_toDigits (by omega) (by omega) h

theorem ofDigitChars_decimal (n : Nat) : Nat.ofDigitChars 10 (decimal n) 0 = n := by
  rw [decimal_eq, Nat.ofDigitChars_ten_toDigits]

theorem length_decimal_le_iff {n k : Nat} (hk : 0 < k) :
    (decimal n).length ≤ k ↔ n < Nat.pow 10 k := by
  rw [decimal_eq]
  exact Nat.length_toDigits_le_iff (by omega) hk

theorem decimal_starts {n : Nat} (hn : 0 < n) : ∃ c rest, decimal n = c :: rest ∧ c ≠ '0' := by
  rw [decimal_eq]
  induction n using Nat.strongRecOn with
  | ind n ih =>
      by_cases hsmall : n < 10
      · refine ⟨n.digitChar, [], Nat.toDigits_of_lt_base hsmall, ?_⟩
        rw [Ne, Nat.digitChar_eq_zero]
        omega
      · obtain ⟨c, rest, hcons, hc⟩ := ih (n / 10) (by omega) (by omega)
        refine ⟨c, rest ++ [(n % 10).digitChar], ?_, hc⟩
        rw [Nat.toDigits_of_base_le (by omega) (by omega), hcons, List.cons_append]

end ChainFold.Text

/-! ## The shortest digits lie in the interval -/

namespace ChainFold.Double

variable {d : Double} {step : Int}

/-! ## Points of a grid -/

theorem interval_denominator_pos (d : Double) : 0 < (interval d).denominator :=
  Nat.pow_pos two_pos

/-- A quarter of the unit, over the denominator of the interval. -/
theorem quarter_eq (d : Double) :
    ((Nat.pow 2 (d.exponent - 2).toNat : Nat) : ℚ) / (interval d).denominator =
      2 ^ d.exponent / 4 := by
  have hratio := two_zpow_eq (d.exponent - 2)
  have hfour : (2 : ℚ) ^ (2 : Int) = 4 := by norm_num
  rw [zpow_sub₀ two_ne_zero, hfour] at hratio
  exact hratio.symm

theorem interval_value (d : Double) :
    ((interval d).value : ℚ) / (interval d).denominator = d.mantissa * 2 ^ d.exponent := by
  have hvalue : (interval d).value = 4 * d.mantissa * Nat.pow 2 (d.exponent - 2).toNat := rfl
  rw [hvalue, Nat.cast_mul, mul_div_assoc, quarter_eq]
  push_cast
  ring

theorem interval_lower {d : Double} (h : d.mantissa ≠ 0) :
    ((interval d).lower : ℚ) / (interval d).denominator =
      (4 * (d.mantissa : ℚ) - d.quartersBelow) * 2 ^ d.exponent / 4 := by
  have hlower : (interval d).lower =
      (4 * d.mantissa - d.quartersBelow) * Nat.pow 2 (d.exponent - 2).toNat := rfl
  have hle := d.quartersBelow_le
  rw [hlower, Nat.cast_mul, mul_div_assoc, quarter_eq, Nat.cast_sub (by omega)]
  push_cast
  ring

theorem interval_upper (d : Double) :
    ((interval d).upper : ℚ) / (interval d).denominator =
      (4 * (d.mantissa : ℚ) + 2) * 2 ^ d.exponent / 4 := by
  have hupper : (interval d).upper =
      (4 * d.mantissa + 2) * Nat.pow 2 (d.exponent - 2).toNat := rfl
  rw [hupper, Nat.cast_mul, mul_div_assoc, quarter_eq]
  push_cast
  ring

theorem Interval.contains_iff {i : Interval} {num den : Nat} (hdenominator : 0 < i.denominator)
    (hden : 0 < den) : i.contains num den = true ↔
      if i.closed = true then
        (i.lower : ℚ) / i.denominator ≤ num / den ∧ (num : ℚ) / den ≤ i.upper / i.denominator
      else
        (i.lower : ℚ) / i.denominator < num / den ∧ (num : ℚ) / den < i.upper / i.denominator := by
  have hdenominator' : (0 : ℚ) < i.denominator := by exact_mod_cast hdenominator
  have hden' : (0 : ℚ) < den := by exact_mod_cast hden
  simp only [div_le_div_iff₀ hdenominator' hden', div_le_div_iff₀ hden' hdenominator',
    div_lt_div_iff₀ hdenominator' hden', div_lt_div_iff₀ hden' hdenominator', contains]
  norm_cast
  cases i.closed <;> simp

/-- The ratios in the interval of a double are the numbers in it. -/
theorem contains_iff {num den : Nat} (hmantissa : d.mantissa ≠ 0) (hden : 0 < den) :
    (interval d).contains num den = true ↔ Near d ((num : ℚ) / den) := by
  have hclosed : (interval d).closed = (d.mantissa % 2 == 0) := rfl
  rw [Interval.contains_iff (interval_denominator_pos d) hden, interval_lower hmantissa,
    interval_upper, hclosed]
  generalize (num : ℚ) / den = x
  by_cases heven : d.mantissa % 2 = 0
  · rw [if_pos (by simp [heven])]
    constructor
    · rintro ⟨hlower, hupper⟩
      exact ⟨by linarith, by linarith, fun hodd => by omega⟩
    · intro h
      have hlower := h.lower
      have hupper := h.upper
      constructor <;> linarith
  · rw [if_neg (by simp [heven])]
    constructor
    · rintro ⟨hlower, hupper⟩
      refine ⟨by linarith, by linarith, fun _ => ?_⟩
      constructor <;> linarith
    · intro h
      obtain ⟨hlower, hupper⟩ := h.strict (by omega)
      constructor <;> linarith

/-- The points of a grid that are tried are those in the interval. -/
theorem contains_grid_iff {n : Nat} (hmantissa : d.mantissa ≠ 0) :
    (interval d).contains (n * Nat.pow 10 step.toNat) (Nat.pow 10 (-step).toNat) = true ↔
      Near d (n * 10 ^ step) := by
  have hdown : 0 < Nat.pow 10 (-step).toNat := Nat.pow_pos (by omega)
  rw [contains_iff hmantissa hdown, ten_zpow_eq, Nat.cast_mul, mul_div_assoc]

theorem near_of_onGrid? {n : Nat} (hmantissa : d.mantissa ≠ 0)
    (h : onGrid? (interval d) step = some n) : Near d (n * 10 ^ step) := by
  rw [← contains_grid_iff hmantissa]
  unfold onGrid? at h
  simp only at h
  generalize (interval d).value * Nat.pow 10 (-step).toNat / _ = c at h
  split at h
  case h_1 hlow hhigh =>
    split_ifs at h
    · rw [← Option.some.inj h]
      exact hlow
    · rw [← Option.some.inj h]
      exact hhigh
    · obtain hc | hc : c % 2 = 0 ∨ c % 2 = 1 := by omega
      · rw [← Option.some.inj h, hc]
        exact hlow
      · rw [← Option.some.inj h, hc]
        exact hhigh
  case h_2 hlow _ =>
    rw [← Option.some.inj h]
    exact hlow
  case h_3 _ hhigh =>
    rw [← Option.some.inj h]
    exact hhigh
  case h_4 => exact absurd h (by simp)

/-- A grid has a hit if a point next to the double lies in the interval. -/
theorem onGrid?_ne_none {c : Nat} (hmantissa : d.mantissa ≠ 0)
    (hc : (interval d).value * Nat.pow 10 (-step).toNat /
      ((interval d).denominator * Nat.pow 10 step.toNat) = c)
    (h : Near d (c * 10 ^ step) ∨ Near d ((c + 1 : Nat) * 10 ^ step)) :
    onGrid? (interval d) step ≠ none := by
  rw [← contains_grid_iff hmantissa, ← contains_grid_iff hmantissa] at h
  unfold onGrid?
  simp only [hc]
  split
  case h_1 => split_ifs <;> simp
  case h_2 => simp
  case h_3 => simp
  case h_4 hlow hhigh =>
    rw [hlow, hhigh] at h
    exact absurd h (by simp)

/-- The points of a grid next to the double are at most its width apart. -/
theorem floor_bounds (d : Double) (step : Int) : ∃ c : Nat,
    (interval d).value * Nat.pow 10 (-step).toNat /
      ((interval d).denominator * Nat.pow 10 step.toNat) = c ∧
    c * (10 : ℚ) ^ step ≤ d.mantissa * 2 ^ d.exponent ∧
    d.mantissa * 2 ^ d.exponent < (c + 1) * (10 : ℚ) ^ step := by
  have hup : 0 < Nat.pow 10 step.toNat := Nat.pow_pos (by omega)
  have hdown : 0 < Nat.pow 10 (-step).toNat := Nat.pow_pos (by omega)
  have hdenominator := interval_denominator_pos d
  rw [← interval_value, ten_zpow_eq]
  generalize (interval d).value = value at *
  generalize (interval d).denominator = denominator at *
  generalize Nat.pow 10 step.toNat = up at *
  generalize Nat.pow 10 (-step).toNat = down at *
  have hdenominator' : (0 : ℚ) < denominator := by exact_mod_cast hdenominator
  have hdown' : (0 : ℚ) < down := by exact_mod_cast hdown
  have hpos : 0 < denominator * up := Nat.mul_pos hdenominator hup
  have hlower := Nat.div_mul_le_self (value * down) (denominator * up)
  have hupper := Nat.lt_div_mul_add (a := value * down) hpos
  generalize value * down / (denominator * up) = c at *
  refine ⟨c, rfl, ?_, ?_⟩
  · rw [← mul_div_assoc, div_le_div_iff₀ hdown' hdenominator']
    have : c * up * denominator ≤ value * down := by linarith
    exact_mod_cast this
  · rw [← mul_div_assoc, div_lt_div_iff₀ hdenominator' hdown']
    have : value * down < (c + 1) * up * denominator := by linarith
    exact_mod_cast this

/-- A grid of which 17 digits are in front of the point has a hit. -/
theorem onGrid?_ne_none_of_fine (hmantissa : d.mantissa ≠ 0)
    (hfine : (10 : ℚ) ^ step * 10 ^ 16 ≤ d.mantissa * 2 ^ d.exponent) :
    onGrid? (interval d) step ≠ none := by
  obtain ⟨c, hc, hlower, hupper⟩ := floor_bounds d step
  refine onGrid?_ne_none hmantissa hc ?_
  have hunit : (0 : ℚ) < 2 ^ d.exponent := by positivity
  -- The interval is wider than the points are apart.
  have hwidth : 4 * (10 : ℚ) ^ step < (2 + d.quartersBelow) * 2 ^ d.exponent := by
    rcases Nat.lt_or_ge d.quartersBelow 2 with hlt | hge
    · have hpos := d.quartersBelow_pos
      have hone : d.quartersBelow = 1 := by omega
      have hleast := (d.quartersBelow_eq_one_iff.mp hone).1
      rw [hleast] at hfine
      rw [hone]
      norm_num at hfine ⊢
      linarith
    · have hmore : (2 : ℚ) ≤ d.quartersBelow := by exact_mod_cast hge
      have hless : (d.mantissa : ℚ) + 1 ≤ 9007199254740992 := by exact_mod_cast d.mantissa_lt
      norm_num at hfine
      nlinarith
  have hquarters : (0 : ℚ) < d.quartersBelow := by exact_mod_cast d.quartersBelow_pos
  have hbelow : 0 < (d.quartersBelow : ℚ) * 2 ^ d.exponent := by positivity
  by_cases hnext : 4 * (((c + 1 : Nat) : ℚ) * 10 ^ step) < (4 * d.mantissa + 2) * 2 ^ d.exponent
  · refine Or.inr ⟨?_, hnext.le, fun _ => ⟨?_, hnext⟩⟩
    · push_cast
      linarith
    · push_cast
      linarith
  · push_cast at hnext
    refine Or.inl ⟨by linarith, by linarith, fun _ => ⟨by linarith, by linarith⟩⟩

/-! ## The highest digit -/

theorem raisePower_le {num den : Nat} (hden : 0 < den) (fuel : Nat) :
    ∀ p : Int, (10 : ℚ) ^ p ≤ num / den → (10 : ℚ) ^ raisePower num den fuel p ≤ num / den := by
  induction fuel with
  | zero => exact fun p hp => hp
  | succ fuel ih =>
      intro p hp
      rw [raisePower]
      split
      · rename_i hnext
        refine ih (p + 1) ?_
        have hden' : (0 : ℚ) < den := by exact_mod_cast hden
        have hdown : (0 : ℚ) < (Nat.pow 10 (-(p + 1)).toNat : Nat) := by
          exact_mod_cast Nat.pow_pos (by omega)
        rw [ten_zpow_eq, div_le_div_iff₀ hdown hden', mul_comm]
        exact_mod_cast hnext
      · exact hp

/-- The power of ten that is guessed for a power of two is not too large. -/
theorem ten_zpow_le_two_zpow {g l : Int} (hlow : -1200 ≤ l) (hhigh : l ≤ 1200)
    (hguess : g * 100000 ≤ l * 30103) : (10 : ℚ) ^ g ≤ 2 ^ (l + 1) := by
  obtain ⟨n, rfl | rfl⟩ := g.eq_nat_or_neg
  · -- `10 ^ 59` is a little less than `2 ^ 196`.
    have hnum : (10 : ℚ) ^ 59 ≤ 2 ^ 196 := by norm_num
    have hpow : ((10 : ℚ) ^ n) ^ 59 ≤ (2 ^ (l + 1)) ^ 59 := by
      calc ((10 : ℚ) ^ n) ^ 59 = (10 ^ 59) ^ n := by rw [← pow_mul, ← pow_mul, mul_comm]
        _ ≤ (2 ^ 196) ^ n := pow_le_pow_left₀ (by positivity) hnum n
        _ = 2 ^ ((196 * n : Nat) : Int) := by rw [← pow_mul, zpow_natCast]
        _ ≤ 2 ^ ((l + 1) * (59 : Nat)) := zpow_le_zpow_right₀ one_le_two (by omega)
        _ = (2 ^ (l + 1)) ^ 59 := by rw [zpow_mul, zpow_natCast]
    rw [zpow_natCast]
    exact le_of_pow_le_pow_left₀ (by omega) (by positivity) hpow
  · -- `2 ^ 93` is a little less than `10 ^ 28`.
    have hnum : (2 : ℚ) ^ 93 ≤ 10 ^ 28 := by norm_num
    have hpow : (2 ^ (-(l + 1))) ^ 28 ≤ ((10 : ℚ) ^ n) ^ 28 := by
      calc ((2 : ℚ) ^ (-(l + 1))) ^ 28 = 2 ^ (-(l + 1) * (28 : Nat)) := by
            rw [zpow_mul, zpow_natCast]
        _ ≤ 2 ^ ((93 * n : Nat) : Int) := zpow_le_zpow_right₀ one_le_two (by omega)
        _ = (2 ^ 93) ^ n := by rw [← pow_mul, zpow_natCast]
        _ ≤ (10 ^ 28) ^ n := pow_le_pow_left₀ (by positivity) hnum n
        _ = (10 ^ n) ^ 28 := by rw [← pow_mul, ← pow_mul, mul_comm]
    have hle := le_of_pow_le_pow_left₀ (by omega) (by positivity) hpow
    rw [zpow_neg, zpow_natCast, ← inv_inv ((2 : ℚ) ^ (l + 1)), ← zpow_neg]
    exact inv_anti₀ (by positivity) hle

/-- The power of the highest digit of a ratio in the range of doubles is at most the ratio. -/
theorem leadingPower_le {num den : Nat} (hnum : 0 < num) (hden : 0 < den)
    (hlow : (2 : ℚ) ^ (-1075 : Int) ≤ num / den) (hhigh : (num : ℚ) / den < 2 ^ (1024 : Int)) :
    (10 : ℚ) ^ leadingPower num den ≤ num / den := by
  obtain ⟨hlower, hupper⟩ := ratio_bounds hnum hden
  have hl := (zpow_lt_zpow_iff_right₀ one_lt_two).mp (hlower.trans hhigh)
  have hl' := (zpow_lt_zpow_iff_right₀ one_lt_two).mp (hlow.trans_lt hupper)
  unfold leadingPower
  refine raisePower_le hden 4 _ ?_
  generalize (num.log2 : Int) - den.log2 = l at *
  rw [Int.fdiv_eq_ediv_of_nonneg _ (by omega)]
  have hguess : l * 30103 / 100000 * 100000 ≤ l * 30103 := Int.ediv_mul_le _ (by omega)
  have hpow := ten_zpow_le_two_zpow (by omega) (by omega) hguess
  have hfour : (2 : ℚ) ^ (l + 1) = 4 * 2 ^ (l - 1) := by
    rw [show l + 1 = l - 1 + 2 by omega, zpow_add₀ two_ne_zero, mul_comm]
    norm_num
  have hpos : (0 : ℚ) < 2 ^ (l - 1) := by positivity
  rw [zpow_sub₀ (by norm_num)]
  norm_num
  rw [div_le_iff₀ (by norm_num)]
  nlinarith

/-! ## The search -/

/-- The search ends with the first grid that has a hit. -/
theorem firstHit_eq {i : Interval} {power : Int} (fuel : Nat) :
    ∀ count k, k < fuel → onGrid? i (power - (count + k : Nat) + 1) ≠ none →
      ∃ n step, onGrid? i step = some n ∧
        firstHit i power fuel count = ⟨significant n, step + (Text.decimal n).length - 1⟩ := by
  induction fuel with
  | zero => exact fun _ _ hk _ => absurd hk (Nat.not_lt_zero _)
  | succ fuel ih =>
      intro count k hk hhit
      rw [firstHit]
      cases hgrid : onGrid? i (power - count + 1) with
      | some n => exact ⟨n, _, hgrid, rfl⟩
      | none =>
          cases k with
          | zero => exact absurd hgrid hhit
          | succ k =>
              refine ih (count + 1) k (by omega) ?_
              rw [show count + 1 + k = count + (k + 1) by omega]
              exact hhit

theorem exists_shortest (hfinite : d.isFinite = true) (hmantissa : d.mantissa ≠ 0) :
    ∃ (n : Nat) (step : Int), Near d (n * 10 ^ step) ∧
      shortest d = ⟨significant n, step + (Text.decimal n).length - 1⟩ := by
  have hvalue := interval_value d
  have hdenominator := interval_denominator_pos d
  have hpos : 0 < (interval d).value :=
    Nat.mul_pos (Nat.mul_pos (by omega) (Nat.pos_of_ne_zero hmantissa)) (Nat.pow_pos two_pos)
  -- The double itself is in its interval, so its size is known.
  have hself : Near d (d.mantissa * 2 ^ d.exponent) := by
    have hunit : (0 : ℚ) < 2 ^ d.exponent := by positivity
    have hquarters : (0 : ℚ) < d.quartersBelow := by exact_mod_cast d.quartersBelow_pos
    have hbelow : 0 < (d.quartersBelow : ℚ) * 2 ^ d.exponent := by positivity
    refine ⟨by linarith, by linarith, fun _ => ⟨by linarith, by linarith⟩⟩
  have hlow := hself.le hmantissa
  have hhigh := hself.lt_two_pow hfinite
  rw [← hvalue] at hlow hhigh
  have hpower := leadingPower_le hpos hdenominator hlow hhigh
  rw [hvalue] at hpower
  have hfine : onGrid? (interval d)
      (leadingPower (interval d).value (interval d).denominator - (1 + 16 : Nat) + 1) ≠ none := by
    refine onGrid?_ne_none_of_fine hmantissa (le_trans (le_of_eq ?_) hpower)
    rw [← zpow_natCast, ← zpow_add₀ (by norm_num)]
    congr 1
    omega
  obtain ⟨n, step, hgrid, heq⟩ := firstHit_eq 17 1 16 (by omega) hfine
  refine ⟨n, step, near_of_onGrid? hmantissa hgrid, ?_⟩
  rw [shortest, if_neg (by simpa using hmantissa)]
  exact heq

/-! ## Significant digits -/

/-- The number that digits with an exponent stand for. -/
def Digits.value (x : Digits) : ℚ :=
  (Nat.ofDigitChars 10 x.digits 0 : ℚ) * 10 ^ (x.exponent + 1 - x.digits.length)

/-- Decimal digits of which the first is not zero. -/
structure Digits.Proper (x : Digits) : Prop where
  isDigit : ∀ c ∈ x.digits, c.isDigit = true
  starts : ∃ c rest, x.digits = c :: rest ∧ c ≠ '0'

/-- Behind its significant digits a number has zeros only. -/
theorem exists_decimal_eq (n : Nat) :
    ∃ k, Text.decimal n = significant n ++ List.replicate k '0' := by
  refine ⟨((Text.decimal n).reverse.takeWhile (· == '0')).length, ?_⟩
  have hzeros : (Text.decimal n).reverse.takeWhile (· == '0') =
      List.replicate ((Text.decimal n).reverse.takeWhile (· == '0')).length '0' := by
    refine List.eq_replicate_of_mem fun c hc => ?_
    exact eq_of_beq (List.all_eq_true.mp List.all_takeWhile c hc)
  have hsplit := List.takeWhile_append_dropWhile (p := (· == '0')) (l := (Text.decimal n).reverse)
  have hreverse := congrArg List.reverse hsplit
  rw [List.reverse_append, List.reverse_reverse, hzeros, List.reverse_replicate] at hreverse
  exact hreverse.symm

theorem significant_spec {n : Nat} (hn : 0 < n) (step : Int) :
    (⟨significant n, step + (Text.decimal n).length - 1⟩ : Digits).Proper ∧
      (⟨significant n, step + (Text.decimal n).length - 1⟩ : Digits).value = n * 10 ^ step := by
  obtain ⟨k, hk⟩ := exists_decimal_eq n
  have hdigit : ∀ c ∈ significant n, c.isDigit = true := by
    intro c hc
    exact Text.isDigit_of_mem_decimal (by rw [hk]; exact List.mem_append_left _ hc)
  constructor
  · refine ⟨hdigit, ?_⟩
    obtain ⟨c, rest, hcons, hc⟩ := Text.decimal_starts hn
    cases hsignificant : significant n with
    | nil =>
        rw [hsignificant, List.nil_append, hcons] at hk
        have hmem : c ∈ List.replicate k '0' := by rw [← hk]; exact List.mem_cons_self
        exact absurd (List.eq_of_mem_replicate hmem) hc
    | cons c' rest' =>
        rw [hsignificant, hcons, List.cons_append, List.cons.injEq] at hk
        exact ⟨c', rest', rfl, hk.1 ▸ hc⟩
  · have hvalue : n = 10 ^ k * Nat.ofDigitChars 10 (significant n) 0 := by
      have hread := Text.ofDigitChars_decimal n
      rw [hk, Nat.ofDigitChars_append, Nat.ofDigitChars_replicate_zero] at hread
      exact hread.symm
    have hlength : (Text.decimal n).length = (significant n).length + k := by
      rw [hk, List.length_append, List.length_replicate]
    have hexp : step + (Text.decimal n).length - 1 + 1 - (significant n).length = k + step := by
      rw [hlength]
      omega
    rw [Digits.value, hexp, zpow_add₀ (by norm_num), zpow_natCast]
    have hcast : (n : ℚ) = 10 ^ k * (Nat.ofDigitChars 10 (significant n) 0 : ℚ) := by
      exact_mod_cast hvalue
    rw [hcast]
    ring

/-- The shortest digits of a finite double that is not zero stand for a number in its interval. -/
theorem shortest_spec (hfinite : d.isFinite = true) (hmantissa : d.mantissa ≠ 0) :
    (shortest d).Proper ∧ Near d (shortest d).value := by
  obtain ⟨n, step, hnear, heq⟩ := exists_shortest hfinite hmantissa
  have hn : 0 < n := by
    refine Nat.pos_of_ne_zero fun hzero => ?_
    have hle := hnear.le hmantissa
    rw [hzero, Nat.cast_zero, zero_mul] at hle
    exact absurd hle (not_le.mpr (by positivity))
  obtain ⟨hproper, hvalue⟩ := significant_spec hn step
  rw [heq, hvalue]
  exact ⟨hproper, hnear⟩

end ChainFold.Double
