import ChainFold.Proofs.Double.Shortest
import ChainFold.Proofs.Json.Writing

/-!
# Numbers are read back

An integer is written in decimal digits, and a double with a point or an exponent, so the
reader tells the two apart.  The digits of a double are read as the decimal that they
stand for, however they are laid out; and that decimal rounds to the double.
-/

namespace ChainFold.Json

open Double (Digits)

/-! ## Runs of digits -/

theorem ofDigits_eq (ds : List Char) : ofDigits ds = Nat.ofDigitChars 10 ds 0 := by
  rw [ofDigits, Text.ofDigits, List.foldl_map, Nat.ofDigitChars_eq_foldl]
  congr 1
  funext n c
  rw [digitValue, Nat.mul_comm]

theorem ofDigits_zeros_append (k : Nat) (ds : List Char) :
    ofDigits (List.replicate k '0' ++ ds) = ofDigits ds := by
  simp only [ofDigits_eq, Nat.ofDigitChars_append, Nat.ofDigitChars_replicate_zero, Nat.mul_zero]

theorem ofDigits_append_zeros (k : Nat) (ds : List Char) :
    ofDigits (ds ++ List.replicate k '0') = 10 ^ k * ofDigits ds := by
  simp only [ofDigits_eq, Nat.ofDigitChars_append, Nat.ofDigitChars_replicate_zero]

/-- A text does not go on with a digit. -/
def EndsRun (cs : List Char) : Prop := ∀ c ∈ cs.head?, c.isDigit = false

theorem endsRun_cons {c : Char} (h : c.isDigit = false) (cs : List Char) : EndsRun (c :: cs) := by
  intro c' hc'
  rw [List.head?_cons, Option.mem_some_iff] at hc'
  rw [← hc']
  exact h

theorem Closes.endsRun {cs : List Char} (h : Closes cs) : EndsRun cs := by
  cases cs with
  | nil => exact fun c hc => absurd hc (by simp)
  | cons c cs => rcases h with rfl | rfl | rfl <;> exact endsRun_cons rfl cs

theorem span_digits {ds rest : List Char} (hds : ∀ c ∈ ds, c.isDigit = true)
    (hrest : EndsRun rest) : (ds ++ rest).takeWhile Char.isDigit = ds ∧
      (ds ++ rest).dropWhile Char.isDigit = rest := by
  rw [List.takeWhile_append_of_pos hds, List.dropWhile_append_of_pos hds]
  cases rest with
  | nil => simp
  | cons c rest =>
      have hc : c.isDigit = false := hrest c rfl
      simp [hc]

/-! ## The parts of a numeral -/

/-- Digits that may stand in front of a point: a zero, or digits that start with none. -/
def IsWhole (ds : List Char) : Prop :=
  ds = ['0'] ∨ (∃ c rest, ds = c :: rest ∧ c ≠ '0') ∧ ∀ c ∈ ds, c.isDigit = true

theorem IsWhole.ne_nil {ds : List Char} (h : IsWhole ds) : ds ≠ [] := by
  rcases h with rfl | ⟨⟨c, rest, rfl, -⟩, -⟩ <;> exact List.cons_ne_nil _ _

theorem isWhole_decimal (n : Nat) : IsWhole (Text.decimal n) := by
  by_cases hn : n = 0
  · exact Or.inl (by rw [hn, Text.decimal_eq, Nat.toDigits_zero])
  · exact Or.inr ⟨Text.decimal_starts (Nat.pos_of_ne_zero hn),
      fun c hc => Text.isDigit_of_mem_decimal hc⟩

theorem splitWhole_append {ds rest : List Char} (hds : IsWhole ds) (hrest : EndsRun rest) :
    splitWhole (ds ++ rest) = (ds, rest) := by
  rcases hds with rfl | ⟨⟨c, more, hcons, hc⟩, hdigits⟩
  · rfl
  · obtain ⟨htake, hdrop⟩ := span_digits hdigits hrest
    rw [hcons, List.cons_append] at htake hdrop ⊢
    rw [splitWhole.eq_2 _ (by simp [hc]), htake, hdrop]

/-- The text of a fraction, with its point unless there is none. -/
def fractionText (ds : List Char) : List Char := if ds.isEmpty then [] else '.' :: ds

theorem splitFraction_append {ds rest : List Char} (hds : ∀ c ∈ ds, c.isDigit = true)
    (hrest : EndsRun rest) (hpoint : rest.head? ≠ some '.') :
    splitFraction (fractionText ds ++ rest) = (ds, rest) := by
  cases ds with
  | nil =>
      change splitFraction rest = ([], rest)
      cases rest with
      | nil => rfl
      | cons c rest =>
          rw [splitFraction.eq_2]
          rintro more hmore
          exact hpoint (by rw [hmore, List.head?_cons])
  | cons c ds =>
      obtain ⟨htake, hdrop⟩ := span_digits hds hrest
      change splitFraction ('.' :: (c :: ds ++ rest)) = _
      rw [splitFraction, htake, hdrop]
      rfl

theorem splitExponent_append {ds rest : List Char} (negative : Bool) (hne : ds ≠ [])
    (hds : ∀ c ∈ ds, c.isDigit = true) (hrest : EndsRun rest) :
    splitExponent ('e' :: (if negative then '-' else '+') :: (ds ++ rest)) =
      (some (if negative then -(ofDigits ds : Int) else ofDigits ds), rest) := by
  obtain ⟨htake, hdrop⟩ := span_digits hds hrest
  have hempty : ds.isEmpty = false := by simp [hne]
  cases negative <;> simp [splitExponent, Text.splitSign, htake, hdrop, hempty]

theorem splitExponent_closes {rest : List Char} (h : Closes rest) :
    splitExponent rest = (none, rest) := by
  cases rest with
  | nil => rfl
  | cons c rest => rcases h with rfl | rfl | rfl <;> rfl

theorem Closes.head?_ne_point {rest : List Char} (h : Closes rest) : rest.head? ≠ some '.' := by
  cases rest with
  | nil => simp
  | cons c rest => rcases h with rfl | rfl | rfl <;> simp

theorem readUnsigned_double {cs whole fraction rest rest₁ rest₂ : List Char}
    {exp? : Option Int} (negative : Bool) (hwhole : splitWhole cs = (whole, rest₁))
    (hfraction : splitFraction rest₁ = (fraction, rest₂))
    (hexp : splitExponent rest₂ = (exp?, rest)) (hne : whole ≠ [])
    (hdouble : fraction ≠ [] ∨ exp? ≠ none) :
    readUnsigned negative cs =
      .ok (.double (.ofDecimal negative (ofDigits (whole ++ fraction))
        (exp?.getD 0 - fraction.length)), rest) := by
  have hempty : whole.isEmpty = false := by simp [hne]
  have hboth : (fraction.isEmpty && exp?.isNone) = false := by
    rcases hdouble with h | h
    · simp [h]
    · cases exp? with
      | none => exact absurd rfl h
      | some n => simp
  simp [readUnsigned, hwhole, hfraction, hexp, hempty, hboth]

theorem readUnsigned_int {negative : Bool} {cs whole rest : List Char}
    (hwhole : splitWhole cs = (whole, rest)) (hrest : Closes rest) (hne : whole ≠ [])
    (hlength : whole.length ≤ Text.maxDecimalDigits) :
    readUnsigned negative cs =
      .ok (.int (if negative then -(ofDigits whole : Int) else ofDigits whole), rest) := by
  have hempty : whole.isEmpty = false := by simp [hne]
  have hnone : ∀ c ∈ ([] : List Char), c.isDigit = true := by simp
  have hfraction : splitFraction rest = ([], rest) :=
    splitFraction_append hnone hrest.endsRun hrest.head?_ne_point
  simp [readUnsigned, hwhole, hfraction, splitExponent_closes hrest, hempty,
    Nat.not_lt.mpr hlength]

/-! ## The layouts of digits -/

variable {x : Digits} {rest : List Char}

/-- The decimal that is read from a numeral of digits is the number that they stand for. -/
def ReadsAs (negative : Bool) (cs : List Char) (x : Digits) (rest : List Char) : Prop :=
  ∃ (digits : Nat) (exp : Int),
    readUnsigned negative cs = .ok (.double (.ofDecimal negative digits exp), rest) ∧
      (digits : ℚ) * 10 ^ exp = x.value

/-- Digits stand for the decimal with the exponent of the last of them. -/
theorem decimal_eq_value {e : Int} (he : e = x.exponent + 1 - x.digits.length) :
    (ofDigits x.digits : ℚ) * 10 ^ e = x.value := by
  rw [he, ofDigits_eq, Digits.value]

/-- A numeral with a point is read as its digits, moved behind the point. -/
theorem readsAs_point {whole fraction : List Char} (hwhole : IsWhole whole)
    (hne : fraction ≠ []) (hfraction : ∀ c ∈ fraction, c.isDigit = true) (hrest : Closes rest)
    (hvalue : (ofDigits (whole ++ fraction) : ℚ) * 10 ^ (-(fraction.length : Int)) = x.value)
    (negative : Bool) : ReadsAs negative (whole ++ '.' :: fraction ++ rest) x rest := by
  have htext : fractionText fraction = '.' :: fraction := by
    rw [fractionText, if_neg (by simpa using hne)]
  have hsplit := splitFraction_append hfraction hrest.endsRun hrest.head?_ne_point
  rw [htext] at hsplit
  have hread := readUnsigned_double negative
    (splitWhole_append hwhole (endsRun_cons rfl (fraction ++ rest))) hsplit
    (splitExponent_closes hrest) hwhole.ne_nil (Or.inl hne)
  refine ⟨_, _, by rw [List.append_assoc]; exact hread, ?_⟩
  rw [Option.getD_none, zero_sub]
  exact hvalue

/-- A numeral with an exponent is read as its digits, moved by the exponent. -/
theorem readsAs_exponent {whole fraction power : List Char} (hwhole : IsWhole whole)
    (hfraction : ∀ c ∈ fraction, c.isDigit = true) (hne : power ≠ [])
    (hpower : ∀ c ∈ power, c.isDigit = true) (hrest : Closes rest) (below : Bool)
    (hvalue : (ofDigits (whole ++ fraction) : ℚ) *
      10 ^ ((if below then -(ofDigits power : Int) else ofDigits power) - fraction.length) =
        x.value) (negative : Bool) :
    ReadsAs negative
      (whole ++ fractionText fraction ++ 'e' :: (if below then '-' else '+') :: power ++ rest)
      x rest := by
  have hmark : EndsRun ('e' :: (if below then '-' else '+') :: (power ++ rest)) :=
    endsRun_cons rfl _
  have hbehind : EndsRun
      (fractionText fraction ++ 'e' :: (if below then '-' else '+') :: (power ++ rest)) := by
    cases fraction with
    | nil => exact hmark
    | cons c fraction => exact endsRun_cons rfl _
  have hread := readUnsigned_double negative (splitWhole_append hwhole hbehind)
    (splitFraction_append hfraction hmark (by simp))
    (splitExponent_append below hne hpower hrest.endsRun) hwhole.ne_nil (Or.inr (by simp))
  refine ⟨_, _, by simpa only [List.append_assoc, List.cons_append] using hread, ?_⟩
  rw [Option.getD_some]
  exact hvalue

theorem isDigit_of_mem_zeros {k : Nat} {c : Char} (h : c ∈ List.replicate k '0') :
    c.isDigit = true := by
  rw [List.eq_of_mem_replicate h]
  rfl

theorem readsAs_point_zeros (hx : x.Proper) (negative : Bool) (hrest : Closes rest)
    (hexp : x.exponent < 0) :
    ReadsAs negative
      ('0' :: '.' :: List.replicate ((-x.exponent).toNat - 1) '0' ++ x.digits ++ rest) x rest := by
  obtain ⟨c, more, hcons, -⟩ := hx.starts
  generalize hzeros : (-x.exponent).toNat - 1 = zeros
  have htext : '0' :: '.' :: List.replicate zeros '0' ++ x.digits =
      ['0'] ++ '.' :: (List.replicate zeros '0' ++ x.digits) := by simp
  rw [htext]
  refine readsAs_point (Or.inl rfl) (by simp [hcons]) ?_ hrest ?_ negative
  · intro c hmem
    exact (List.mem_append.mp hmem).elim isDigit_of_mem_zeros (hx.isDigit c)
  · have hsame : ofDigits (['0'] ++ (List.replicate zeros '0' ++ x.digits)) =
        ofDigits x.digits := by
      rw [← List.append_assoc]
      exact ofDigits_zeros_append (zeros + 1) x.digits
    rw [hsame]
    refine decimal_eq_value ?_
    rw [List.length_append, List.length_replicate]
    omega

theorem readsAs_point_inside (hx : x.Proper) (negative : Bool) (hrest : Closes rest)
    {whole : Nat} (hwhole : (whole : Int) = x.exponent + 1) (hpos : 0 < whole)
    (hlong : whole < x.digits.length) :
    ReadsAs negative (x.digits.take whole ++ '.' :: x.digits.drop whole ++ rest) x rest := by
  obtain ⟨c, more, hcons, hc⟩ := hx.starts
  obtain ⟨below, rfl⟩ := Nat.exists_eq_add_one.mpr hpos
  have hfraction : x.digits.drop (below + 1) ≠ [] := by
    rw [Ne, List.drop_eq_nil_iff]
    omega
  refine readsAs_point (Or.inr ⟨?_, ?_⟩) hfraction ?_ hrest ?_ negative
  · rw [hcons, List.take_succ_cons]
    exact ⟨c, _, rfl, hc⟩
  · exact fun c hmem => hx.isDigit c (List.mem_of_mem_take hmem)
  · exact fun c hmem => hx.isDigit c (List.mem_of_mem_drop hmem)
  · rw [List.take_append_drop]
    refine decimal_eq_value ?_
    rw [List.length_drop]
    omega

theorem readsAs_zeros_point (hx : x.Proper) (negative : Bool) (hrest : Closes rest)
    {zeros : Nat} (hzeros : (x.digits.length + zeros : Int) = x.exponent + 1) :
    ReadsAs negative (x.digits ++ List.replicate zeros '0' ++ '.' :: ['0'] ++ rest) x rest := by
  obtain ⟨c, more, hcons, hc⟩ := hx.starts
  have hzero : ∀ c ∈ ['0'], c.isDigit = true := by simp
  refine readsAs_point (Or.inr ⟨?_, ?_⟩) (by simp) hzero hrest ?_ negative
  · exact ⟨c, more ++ List.replicate zeros '0', by simp [hcons], hc⟩
  · intro c hmem
    exact (List.mem_append.mp hmem).elim (hx.isDigit c) isDigit_of_mem_zeros
  · have hshift : ofDigits (x.digits ++ List.replicate zeros '0' ++ ['0']) =
        10 ^ (zeros + 1) * ofDigits x.digits := by
      rw [List.append_assoc, ← List.replicate_succ']
      exact ofDigits_append_zeros (zeros + 1) x.digits
    rw [hshift, Nat.cast_mul, Nat.cast_pow, Nat.cast_ofNat, ← zpow_natCast, mul_right_comm,
      ← zpow_add₀ (by norm_num), mul_comm]
    refine decimal_eq_value ?_
    simp only [List.length_singleton]
    omega

theorem readsAs_positional (hx : x.Proper) (negative : Bool) (hrest : Closes rest) :
    ReadsAs negative (x.positional ++ rest) x rest := by
  unfold Digits.positional
  split
  case isTrue hexp => exact readsAs_point_zeros hx negative hrest hexp
  case isFalse hexp =>
    generalize hwhole : x.exponent.toNat + 1 = whole
    by_cases hlong : whole < x.digits.length
    · have hnone : List.replicate (whole - x.digits.length) '0' = [] := by
        rw [Nat.sub_eq_zero_of_le hlong.le, List.replicate_zero]
      have hfraction : (x.digits.drop whole).isEmpty = false := by
        rw [List.isEmpty_eq_false_iff, Ne, List.drop_eq_nil_iff]
        omega
      simp only [hnone, hfraction, List.append_nil, Bool.false_eq_true, if_false]
      exact readsAs_point_inside hx negative hrest (by omega) (by omega) hlong
    · have hall : x.digits.take whole = x.digits := List.take_of_length_le (by omega)
      have hfraction : x.digits.drop whole = [] := List.drop_of_length_le (by omega)
      simp only [hall, hfraction, List.isEmpty_nil, if_true]
      exact readsAs_zeros_point hx negative hrest (by omega)

theorem readsAs_scientific (hx : x.Proper) (negative : Bool) (hrest : Closes rest)
    (l : Double.Layout) : ReadsAs negative (x.scientific l ++ rest) x rest := by
  obtain ⟨c, more, hcons, hc⟩ := hx.starts
  have hpower : ofDigits (List.replicate
      (l.exponentWidth - (Text.decimal x.exponent.natAbs).length) '0' ++
        Text.decimal x.exponent.natAbs) = x.exponent.natAbs := by
    rw [ofDigits_zeros_append, ofDigits_eq, Text.ofDigitChars_decimal]
  obtain ⟨first, behind, hdecimal⟩ : ∃ first behind,
      Text.decimal x.exponent.natAbs = first :: behind := by
    exact List.exists_cons_of_ne_nil (isWhole_decimal _).ne_nil
  have htext : x.scientific l = [c] ++ fractionText more ++
      'e' :: (if decide (x.exponent < 0) then '-' else '+') ::
        (List.replicate (l.exponentWidth - (Text.decimal x.exponent.natAbs).length) '0' ++
          Text.decimal x.exponent.natAbs) := by
    simp [Digits.scientific, fractionText, hcons]
  rw [htext]
  refine readsAs_exponent (Or.inr ⟨⟨c, [], rfl, hc⟩, ?_⟩) ?_ (by simp [hdecimal]) ?_ hrest _ ?_
    negative
  · intro c' hmem
    rw [List.mem_singleton.mp hmem]
    exact hx.isDigit c (by rw [hcons]; exact List.mem_cons_self)
  · exact fun c' hmem => hx.isDigit c' (by rw [hcons]; exact List.mem_cons_of_mem c hmem)
  · intro c' hmem
    exact (List.mem_append.mp hmem).elim isDigit_of_mem_zeros Text.isDigit_of_mem_decimal
  · have hdigits : [c] ++ more = x.digits := hcons.symm
    have hlength : x.digits.length = more.length + 1 := by rw [hcons, List.length_cons]
    rw [hpower, hdigits]
    refine decimal_eq_value ?_
    by_cases hexp : x.exponent < 0
    · simp only [hexp, decide_true, if_true]
      omega
    · simp only [hexp, decide_false, Bool.false_eq_true, if_false]
      omega

/-- The digits of a number are read as the number, however they are laid out. -/
theorem readsAs_toText (hx : x.Proper) (negative : Bool) (hrest : Closes rest)
    (l : Double.Layout) : ReadsAs negative (x.toText l ++ rest) x rest := by
  unfold Digits.toText
  split
  · exact readsAs_positional hx negative hrest
  · exact readsAs_scientific hx negative hrest l

theorem toText_starts (hx : x.Proper) (l : Double.Layout) :
    ∃ c cs, x.toText l = c :: cs ∧ c.isDigit = true := by
  obtain ⟨c, more, hcons, -⟩ := hx.starts
  have hc : c.isDigit = true := hx.isDigit c (by rw [hcons]; exact List.mem_cons_self)
  unfold Digits.toText Digits.positional Digits.scientific
  rw [hcons]
  split
  · split
    · exact ⟨'0', _, rfl, rfl⟩
    · exact ⟨c, _, rfl, hc⟩
  · exact ⟨c, _, rfl, hc⟩

/-! ## Numbers as values -/

theorem readScalar_digit {c : Char} (hc : c.isDigit = true) (cs : List Char) :
    readScalar (c :: cs) = readUnsigned false (c :: cs) := by
  unfold readScalar
  split <;> simp_all

theorem readScalar_minus {c : Char} (hc : c.isDigit = true) (cs : List Char) :
    readScalar ('-' :: c :: cs) = readUnsigned true (c :: cs) := by
  unfold readScalar
  split <;> simp_all

theorem readValue_numeral {c : Char} (hc : c = '-' ∨ c.isDigit = true) (fuel : Nat)
    (cs : List Char) : readValue (fuel + 1) (c :: cs) = readScalar (c :: cs) := by
  rw [readValue]
  all_goals
    intro rest heq
    rw [List.cons.injEq] at heq
    obtain ⟨rfl, -⟩ := heq
    exact absurd hc (by decide)

variable {ascii : Bool}

/-- A value whose text is a sign and a numeral is read back if the numeral is read as it. -/
theorem readBack_numeral {j : Json} (negative : Bool) (body : List Char)
    (hprint : print (tight ascii) j = if negative then '-' :: body else body)
    (hstarts : ∃ c cs, body = c :: cs ∧ c.isDigit = true)
    (hreads : ∀ rest, Closes rest → readUnsigned negative (body ++ rest) = .ok (j, rest)) :
    ReadBack ascii j := by
  obtain ⟨c, cs, hcons, hc⟩ := hstarts
  have hgap : isGap c = false := by
    rw [← Bool.not_eq_true]
    intro hgap
    simp only [isGap, Bool.or_eq_true, beq_iff_eq] at hgap
    rcases hgap with ((rfl | rfl) | rfl) | rfl <;> exact absurd hc (by decide)
  subst hcons
  cases negative with
  | false =>
      rw [if_neg Bool.false_ne_true] at hprint
      refine ⟨⟨c, cs, hprint, hgap, ?_⟩, ?_⟩
      · rintro rfl
        exact absurd hc (by decide)
      · intro fuel rest hfuel hrest
        rw [hprint] at hfuel ⊢
        cases fuel with
        | zero => simp at hfuel
        | succ fuel =>
            rw [List.cons_append, readValue_numeral (Or.inr hc), readScalar_digit hc]
            exact hreads rest hrest
  | true =>
      rw [if_pos rfl] at hprint
      refine ⟨⟨'-', c :: cs, hprint, rfl, by decide⟩, ?_⟩
      intro fuel rest hfuel hrest
      rw [hprint] at hfuel ⊢
      cases fuel with
      | zero => simp at hfuel
      | succ fuel =>
          rw [List.cons_append, List.cons_append, readValue_numeral (Or.inl rfl),
            readScalar_minus hc]
          exact hreads rest hrest

theorem readUnsigned_zero (hrest : Closes rest) (negative : Bool) :
    readUnsigned negative ('0' :: '.' :: '0' :: rest) =
      .ok (.double (Double.zero negative), rest) := by
  have hzero : ∀ c ∈ ['0'], c.isDigit = true := by simp
  have hfraction : splitFraction ('.' :: '0' :: rest) = (['0'], rest) :=
    splitFraction_append hzero hrest.endsRun hrest.head?_ne_point
  have hwhole : splitWhole ('0' :: '.' :: '0' :: rest) = (['0'], '.' :: '0' :: rest) := rfl
  exact readUnsigned_double negative hwhole hfraction (splitExponent_closes hrest)
    (List.cons_ne_nil _ _) (Or.inl (List.cons_ne_nil _ _))

theorem readBack_int {n : Int} (h : Text.isTooLong n = false) : ReadBack ascii (.int n) := by
  have hlength : (Text.decimal n.natAbs).length ≤ Text.maxDecimalDigits := by
    have hlt := h
    rw [Text.isTooLong, decide_eq_false_iff_not, not_le] at hlt
    exact (Text.length_decimal_le_iff (by decide)).mpr hlt
  have hwhole := isWhole_decimal n.natAbs
  refine readBack_numeral (decide (n < 0)) (Text.decimal n.natAbs) ?_ ?_ ?_
  · simp [print, Text.integer]
  · obtain ⟨c, cs, hcons⟩ := List.exists_cons_of_ne_nil hwhole.ne_nil
    exact ⟨c, cs, hcons, Text.isDigit_of_mem_decimal (by rw [hcons]; exact List.mem_cons_self)⟩
  · intro rest hrest
    have hvalue : ofDigits (Text.decimal n.natAbs) = n.natAbs := by
      rw [ofDigits_eq, Text.ofDigitChars_decimal]
    rw [readUnsigned_int (splitWhole_append hwhole hrest.endsRun) hrest hwhole.ne_nil hlength,
      hvalue]
    by_cases hn : n < 0
    · have hsign : -(n.natAbs : Int) = n := by omega
      simp only [hn, decide_true, if_true, hsign]
    · have hsign : (n.natAbs : Int) = n := by omega
      simp only [hn, decide_false, Bool.false_eq_true, if_false, hsign]

theorem readBack_double {d : Double} (h : d.isFinite = true) : ReadBack ascii (.double d) := by
  have hnan : d.isNaN = false := by
    simp only [Double.isFinite, bne_iff_ne] at h
    simp [Double.isNaN, h]
  refine readBack_numeral d.isNegative ((Double.shortest d).toText Double.layout) ?_ ?_ ?_
  · simp [print, Double.toText, hnan, h]
  · by_cases hzero : d.mantissa = 0
    · have hdigits : Double.shortest d = ⟨['0'], 0⟩ := by simp [Double.shortest, hzero]
      exact ⟨'0', ['.', '0'], by rw [hdigits]; rfl, rfl⟩
    · exact toText_starts (Double.shortest_spec h hzero).1 _
  · intro rest hrest
    by_cases hzero : d.mantissa = 0
    · have hdigits : Double.shortest d = ⟨['0'], 0⟩ := by simp [Double.shortest, hzero]
      have hd := Double.eq_zero_of_mantissa hzero
      rw [hdigits]
      change readUnsigned d.isNegative ('0' :: '.' :: '0' :: rest) = _
      rw [readUnsigned_zero hrest, ← hd]
    · obtain ⟨hproper, hnear⟩ := Double.shortest_spec h hzero
      obtain ⟨digits, exp, hread, hvalue⟩ := readsAs_toText hproper d.isNegative hrest Double.layout
      rw [← hvalue] at hnear
      rw [hread, hnear.ofDecimal_eq h hzero]

end ChainFold.Json
