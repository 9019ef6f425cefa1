import ChainFold.Proofs.Double.Rounding
import ChainFold.Proofs.Signal

/-!
# Containment is a preorder

Containment is said here without the code that decides it: scalars are contained if they
are the same, numbers if they stand for the same number, and a container holds another one
if a part can be chosen for each part that is wanted.  The choices compose, so containment
is transitive; and it is reflexive where no value is a NaN.
-/

namespace ChainFold

/-! ## Numbers -/

namespace Double

/-- The number that a finite double stands for. -/
def value (d : Double) : ℚ := (if d.isNegative then -1 else 1) * d.mantissa * 2 ^ d.exponent

theorem denominator_pos (d : Double) : 0 < d.denominator := Nat.pow_pos two_pos

theorem value_eq_ratio (d : Double) : d.value = d.numerator / d.denominator := by
  unfold value numerator denominator
  rw [two_zpow_eq]
  by_cases h : d.isNegative = true
  · simp only [h, if_true]
    push_cast
    ring
  · simp only [h, Bool.false_eq_true, if_false]
    push_cast
    ring

end Double

namespace Json

/--
The number that a value stands for: a fraction, or an infinity with its sign.  A NaN
stands for none, and neither does a boolean.
-/
def number? : Json → Option (ℚ ⊕ Bool)
  | .int n => some (.inl n)
  | .double d =>
    if d.isNaN then none
    else if d.isFinite then some (.inl d.value)
    else some (.inr d.isNegative)
  | _ => none

namespace Quantity

/-- The number that a quantity is. -/
def number? : Quantity → Option (ℚ ⊕ Bool)
  | .ratio a b => some (.inl (a / b))
  | .infinite negative => some (.inr negative)
  | .nan => none

/-- A fraction has a denominator. -/
def Proper : Quantity → Prop
  | .ratio _ b => 0 < b
  | _ => True

/-- Quantities are the same exactly if they are the same number. -/
theorem same_iff {p q : Quantity} (hp : p.Proper) (hq : q.Proper) :
    p.same q = true ↔ ∃ x, p.number? = some x ∧ q.number? = some x := by
  have hshared : (∃ x, p.number? = some x ∧ q.number? = some x) ↔
      p.number? ≠ none ∧ p.number? = q.number? := by
    cases hpnumber : p.number? with
    | none => simp
    | some x => simp [eq_comm]
  rw [hshared]
  cases p <;> cases q
  case ratio.ratio a b c d =>
    have hb : (b : ℚ) ≠ 0 := Nat.cast_ne_zero.mpr (Nat.pos_iff_ne_zero.mp hp)
    have hd : (d : ℚ) ≠ 0 := Nat.cast_ne_zero.mpr (Nat.pos_iff_ne_zero.mp hq)
    have hcross : a * d = c * b ↔ (a : ℚ) / b = c / d := by
      rw [div_eq_div_iff hb hd]
      exact_mod_cast Iff.rfl
    simp [same, number?, hcross]
  all_goals simp [same, number?]

end Quantity

theorem proper_of_quantity? {j : Json} {p : Quantity} (h : quantity? false j = some p) :
    p.Proper ∧ p.number? = j.number? := by
  cases j with
  | int n =>
      obtain rfl := Option.some.inj h
      exact ⟨Nat.one_pos, by simp [Quantity.number?, number?, Quantity.ofInt]⟩
  | double d =>
      obtain rfl := Option.some.inj h
      unfold Quantity.ofDouble
      split_ifs with hnan hfinite
      · exact ⟨trivial, by simp [Quantity.number?, number?, hnan]⟩
      · refine ⟨d.denominator_pos, ?_⟩
        simp [Quantity.number?, number?, hnan, hfinite, d.value_eq_ratio]
      · exact ⟨trivial, by simp [Quantity.number?, number?, hnan, hfinite]⟩
  | null | bool | str | arr | obj => simp [quantity?] at h

theorem exists_number?_double {d : Double} (h : d.isNaN = false) :
    ∃ q, (double d).number? = some q := by
  by_cases hfinite : d.isFinite = true
  · exact ⟨.inl d.value, by simp [number?, h, hfinite]⟩
  · exact ⟨.inr d.isNegative, by simp [number?, h, hfinite]⟩

theorem number?_of_quantity? {j : Json} (h : quantity? false j = none) : j.number? = none := by
  cases j with
  | int | double => simp [quantity?] at h
  | null | bool | str | arr | obj => rfl

/-- A value that is neither a number nor made of parts. -/
def IsAtom (j : Json) : Prop := j = .null ∨ (∃ b, j = .bool b) ∨ ∃ s, j = .str s

theorem IsAtom.quantity?_eq {j : Json} (h : j.IsAtom) : quantity? false j = none := by
  rcases h with rfl | ⟨b, rfl⟩ | ⟨s, rfl⟩ <;> rfl

/-- Values without parts are the same as atoms, or as numbers. -/
theorem sameScalar_iff (a b : Json) :
    sameScalar false a b = true ↔
      (∃ q, a.number? = some q ∧ b.number? = some q) ∨ a.IsAtom ∧ a = b := by
  have hatom : ∀ {p}, quantity? false a = some p ∨ quantity? false b = some p →
      ¬ (a.IsAtom ∧ a = b) := by
    rintro p hsome ⟨ha, rfl⟩
    simp [ha.quantity?_eq] at hsome
  unfold sameScalar
  cases hx : quantity? false a with
  | some p =>
      obtain ⟨hp, hpnumber⟩ := proper_of_quantity? hx
      cases hy : quantity? false b with
      | some q =>
          obtain ⟨hq, hqnumber⟩ := proper_of_quantity? hy
          simp only [Quantity.same_iff hp hq, hpnumber, hqnumber, hatom (.inl hx), or_false]
      | none => simp [number?_of_quantity? hy, hatom (.inl hx)]
  | none =>
      cases hy : quantity? false b with
      | some q => simp [number?_of_quantity? hx, hatom (.inr hy)]
      | none =>
          simp only [number?_of_quantity? hx, reduceCtorEq, false_and, exists_false, false_or]
          cases a <;> cases b <;> simp_all [IsAtom, quantity?]

end Json

namespace Signal

open Json

/-! ## What containment means -/

/--
A value has another one in it: the same atom, the same number, for each wanted item an item
that has it in it, or for each wanted member a value under the same key that has it in it.
-/
inductive Includes : (signal wanted : Json) → Prop
  | atom {x : Json} (hx : x.IsAtom) : Includes x x
  | number {x y : Json} {q : ℚ ⊕ Bool} (hx : x.number? = some q) (hy : y.number? = some q) :
      Includes x y
  | arr {items ws : List Json} (item : Json → Json) (hmem : ∀ w ∈ ws, item w ∈ items)
      (h : ∀ w ∈ ws, Includes (item w) w) : Includes (.arr items) (.arr ws)
  | obj {ms ws : Members} (value : String × Json → Json)
      (hget : ∀ w ∈ ws, ms.get? w.1 = some (value w)) (h : ∀ w ∈ ws, Includes (value w) w.2) :
      Includes (.obj ms) (.obj ws)

theorem includes_iff_sameScalar {a b : Json} (harr : ∀ ws, b ≠ .arr ws)
    (hobj : ∀ ws, b ≠ .obj ws) : Includes a b ↔ sameScalar false a b = true := by
  rw [sameScalar_iff]
  constructor
  · intro h
    cases h with
    | atom hx => exact .inr ⟨hx, rfl⟩
    | number hx hy => exact .inl ⟨_, hx, hy⟩
    | arr => exact absurd rfl (harr _)
    | obj => exact absurd rfl (hobj _)
  · rintro (⟨q, hx, hy⟩ | ⟨hx, rfl⟩)
    · exact .number hx hy
    · exact .atom hx

theorem includes_arr_iff {items ws : List Json} :
    Includes (.arr items) (.arr ws) ↔ ∀ w ∈ ws, ∃ j ∈ items, Includes j w := by
  constructor
  · intro h w hw
    cases h with
    | atom hx => simp [Json.IsAtom] at hx
    | number hx _ => cases hx
    | arr item hmem h => exact ⟨item w, hmem w hw, h w hw⟩
  · intro h
    choose! item hmem hincludes using h
    exact .arr item hmem hincludes

theorem includes_obj_iff {ms ws : Members} :
    Includes (.obj ms) (.obj ws) ↔
      ∀ w ∈ ws, ∃ j, ms.get? w.1 = some j ∧ Includes j w.2 := by
  constructor
  · intro h w hw
    cases h with
    | atom hx => simp [Json.IsAtom] at hx
    | number hx _ => cases hx
    | obj value hget h => exact ⟨value w, hget w hw, h w hw⟩
  · intro h
    choose! value hget hincludes using h
    exact .obj value hget hincludes

theorem exists_arr_of_includes {x : Json} {ws : List Json} (h : Includes x (.arr ws)) :
    ∃ items, x = .arr items := by
  cases h with
  | atom => exact ⟨ws, rfl⟩
  | number _ hy => cases hy
  | arr => exact ⟨_, rfl⟩

theorem exists_obj_of_includes {x : Json} {ws : Members} (h : Includes x (.obj ws)) :
    ∃ ms, x = .obj ms := by
  cases h with
  | atom => exact ⟨ws, rfl⟩
  | number _ hy => cases hy
  | obj => exact ⟨_, rfl⟩

/-- Containment is decided as it is meant. -/
theorem contains_iff_includes (signal wanted : Json) :
    contains signal wanted = true ↔ Includes signal wanted := by
  induction wanted using inductionOnParts generalizing signal with
  | null | bool | int | double | str =>
      rw [includes_iff_sameScalar (by simp) (by simp), contains]
      all_goals simp
  | arr ws ih =>
      cases signal with
      | arr items =>
          rw [contains, containsItems_eq_all, List.all_eq_true, includes_arr_iff]
          refine forall₂_congr fun w hw => ?_
          rw [List.any_eq_true]
          exact exists_congr fun j => and_congr_right fun _ => ih w hw j
      | null | bool | int | double | str | obj =>
          refine iff_of_false (by simp [contains]) fun h => ?_
          obtain ⟨items, heq⟩ := exists_arr_of_includes h
          cases heq
  | obj ws ih =>
      cases signal with
      | obj ms =>
          rw [contains, containsMembers_eq_all, List.all_eq_true, includes_obj_iff]
          refine forall₂_congr fun w hw => ?_
          unfold containsMember
          cases hget : Members.get? w.1 ms with
          | none => simp
          | some j => simp [ih w hw j]
      | null | bool | int | double | str | arr =>
          refine iff_of_false (by simp [contains]) fun h => ?_
          obtain ⟨ms, heq⟩ := exists_obj_of_includes h
          cases heq

/-! ## A preorder -/

/-- A value in which no number is a NaN and no object has a key twice. -/
inductive NaNFree : Json → Prop
  | atom {x : Json} (hx : x.IsAtom) : NaNFree x
  | int (n : Int) : NaNFree (.int n)
  | double {d : Double} (h : d.isNaN = false) : NaNFree (.double d)
  | arr {items : List Json} (h : ∀ j ∈ items, NaNFree j) : NaNFree (.arr items)
  | obj {ms : Members} (hkeys : ms.keys.Nodup) (h : ∀ m ∈ ms, NaNFree m.2) : NaNFree (.obj ms)

theorem NaNFree.includes_self {x : Json} (h : NaNFree x) : Includes x x := by
  induction h with
  | atom hx => exact .atom hx
  | int n => exact .number rfl rfl
  | @double d hnan =>
      obtain ⟨q, hq⟩ := exists_number?_double hnan
      exact .number hq hq
  | arr _ ih => exact .arr id (fun w hw => hw) ih
  | obj hkeys _ ih => exact .obj Prod.snd (fun w hw => Members.get?_of_mem hkeys hw) ih

/-- What has a value in it has all in it that the value has: the choices of parts compose. -/
theorem Includes.trans {a b c : Json} (hab : Includes a b) (hbc : Includes b c) :
    Includes a c := by
  -- The shape of the middle value, which the induction is about, forces that of the outer one.
  induction hbc generalizing a with
  | atom => exact hab
  | number hx hy =>
      cases hab with
      | atom => exact .number hx hy
      | number hx' hy' => exact .number (hx'.trans (hy'.symm.trans hx)) hy
      | arr => cases hx
      | obj => cases hx
  | arr item hmem _ ih =>
      obtain ⟨items, rfl⟩ := exists_arr_of_includes hab
      rw [includes_arr_iff] at hab ⊢
      intro w hw
      obtain ⟨j, hj, hincludes⟩ := hab (item w) (hmem w hw)
      exact ⟨j, hj, ih w hw hincludes⟩
  | obj value hget _ ih =>
      obtain ⟨ms, rfl⟩ := exists_obj_of_includes hab
      rw [includes_obj_iff] at hab ⊢
      intro w hw
      obtain ⟨j, hj, hincludes⟩ := hab (w.1, value w) (Members.mem_of_get? (hget w hw))
      exact ⟨j, hj, ih w hw hincludes⟩

end Signal

end ChainFold
