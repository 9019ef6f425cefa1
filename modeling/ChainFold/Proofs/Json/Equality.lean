import ChainFold.Proofs.Signal.Containment

/-!
# What loose equality means

Loose equality is said here without the code that decides it: numbers are equal if they stand
for the same number, where truth values stand for one and zero, and arrays and objects are equal
if their parts are, those of objects by their keys.  A part that is a NaN counts as equal to one.
-/

namespace ChainFold.Json

/-- The number that a value counts as: truth values count as one and zero. -/
def amount? : Json → Option (ℚ ⊕ Bool)
  | .bool b => some (.inl (if b then 1 else 0))
  | j => j.number?

def IsNaN (j : Json) : Prop := ∃ d : Double, j = .double d ∧ d.isNaN = true

/-- Equal values; only as parts of others two NaNs are. -/
inductive Equals : Json → Json → Prop
  | number {x y : Json} {q : ℚ ⊕ Bool} (hx : x.amount? = some q) (hy : y.amount? = some q) :
      Equals x y
  | null : Equals .null .null
  | text (s : String) : Equals (.str s) (.str s)
  | arr {xs ys : List Json} (hlength : xs.length = ys.length)
      (h : ∀ p ∈ xs.zip ys, ¬ (p.1.IsNaN ∧ p.2.IsNaN) → Equals p.1 p.2) :
      Equals (.arr xs) (.arr ys)
  | obj {xs ys : Members} (value : String × Json → Json) (hlength : xs.length = ys.length)
      (hget : ∀ m ∈ xs, ys.get? m.1 = some (value m))
      (h : ∀ m ∈ xs, ¬ (m.2.IsNaN ∧ (value m).IsNaN) → Equals m.2 (value m)) :
      Equals (.obj xs) (.obj ys)

theorem bothNaN_iff (a b : Json) : bothNaN a b = true ↔ a.IsNaN ∧ b.IsNaN := by
  cases a <;> cases b <;> simp [bothNaN, IsNaN]

/-! ## Values without parts -/

theorem proper_of_amount {j : Json} {p : Quantity} (h : quantity? true j = some p) :
    p.Proper ∧ p.number? = j.amount? := by
  cases j with
  | bool b =>
      obtain rfl := Option.some.inj h
      refine ⟨Nat.one_pos, ?_⟩
      cases b <;> simp [Quantity.number?, Quantity.ofInt, amount?]
  | int n => exact proper_of_quantity? (j := .int n) h
  | double d => exact proper_of_quantity? (j := .double d) h
  | null | str | arr | obj => cases h

theorem amount?_of_quantity? {j : Json} (h : quantity? true j = none) : j.amount? = none := by
  cases j with
  | bool | int | double => cases h
  | null | str | arr | obj => rfl

theorem looseScalar_iff (a b : Json) : sameScalar true a b = true ↔
    (∃ q, a.amount? = some q ∧ b.amount? = some q) ∨ a = .null ∧ b = .null ∨
      ∃ s, a = .str s ∧ b = .str s := by
  unfold sameScalar
  cases hx : quantity? true a with
  | some p =>
      obtain ⟨hp, hpamount⟩ := proper_of_amount hx
      have hnone : ¬ (a = .null ∧ b = .null ∨ ∃ s, a = .str s ∧ b = .str s) := by
        rintro (⟨rfl, -⟩ | ⟨s, rfl, -⟩) <;> cases hx
      cases hy : quantity? true b with
      | some q =>
          obtain ⟨hq, hqamount⟩ := proper_of_amount hy
          simp only [Quantity.same_iff hp hq, hpamount, hqamount, hnone, or_false]
      | none => simp [amount?_of_quantity? hy, hnone]
  | none =>
      cases hy : quantity? true b with
      | some q =>
          have hnone : ¬ (a = .null ∧ b = .null ∨ ∃ s, a = .str s ∧ b = .str s) := by
            rintro (⟨-, rfl⟩ | ⟨s, -, rfl⟩) <;> cases hy
          simp [amount?_of_quantity? hx, hnone]
      | none =>
          simp only [amount?_of_quantity? hx, reduceCtorEq, false_and, exists_false, false_or]
          cases a <;> cases b <;> simp_all [quantity?]
          exact eq_comm

theorem equals_iff_sameScalar {a b : Json} (harr : ∀ xs, a ≠ .arr xs) (hobj : ∀ xs, a ≠ .obj xs) :
    Equals a b ↔ sameScalar true a b = true := by
  rw [looseScalar_iff]
  constructor
  · intro h
    cases h with
    | number hx hy => exact .inl ⟨_, hx, hy⟩
    | null => exact .inr (.inl ⟨rfl, rfl⟩)
    | text s => exact .inr (.inr ⟨s, rfl, rfl⟩)
    | arr => exact absurd rfl (harr _)
    | obj => exact absurd rfl (hobj _)
  · rintro (⟨q, hx, hy⟩ | ⟨rfl, rfl⟩ | ⟨s, rfl, rfl⟩)
    · exact .number hx hy
    · exact .null
    · exact .text s

/-! ## Values with parts -/

/-- A part is the same as another one if both are NaN, or else if it is equal. -/
theorem samePart_iff (a b : Json) : (true && bothNaN a b || same true a b) = true ↔
    (¬ (a.IsNaN ∧ b.IsNaN) → same true a b = true) := by
  rw [Bool.true_and, Bool.or_eq_true, bothNaN_iff]
  exact or_iff_not_imp_left

theorem sameItems_iff {xs ys : List Json} : sameItems true xs ys = true ↔
    xs.length = ys.length ∧
      ∀ p ∈ xs.zip ys, ¬ (p.1.IsNaN ∧ p.2.IsNaN) → same true p.1 p.2 = true := by
  induction xs generalizing ys with
  | nil => cases ys <;> simp [sameItems]
  | cons x xs ih =>
      cases ys with
      | nil => simp [sameItems]
      | cons y ys =>
          rw [sameItems, Bool.and_eq_true, samePart_iff, ih, List.zip_cons_cons,
            List.forall_mem_cons, List.length_cons, List.length_cons, Nat.add_right_cancel_iff]
          exact and_left_comm

theorem hasSame_iff (ys : Members) (m : String × Json) : hasSame true ys m = true ↔
    ∃ y, ys.get? m.1 = some y ∧ (¬ (m.2.IsNaN ∧ y.IsNaN) → same true m.2 y = true) := by
  unfold hasSame
  cases hget : Members.get? m.1 ys with
  | none => simp
  | some y => simpa using samePart_iff m.2 y

theorem same_arr_iff {xs ys : List Json}
    (ih : ∀ x ∈ xs, ∀ y, same true x y = true ↔ Equals x y) :
    same true (.arr xs) (.arr ys) = true ↔ Equals (.arr xs) (.arr ys) := by
  rw [same, sameItems_iff]
  constructor
  · rintro ⟨hlength, h⟩
    refine .arr hlength fun p hp hnan => ?_
    exact (ih p.1 (List.of_mem_zip hp).1 p.2).mp (h p hp hnan)
  · intro h
    cases h with
    | number hx => cases hx
    | arr hlength h =>
        refine ⟨hlength, fun p hp hnan => ?_⟩
        exact (ih p.1 (List.of_mem_zip hp).1 p.2).mpr (h p hp hnan)

theorem same_obj_iff {xs ys : Members}
    (ih : ∀ m ∈ xs, ∀ y, same true m.2 y = true ↔ Equals m.2 y) :
    same true (.obj xs) (.obj ys) = true ↔ Equals (.obj xs) (.obj ys) := by
  rw [same, Bool.and_eq_true, beq_iff_eq, sameMembers_eq_all, List.all_eq_true]
  simp only [hasSame_iff]
  constructor
  · rintro ⟨hlength, h⟩
    choose! value hget hsame using h
    refine .obj value hlength hget fun m hm hnan => ?_
    exact (ih m hm (value m)).mp (hsame m hm hnan)
  · intro h
    cases h with
    | number hx => cases hx
    | obj value hlength hget h =>
        refine ⟨hlength, fun m hm => ⟨value m, hget m hm, fun hnan => ?_⟩⟩
        exact (ih m hm (value m)).mpr (h m hm hnan)

/-- Loose equality is decided as it is meant. -/
theorem looselySame_iff (a b : Json) : a.looselySame b = true ↔ Equals a b := by
  show same true a b = true ↔ Equals a b
  induction a using inductionOnParts generalizing b with
  | null | bool | int | double | str =>
      rw [equals_iff_sameScalar (by simp) (by simp)]
      cases b <;> exact Iff.rfl
  | arr xs ih =>
      cases b with
      | arr ys => exact same_arr_iff ih
      | null | bool | int | double | str | obj =>
          refine iff_of_false (by simp [same, sameScalar_arr]) fun h => ?_
          cases h with
          | number hx => cases hx
  | obj xs ih =>
      cases b with
      | obj ys => exact same_obj_iff ih
      | null | bool | int | double | str | arr =>
          refine iff_of_false (by simp [same, sameScalar_obj]) fun h => ?_
          cases h with
          | number hx => cases hx

end ChainFold.Json
