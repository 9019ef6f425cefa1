import ChainFold.Proofs.Json.Patching
import ChainFold.Store.Tables

/-!
# Values that a backend keeps alike

In memory a value is kept as it is, so only equal values are kept alike.  A
relational backend reads values back with sorted keys, so there the order of
members is not kept.  Patches and checks cannot tell such values apart either.
-/

namespace ChainFold.Backend

/-- Values that a backend keeps alike: equal in memory, alike elsewhere. -/
def Agree (b : Backend) (x y : Json) : Prop :=
  if b.isRelational then x.Alike y else x = y

variable {b : Backend} {x y z : Json}

theorem agree_iff_alike (h : b.isRelational = true) : b.Agree x y ↔ x.Alike y := by
  simp [Agree, h]

theorem agree_iff_eq (h : b.isRelational = false) : b.Agree x y ↔ x = y := by
  simp [Agree, h]

theorem agree_memory_iff : Backend.memory.Agree x y ↔ x = y := agree_iff_eq rfl

theorem agree_refl (h : x.Tidy) : b.Agree x x := by
  unfold Agree
  split
  · exact .refl h
  · rfl

theorem Agree.cases (h : b.Agree x y) :
    (b.isRelational = true ∧ x.Alike y) ∨ (b.isRelational = false ∧ x = y) := by
  cases hb : b.isRelational with
  | true => exact .inl ⟨rfl, (agree_iff_alike hb).mp h⟩
  | false => exact .inr ⟨rfl, (agree_iff_eq hb).mp h⟩

theorem Agree.symm (h : b.Agree x y) : b.Agree y x := by
  rcases h.cases with ⟨hb, h⟩ | ⟨hb, h⟩
  · exact (agree_iff_alike hb).mpr h.symm
  · exact (agree_iff_eq hb).mpr h.symm

theorem Agree.trans (hxy : b.Agree x y) (hyz : b.Agree y z) : b.Agree x z := by
  rcases hxy.cases with ⟨hb, h⟩ | ⟨hb, h⟩
  · exact (agree_iff_alike hb).mpr (h.trans ((agree_iff_alike hb).mp hyz))
  · exact h ▸ hyz

theorem agree_keptJson (h : x.Tidy) : b.Agree (b.keptJson x) x := by
  unfold Agree keptJson
  split
  · exact h.alike_sortKeys
  · rfl

theorem alike_keptJson (h : x.Tidy) : (b.keptJson x).Alike x := by
  unfold keptJson
  split
  · exact h.alike_sortKeys
  · exact .refl h

theorem Agree.tidy_left (h : b.Agree x y) (hy : y.Tidy) : x.Tidy := by
  rcases h.cases with ⟨-, h⟩ | ⟨-, h⟩
  · exact h.left
  · exact h ▸ hy

theorem Agree.keptJson_eq (h : b.Agree x y) : b.keptJson x = b.keptJson y := by
  rcases h.cases with ⟨hb, h⟩ | ⟨-, h⟩
  · simp [keptJson, hb, h.sorted]
  · rw [h]

theorem Agree.canonical_eq (h : b.Agree x y) : x.canonical = y.canonical := by
  rcases h.cases with ⟨-, h⟩ | ⟨-, h⟩
  · exact h.canonical_eq
  · rw [h]

theorem Agree.isObject_eq (h : b.Agree x y) : x.isObject = y.isObject := by
  rcases h.cases with ⟨-, h⟩ | ⟨-, h⟩
  · exact h.isObject_eq
  · rw [h]

theorem Agree.takes_eq (h : b.Agree x y) : b.takes x = b.takes y := by
  rcases h.cases with ⟨-, h⟩ | ⟨-, h⟩
  · rw [takes, takes, h.isFinite_eq]
  · rw [h]

theorem isObject_keptJson : (b.keptJson x).isObject = x.isObject := by
  unfold keptJson
  split
  · cases x <;> rfl
  · rfl

/-- A patch fails on both of two values that agree, or its results agree. -/
theorem Agree.result? (h : b.Agree x y) {patch : List Json} (hpatch : ∀ j ∈ patch, j.Tidy) :
    (Json.Patch.result? patch x = none ∧ Json.Patch.result? patch y = none) ∨
      ∃ x' y', Json.Patch.result? patch x = some x' ∧ Json.Patch.result? patch y = some y' ∧
        b.Agree x' y' := by
  rcases h.cases with ⟨hb, h⟩ | ⟨hb, h⟩
  · rcases (Json.Patch.alike_result? h hpatch).cases with hnone | ⟨x', y', hx, hy, halike⟩
    · exact .inl hnone
    · exact .inr ⟨x', y', hx, hy, (agree_iff_alike hb).mpr halike⟩
  · subst h
    cases hx : Json.Patch.result? patch x with
    | none => exact .inl ⟨rfl, rfl⟩
    | some x' => exact .inr ⟨x', x', rfl, rfl, (agree_iff_eq hb).mpr rfl⟩

end ChainFold.Backend
