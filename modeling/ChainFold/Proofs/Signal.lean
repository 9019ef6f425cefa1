import ChainFold.Engine.Resolution
import ChainFold.Proofs.Json.Patching

/-!
# Signals and the order of keys

The signal of a content is looked up by its key, so contents that differ only in the
order of their keys have the same signal up to that order, and such signals contain
the same values.
-/

namespace ChainFold

/-- An extractor that derives alike signals from alike contents. -/
def Index.IgnoresKeyOrder (extract : Extractor) : Prop :=
  ∀ x y, x.Alike y →
    (extract x).map (Option.map Json.sortKeys) = (extract y).map (Option.map Json.sortKeys)

namespace Signal

open Json

theorem alikePart_among? {ms ns : Members} (h : (obj ms).Alike (obj ns)) :
    AlikePart (among? ms) (among? ns) := by
  have hpart := (alike_obj_iff.mp h).2 "signal"
  unfold among?
  rcases hpart.cases with ⟨hx, hy⟩ | ⟨x, y, hx, hy, halike⟩
  · rw [hx, hy]
    trivial
  · rw [hx, hy, Option.filter_some, Option.filter_some, halike.isObject_eq]
    split
    · exact halike
    · trivial

theorem sorted_options {x y : Json} (h : x.Alike y) :
    ((options? x).bind among?).map sortKeys = ((options? y).bind among?).map sortKeys := by
  rcases h.cases with ⟨rfl, -⟩ | ⟨xs, ys, rfl, rfl⟩ | ⟨ms, ns, rfl, rfl⟩
  · rfl
  · rfl
  · exact (alikePart_iff.mp (alikePart_among? h)).2.2

theorem alike_field {ms ns : Members} (h : (obj ms).Alike (obj ns)) (key : String) :
    (field key ms).Alike (field key ns) := by
  have hpart := (alike_obj_iff.mp h).2 key
  unfold field
  rcases hpart.cases with ⟨hx, hy⟩ | ⟨x, y, hx, hy, halike⟩
  · rw [hx, hy]
    exact .refl trivial
  · rw [hx, hy]
    exact halike

theorem sorted_ofContent? {x y : Json} (h : x.Alike y) :
    (ofContent? x).map sortKeys = (ofContent? y).map sortKeys := by
  rcases h.cases with ⟨rfl, -⟩ | ⟨xs, ys, rfl, rfl⟩ | ⟨ms, ns, rfl, rfl⟩
  · rfl
  · rfl
  · have hown := (alikePart_iff.mp (alikePart_among? h)).2.2
    have hoptions := sorted_options (alike_field h "options")
    unfold ofContent?
    rw [Option.map_or, Option.map_or, hown, hoptions]

/-! ## Containment -/

/-- Whether a wanted member is among those of an object, with a value that is contained. -/
def containsMember (ms : Members) (w : String × Json) : Bool :=
  match ms.get? w.1 with
  | some j => contains j w.2
  | none => false

theorem containsMembers_eq_all (ms ws : Members) :
    containsMembers ms ws = ws.all (containsMember ms) := by
  induction ws with
  | nil => simp [containsMembers]
  | cons w rest ih =>
      obtain ⟨k, j⟩ := w
      rw [containsMembers, ih, List.all_cons]
      rfl

theorem containsItems_eq_all (items ws : List Json) :
    containsItems items ws = ws.all fun w => items.any fun j => contains j w := by
  induction ws with
  | nil => simp [containsItems]
  | cons w rest ih => rw [containsItems, ih, List.all_cons]

/-- What a value contains does not depend on the order of its keys. -/
theorem contains_sortKeys (wanted : Json) :
    ∀ signal : Json, signal.Tidy → contains signal.sortKeys wanted = contains signal wanted := by
  induction wanted using inductionOnParts with
  | null | bool | int | double | str =>
      intro signal _
      cases signal with
      | arr items => simp only [sortKeys_arr, contains, sameScalar_arr]
      | obj ms => simp only [sortKeys_obj, contains, sameScalar_obj]
      | null | bool | int | double | str => rfl
  | arr ws ih =>
      intro signal htidy
      cases signal with
      | arr items =>
          rw [sortKeys_arr, contains, contains, containsItems_eq_all, containsItems_eq_all]
          refine all_eq_of_mem fun w hw => ?_
          rw [List.any_map, Bool.eq_iff_iff, List.any_eq_true, List.any_eq_true]
          refine exists_congr fun j => and_congr_right fun hj => ?_
          rw [Function.comp_apply, ih w hw j (tidy_arr_iff.mp htidy j hj)]
      | obj ms => simp only [sortKeys_obj, contains]
      | null | bool | int | double | str => rfl
  | obj ws ih =>
      intro signal htidy
      cases signal with
      | arr items => simp only [sortKeys_arr, contains]
      | obj ms =>
          obtain ⟨hnodup, hmembers⟩ := tidy_obj_iff.mp htidy
          rw [sortKeys_obj, contains, contains, containsMembers_eq_all, containsMembers_eq_all]
          refine all_eq_of_mem fun w hw => ?_
          unfold containsMember
          rw [Members.get?_sortByKey (nodup_keys_sortMembers hnodup), Members.get?_map]
          cases hget : Members.get? w.1 ms with
          | none => rfl
          | some j => exact ih w hw j (hmembers _ (Members.mem_of_get? hget))
      | null | bool | int | double | str => rfl

theorem contains_eq_of_alike {x y : Json} (h : x.Alike y) (wanted : Json) :
    contains x wanted = contains y wanted := by
  rw [← contains_sortKeys wanted x h.left, ← contains_sortKeys wanted y h.right, h.sorted]

end Signal

/-- The extractor that is used when no other is given derives alike signals from alike contents. -/
theorem Index.ignoresKeyOrder_ownSignal : IgnoresKeyOrder ownSignal := by
  intro x y h
  show Except.ok _ = Except.ok _
  rw [Signal.sorted_ofContent? h]

end ChainFold
