import ChainFold.Proofs.Json.Numerals
import ChainFold.Proofs.Json.Patching

/-!
# What values are made of

The scalars of a value are what it is made of.  Sorting keys keeps them, and a patch adds
none that neither the value nor the patch has.  Every scalar that is read from a text is
read back from the text that is written for it, NaN and the infinities too; so all that
comes of values that were read, by whatever patches, can be written and read back.
-/

namespace ChainFold.Json

/-- Every scalar in a value, at any depth, has a property. -/
inductive MadeOf (p : Json → Prop) : Json → Prop
  | scalar {j : Json} (harr : ∀ items, j ≠ .arr items) (hobj : ∀ ms, j ≠ .obj ms) (h : p j) :
      MadeOf p j
  | arr {items : List Json} (h : ∀ j ∈ items, MadeOf p j) : MadeOf p (.arr items)
  | obj {ms : Members} (h : ∀ m ∈ ms, MadeOf p m.2) : MadeOf p (.obj ms)

variable {p : Json → Prop} {j v : Json}

theorem madeOf_arr_iff {items : List Json} :
    MadeOf p (.arr items) ↔ ∀ j ∈ items, MadeOf p j := by
  constructor
  · rintro (⟨harr, -⟩ | h)
    · exact absurd rfl (harr items)
    · exact h
  · exact .arr

theorem madeOf_obj_iff {ms : Members} : MadeOf p (.obj ms) ↔ ∀ m ∈ ms, MadeOf p m.2 := by
  constructor
  · rintro (⟨-, hobj⟩ | _ | h)
    · exact absurd rfl (hobj ms)
    · exact h
  · exact .obj

theorem MadeOf.sortKeys (h : MadeOf p j) : MadeOf p j.sortKeys := by
  induction h with
  | @scalar j harr hobj hj =>
      have hsame : j.sortKeys = j := by
        cases j with
        | arr items => exact absurd rfl (harr items)
        | obj ms => exact absurd rfl (hobj ms)
        | null | bool | int | double | str => rfl
      rw [hsame]
      exact .scalar harr hobj hj
  | arr _ ih =>
      rw [sortKeys_arr]
      refine .arr fun j hj => ?_
      obtain ⟨i, hi, rfl⟩ := List.mem_map.mp hj
      exact ih i hi
  | obj _ ih =>
      rw [sortKeys_obj]
      refine .obj fun m hm => ?_
      obtain ⟨n, hn, rfl⟩ := List.mem_map.mp ((Members.sortByKey_perm _).mem_iff.mp hm)
      exact ih n hn

/-! ## Patches make nothing up -/

theorem MadeOf.of_child? {step : String} (h : MadeOf p j) (hv : j.child? step = some v) :
    MadeOf p v := by
  cases j with
  | null | bool | int | double | str => cases hv
  | arr items =>
      obtain ⟨i, -, hi⟩ := Option.bind_eq_some_iff.mp hv
      exact madeOf_arr_iff.mp h v (List.mem_of_getElem? hi)
  | obj ms => exact madeOf_obj_iff.mp h _ (Members.mem_of_get? hv)

theorem MadeOf.of_at? {path : Pointer} (h : MadeOf p j) (hv : j.at? path = some v) :
    MadeOf p v := by
  induction path generalizing j with
  | nil => exact Option.some.inj hv ▸ h
  | cons step rest ih =>
      obtain ⟨inside, hinside, hv⟩ := Option.bind_eq_some_iff.mp hv
      exact ih (h.of_child? hinside) hv

theorem MadeOf.put {ms : Members} {key : String} (h : MadeOf p (.obj ms)) (hv : MadeOf p v) :
    MadeOf p (.obj (ms.put key v)) := by
  refine .obj fun m hm => ?_
  rcases Members.mem_put hm with rfl | hm
  · exact hv
  · exact madeOf_obj_iff.mp h m hm

theorem MadeOf.arr_of_mem {xs xs' : List Json} (h : MadeOf p (.arr xs)) (hv : MadeOf p v)
    (hmem : ∀ j ∈ xs', j = v ∨ j ∈ xs) : MadeOf p (.arr xs') := by
  refine .arr fun j hj => ?_
  rcases hmem j hj with rfl | hj
  · exact hv
  · exact madeOf_arr_iff.mp h j hj

theorem MadeOf.of_setChild {step : String} {r : Json} (h : MadeOf p j) (hv : MadeOf p v)
    (hr : setChild step v j = some r) : MadeOf p r := by
  cases j with
  | null | bool | int | double | str => cases hr
  | arr items =>
      obtain ⟨i, -, hr⟩ := Option.bind_eq_some_iff.mp hr
      obtain ⟨-, hr⟩ := Option.ite_none_right_eq_some.mp hr
      obtain rfl := Option.some.inj hr
      exact h.arr_of_mem hv fun j hj => (List.mem_or_eq_of_mem_set hj).symm
  | obj ms =>
      obtain ⟨-, hr⟩ := Option.ite_none_right_eq_some.mp hr
      obtain rfl := Option.some.inj hr
      exact h.put hv

theorem MadeOf.of_addChild {step : String} {r : Json} (h : MadeOf p j) (hv : MadeOf p v)
    (hr : addChild step v j = some r) : MadeOf p r := by
  cases j with
  | null | bool | int | double | str => cases hr
  | obj ms =>
      obtain rfl := Option.some.inj hr
      exact h.put hv
  | arr items =>
      simp only [addChild] at hr
      split at hr
      · obtain rfl := Option.some.inj hr
        exact h.arr_of_mem hv fun j hj => by simpa [or_comm] using hj
      · obtain ⟨i, -, hr⟩ := Option.bind_eq_some_iff.mp hr
        obtain ⟨hle, hr⟩ := Option.ite_none_right_eq_some.mp hr
        obtain rfl := Option.some.inj hr
        exact h.arr_of_mem hv fun j hj => (List.mem_insertIdx hle).mp hj

theorem MadeOf.of_removeChild {step : String} {r : Json} (h : MadeOf p j)
    (hr : removeChild step j = some r) : MadeOf p r := by
  cases j with
  | null | bool | int | double | str => cases hr
  | arr items =>
      obtain ⟨i, -, hr⟩ := Option.bind_eq_some_iff.mp hr
      obtain ⟨-, hr⟩ := Option.ite_none_right_eq_some.mp hr
      obtain rfl := Option.some.inj hr
      exact .arr fun j hj => madeOf_arr_iff.mp h j (List.mem_of_mem_eraseIdx hj)
  | obj ms =>
      obtain ⟨-, hr⟩ := Option.ite_none_right_eq_some.mp hr
      obtain rfl := Option.some.inj hr
      exact .obj fun m hm => madeOf_obj_iff.mp h m (List.mem_filter.mp hm).1

theorem MadeOf.of_changeHolder {change : String → Json → Option Json}
    (hchange : ∀ step x r, MadeOf p x → change step x = some r → MadeOf p r) {path : Pointer}
    {r : Json} (h : MadeOf p j) (hr : changeHolder change path j = some r) : MadeOf p r := by
  induction path generalizing j r with
  | nil => cases hr
  | cons step rest ih =>
      cases rest with
      | nil => exact hchange step j r h hr
      | cons next rest =>
          obtain ⟨inside, hinside, hr⟩ := Option.bind_eq_some_iff.mp hr
          obtain ⟨inside', hinside', hr⟩ := Option.bind_eq_some_iff.mp hr
          exact h.of_setChild (ih (h.of_child? hinside) hinside') hr

theorem MadeOf.of_addAt {path : Pointer} {r : Json} (h : MadeOf p j) (hv : MadeOf p v)
    (hr : j.addAt path v = some r) : MadeOf p r := by
  cases path with
  | nil => exact Option.some.inj hr ▸ hv
  | cons step rest => exact h.of_changeHolder (fun _ _ _ hx => hx.of_addChild hv) hr

theorem MadeOf.of_replaceAt {path : Pointer} {r : Json} (h : MadeOf p j) (hv : MadeOf p v)
    (hr : j.replaceAt path v = some r) : MadeOf p r := by
  cases path with
  | nil => exact Option.some.inj hr ▸ hv
  | cons step rest => exact h.of_changeHolder (fun _ _ _ hx => hx.of_setChild hv) hr

theorem MadeOf.of_removeAt {path : Pointer} {r : Json} (h : MadeOf p j)
    (hr : j.removeAt path = some r) : MadeOf p r :=
  h.of_changeHolder (fun _ _ _ hx => hx.of_removeChild) hr

namespace Patch

/-- The value that an operation brings along has such scalars. -/
def Operation.Brings (p : Json → Prop) : Operation → Prop
  | .add _ value | .replace _ value | .test _ value => MadeOf p value
  | .remove _ | .move _ _ | .copy _ _ => True

theorem Operation.brings_of_read? {op : Operation} (hj : MadeOf p j)
    (h : Operation.read? j = some op) : op.Brings p := by
  cases j with
  | null | bool | int | double | str | arr => simp [Operation.read?, members?] at h
  | obj ms =>
      have hvalue : ∀ v, Members.get? "value" ms = some v → MadeOf p v := fun v hv =>
        madeOf_obj_iff.mp hj _ (Members.mem_of_get? hv)
      simp only [Operation.read?, members?, Option.bind_eq_bind, Option.bind_some,
        Option.bind_eq_some_iff] at h
      obtain ⟨-, -, word, -, path, -, h⟩ := h
      split at h <;> simp only [Option.bind_eq_some_iff, Option.pure_def, Option.some.injEq,
        reduceCtorEq] at h
      · obtain ⟨v, hv, rfl⟩ := h
        exact hvalue v hv
      · subst h
        trivial
      · obtain ⟨v, hv, rfl⟩ := h
        exact hvalue v hv
      · obtain ⟨source, -, rfl⟩ := h
        trivial
      · obtain ⟨source, -, rfl⟩ := h
        trivial
      · obtain ⟨v, hv, rfl⟩ := h
        exact hvalue v hv

/-- An operation makes no scalar up: what is in its result was there or is brought along. -/
theorem Operation.madeOf_result? {op : Operation} {r : Json} (h : MadeOf p j) (hop : op.Brings p)
    (hr : op.result? j = some r) : MadeOf p r := by
  cases op with
  | add path value => exact h.of_addAt hop hr
  | remove path => exact h.of_removeAt hr
  | replace path value => exact h.of_replaceAt hop hr
  | move source path =>
      obtain ⟨v, hv, hr⟩ := Option.bind_eq_some_iff.mp hr
      split at hr
      · exact Option.some.inj hr ▸ h
      · split at hr
        · cases hr
        · obtain ⟨rest, hrest, hr⟩ := Option.bind_eq_some_iff.mp hr
          exact (h.of_removeAt hrest).of_addAt (h.of_at? hv) hr
  | copy source path =>
      obtain ⟨v, hv, hr⟩ := Option.bind_eq_some_iff.mp hr
      exact h.of_addAt (h.of_at? hv) hr
  | test path value =>
      obtain ⟨v, -, hr⟩ := Option.bind_eq_some_iff.mp hr
      obtain ⟨-, hr⟩ := Option.ite_none_right_eq_some.mp hr
      exact Option.some.inj hr ▸ h

theorem madeOf_resultOfAll? {ops : List Operation} {r : Json} (h : MadeOf p j)
    (hops : ∀ op ∈ ops, op.Brings p) (hr : resultOfAll? ops j = some r) : MadeOf p r := by
  induction ops generalizing j with
  | nil => exact Option.some.inj hr ▸ h
  | cons op rest ih =>
      obtain ⟨next, hnext, hr⟩ := Option.bind_eq_some_iff.mp hr
      obtain ⟨hop, hrest⟩ := List.forall_mem_cons.mp hops
      exact ih (Operation.madeOf_result? h hop hnext) hrest hr

theorem madeOf_result? {patch : List Json} {r : Json} (h : MadeOf p j)
    (hpatch : ∀ x ∈ patch, MadeOf p x) (hr : result? patch j = some r) : MadeOf p r := by
  obtain ⟨ops, hops, hr⟩ := Option.bind_eq_some_iff.mp hr
  refine madeOf_resultOfAll? h (fun op hop => ?_) hr
  obtain ⟨x, hx, hread⟩ := exists_of_mem_mapM hops hop
  exact Operation.brings_of_read? (hpatch x hx) hread

end Patch

end ChainFold.Json
