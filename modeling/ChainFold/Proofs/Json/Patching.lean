import ChainFold.Json.Patch
import ChainFold.Proofs.Json.KeyOrder
import Mathlib.Data.List.InsertIdx

/-!
# Patching alike values

A patch cannot tell alike values apart: applied to both it fails on both, or its
results are alike again.  In particular a patch keeps a tidy value tidy.
-/

namespace ChainFold.Json

/-! ## Parts of alike values -/

theorem AlikePart.bind {a b : Option Json} {f g : Json → Option Json} (h : AlikePart a b)
    (hfg : ∀ x y, x.Alike y → AlikePart (f x) (g y)) : AlikePart (a.bind f) (b.bind g) := by
  cases a <;> cases b <;> simp [AlikePart] at h ⊢
  exact hfg _ _ h

theorem AlikePart.isSome_eq {a b : Option Json} (h : AlikePart a b) : a.isSome = b.isSome := by
  cases a <;> cases b <;> simp [AlikePart] at h ⊢

theorem AlikePart.cases {a b : Option Json} (h : AlikePart a b) :
    (a = none ∧ b = none) ∨ ∃ x y, a = some x ∧ b = some y ∧ x.Alike y := by
  cases a <;> cases b <;> simp [AlikePart] at h ⊢
  exact h

theorem alike_getElem? {xs ys : List Json} (h : (arr xs).Alike (arr ys)) (i : Nat) :
    AlikePart xs[i]? ys[i]? := by
  obtain ⟨hx, hy, hs⟩ := alike_arr_iff.mp h
  refine alikePart_iff.mpr ⟨?_, ?_, ?_⟩
  · exact fun x hi => hx x (List.mem_of_getElem? hi)
  · exact fun y hi => hy y (List.mem_of_getElem? hi)
  · rw [← List.getElem?_map, ← List.getElem?_map, hs]

theorem alike_length {xs ys : List Json} (h : (arr xs).Alike (arr ys)) :
    xs.length = ys.length := by
  simpa using congrArg List.length (alike_arr_iff.mp h).2.2

theorem alike_child? {x y : Json} (h : x.Alike y) (step : String) :
    AlikePart (x.child? step) (y.child? step) := by
  rcases h.cases with ⟨rfl, harr, hobj⟩ | ⟨xs, ys, rfl, rfl⟩ | ⟨ms, ns, rfl, rfl⟩
  · cases x with
    | arr items => exact absurd rfl (harr items)
    | obj ms => exact absurd rfl (hobj ms)
    | null | bool | int | double | str => trivial
  · cases hi : Pointer.index? step with
    | none => simp [child?, hi, AlikePart]
    | some i => simpa [child?, hi] using alike_getElem? h i
  · exact (alike_obj_iff.mp h).2 step

theorem alike_at? {x y : Json} (h : x.Alike y) (path : Pointer) :
    AlikePart (x.at? path) (y.at? path) := by
  induction path generalizing x y with
  | nil => exact h
  | cons step rest ih => exact (alike_child? h step).bind fun _ _ hc => ih hc

/-! ## Changing one child -/

theorem alike_put {ms ns : Members} {v w : Json} (h : (obj ms).Alike (obj ns))
    (hv : v.Alike w) (key : String) :
    (obj (ms.put key v)).Alike (obj (ns.put key w)) := by
  obtain ⟨⟨hm, hn⟩, hparts⟩ := alike_obj_iff.mp h
  refine alike_obj_iff.mpr ⟨⟨Members.nodup_keys_put hm, Members.nodup_keys_put hn⟩, ?_⟩
  intro other
  rw [Members.get?_put, Members.get?_put]
  by_cases hk : key = other
  · simpa [hk, AlikePart] using hv
  · simpa [hk] using hparts other

theorem alike_erase {ms ns : Members} (h : (obj ms).Alike (obj ns)) (key : String) :
    (obj (ms.erase key)).Alike (obj (ns.erase key)) := by
  obtain ⟨⟨hm, hn⟩, hparts⟩ := alike_obj_iff.mp h
  refine alike_obj_iff.mpr ⟨⟨Members.nodup_keys_erase hm, Members.nodup_keys_erase hn⟩, ?_⟩
  intro other
  rw [Members.get?_erase, Members.get?_erase]
  by_cases hk : key = other
  · simp [hk, AlikePart]
  · simpa [hk] using hparts other

theorem alike_has {ms ns : Members} (h : (obj ms).Alike (obj ns)) (key : String) :
    ms.has key = ns.has key :=
  ((alike_obj_iff.mp h).2 key).isSome_eq

/-- A change of lists that only moves, drops or adds given items keeps arrays alike. -/
theorem alike_arr_of_map {xs ys xs' ys' : List Json} {v w : Json}
    (h : (arr xs).Alike (arr ys)) (hv : v.Alike w)
    (hx : ∀ j ∈ xs', j = v ∨ j ∈ xs) (hy : ∀ j ∈ ys', j = w ∨ j ∈ ys)
    (hs : xs.map sortKeys = ys.map sortKeys → v.sortKeys = w.sortKeys →
      xs'.map sortKeys = ys'.map sortKeys) :
    (arr xs').Alike (arr ys') := by
  obtain ⟨hxt, hyt, hsorted⟩ := alike_arr_iff.mp h
  refine alike_arr_iff.mpr ⟨?_, ?_, hs hsorted hv.sorted⟩
  · intro j hj
    rcases hx j hj with rfl | hj
    · exact hv.left
    · exact hxt j hj
  · intro j hj
    rcases hy j hj with rfl | hj
    · exact hv.right
    · exact hyt j hj

theorem alike_setChild {x y v w : Json} (h : x.Alike y) (hv : v.Alike w) (step : String) :
    AlikePart (setChild step v x) (setChild step w y) := by
  rcases h.cases with ⟨rfl, harr, hobj⟩ | ⟨xs, ys, rfl, rfl⟩ | ⟨ms, ns, rfl, rfl⟩
  · cases x with
    | arr items => exact absurd rfl (harr items)
    | obj ms => exact absurd rfl (hobj ms)
    | null | bool | int | double | str => trivial
  · cases hi : Pointer.index? step with
    | none => simp [setChild, hi, AlikePart]
    | some i =>
        by_cases hlt : i < xs.length
        · have hlt' : i < ys.length := alike_length h ▸ hlt
          simp only [setChild, hi, hlt, hlt', Option.bind_eq_bind, Option.bind_some, if_pos]
          refine alike_arr_of_map h hv ?_ ?_ ?_
          · exact fun j hj => (List.mem_or_eq_of_mem_set hj).symm
          · exact fun j hj => (List.mem_or_eq_of_mem_set hj).symm
          · intro hs hvw
            rw [List.map_set, List.map_set, hs, hvw]
        · have hlt' : ¬ i < ys.length := alike_length h ▸ hlt
          simp [setChild, hi, hlt, hlt', AlikePart]
  · by_cases hhas : Members.has step ms = true
    · have hhas' : Members.has step ns = true := alike_has h step ▸ hhas
      simpa [setChild, hhas, hhas', AlikePart] using alike_put h hv step
    · have hhas' : ¬ Members.has step ns = true := alike_has h step ▸ hhas
      simp [setChild, hhas, hhas', AlikePart]

theorem alike_addChild {x y v w : Json} (h : x.Alike y) (hv : v.Alike w) (step : String) :
    AlikePart (addChild step v x) (addChild step w y) := by
  rcases h.cases with ⟨rfl, harr, hobj⟩ | ⟨xs, ys, rfl, rfl⟩ | ⟨ms, ns, rfl, rfl⟩
  · cases x with
    | arr items => exact absurd rfl (harr items)
    | obj ms => exact absurd rfl (hobj ms)
    | null | bool | int | double | str => trivial
  · by_cases hend : (step == "-") = true
    · simp only [addChild, hend, if_pos]
      refine alike_arr_of_map h hv ?_ ?_ ?_
      · intro j hj
        simpa [or_comm] using hj
      · intro j hj
        simpa [or_comm] using hj
      · intro hs hvw
        simp [hs, hvw]
    · cases hi : Pointer.index? step with
      | none => simp [addChild, hend, hi, AlikePart]
      | some i =>
          by_cases hle : i ≤ xs.length
          · have hle' : i ≤ ys.length := alike_length h ▸ hle
            simp only [addChild, hend, hi, hle, hle', Option.bind_eq_bind, Option.bind_some,
              if_pos]
            refine alike_arr_of_map h hv ?_ ?_ ?_
            · exact fun j hj => (List.mem_insertIdx hle).mp hj
            · exact fun j hj => (List.mem_insertIdx hle').mp hj
            · intro hs hvw
              rw [List.map_insertIdx, List.map_insertIdx, hs, hvw]
          · have hle' : ¬ i ≤ ys.length := alike_length h ▸ hle
            simp [addChild, hend, hi, hle, hle', AlikePart]
  · simpa [addChild, AlikePart] using alike_put h hv step

theorem alike_removeChild {x y : Json} (h : x.Alike y) (step : String) :
    AlikePart (removeChild step x) (removeChild step y) := by
  rcases h.cases with ⟨rfl, harr, hobj⟩ | ⟨xs, ys, rfl, rfl⟩ | ⟨ms, ns, rfl, rfl⟩
  · cases x with
    | arr items => exact absurd rfl (harr items)
    | obj ms => exact absurd rfl (hobj ms)
    | null | bool | int | double | str => trivial
  · cases hi : Pointer.index? step with
    | none => simp [removeChild, hi, AlikePart]
    | some i =>
        by_cases hlt : i < xs.length
        · have hlt' : i < ys.length := alike_length h ▸ hlt
          simp only [removeChild, hi, hlt, hlt', Option.bind_eq_bind, Option.bind_some, if_pos]
          have hnull : Json.null.Alike .null := Alike.refl trivial
          refine alike_arr_of_map h hnull ?_ ?_ ?_
          · exact fun j hj => Or.inr (List.mem_of_mem_eraseIdx hj)
          · exact fun j hj => Or.inr (List.mem_of_mem_eraseIdx hj)
          · intro hs _
            rw [← List.eraseIdx_map, ← List.eraseIdx_map, hs]
        · have hlt' : ¬ i < ys.length := alike_length h ▸ hlt
          simp [removeChild, hi, hlt, hlt', AlikePart]
  · by_cases hhas : Members.has step ms = true
    · have hhas' : Members.has step ns = true := alike_has h step ▸ hhas
      simpa [removeChild, hhas, hhas', AlikePart] using alike_erase h step
    · have hhas' : ¬ Members.has step ns = true := alike_has h step ▸ hhas
      simp [removeChild, hhas, hhas', AlikePart]

/-! ## Changing a place -/

theorem alike_changeHolder {f g : String → Json → Option Json}
    (hfg : ∀ step x y, x.Alike y → AlikePart (f step x) (g step y))
    {x y : Json} (h : x.Alike y) (path : Pointer) :
    AlikePart (changeHolder f path x) (changeHolder g path y) := by
  induction path generalizing x y with
  | nil => trivial
  | cons step rest ih =>
      cases rest with
      | nil => exact hfg step x y h
      | cons next rest =>
          refine (alike_child? h step).bind ?_
          intro a b hab
          refine (ih hab).bind ?_
          intro a' b' hab'
          exact alike_setChild h hab' step

theorem alike_addAt {x y v w : Json} (h : x.Alike y) (hv : v.Alike w) (path : Pointer) :
    AlikePart (x.addAt path v) (y.addAt path w) := by
  cases path with
  | nil => exact hv
  | cons step rest =>
      exact alike_changeHolder (fun step _ _ hxy => alike_addChild hxy hv step) h (step :: rest)

theorem alike_removeAt {x y : Json} (h : x.Alike y) (path : Pointer) :
    AlikePart (x.removeAt path) (y.removeAt path) :=
  alike_changeHolder (fun step _ _ hxy => alike_removeChild hxy step) h path

theorem alike_replaceAt {x y v w : Json} (h : x.Alike y) (hv : v.Alike w) (path : Pointer) :
    AlikePart (x.replaceAt path v) (y.replaceAt path w) := by
  cases path with
  | nil => exact hv
  | cons step rest =>
      exact alike_changeHolder (fun step _ _ hxy => alike_setChild hxy hv step) h (step :: rest)

/-! ## Operations and patches -/

namespace Patch

/-- The value that an operation brings along is tidy. -/
def Operation.Tidy : Operation → Prop
  | .add _ value | .replace _ value | .test _ value => value.Tidy
  | .remove _ | .move _ _ | .copy _ _ => True

theorem Operation.tidy_of_read? {j : Json} {op : Operation} (hj : j.Tidy)
    (h : Operation.read? j = some op) : op.Tidy := by
  cases j with
  | null | bool | int | double | str | arr => simp [Operation.read?, members?] at h
  | obj ms =>
      have hvalue : ∀ v, Members.get? "value" ms = some v → v.Tidy := fun v hv =>
        (tidy_obj_iff.mp hj).2 _ (Members.mem_of_get? hv)
      simp only [Operation.read?, members?, Option.bind_eq_bind, Option.bind_some,
        Option.bind_eq_some_iff] at h
      obtain ⟨-, -, word, -, path, -, h⟩ := h
      split at h <;> simp only [Option.bind_eq_some_iff, Option.pure_def, Option.some.injEq,
        reduceCtorEq] at h
      · obtain ⟨v, hv, rfl⟩ := h
        exact hvalue v hv
      · subst h
        trivial
      · obtain ⟨v, hv, rfl⟩ := h
        exact hvalue v hv
      · obtain ⟨source, -, rfl⟩ := h
        trivial
      · obtain ⟨source, -, rfl⟩ := h
        trivial
      · obtain ⟨v, hv, rfl⟩ := h
        exact hvalue v hv

/-- One operation fails on both of two alike values, or leaves them alike. -/
theorem Operation.alike_result? {x y : Json} (h : x.Alike y) {op : Operation} (hop : op.Tidy) :
    AlikePart (op.result? x) (op.result? y) := by
  cases op with
  | add path value => exact alike_addAt h (Alike.refl hop) path
  | remove path => exact alike_removeAt h path
  | replace path value => exact alike_replaceAt h (Alike.refl hop) path
  | move source path =>
      refine (alike_at? h source).bind ?_
      intro a b hab
      by_cases hsame : source = path
      · simpa [hsame, AlikePart] using h
      · by_cases hinside : source.isPrefixOf path = true
        · simp [hsame, hinside, AlikePart]
        · simp only [hsame, hinside, if_false]
          exact (alike_removeAt h source).bind fun _ _ hrest => alike_addAt hrest hab path
  | copy source path =>
      exact (alike_at? h source).bind fun _ _ hab => alike_addAt h hab path
  | test path value =>
      refine (alike_at? h path).bind ?_
      intro a b hab
      have hsame : strictlySame a value = strictlySame b value := hab.same_eq false value
      by_cases hval : strictlySame b value = true
      · simpa [hsame, hval, AlikePart] using h
      · simp [hsame, hval, AlikePart]

theorem alike_resultOfAll? {x y : Json} (h : x.Alike y) {ops : List Operation}
    (hops : ∀ op ∈ ops, op.Tidy) :
    AlikePart (resultOfAll? ops x) (resultOfAll? ops y) := by
  induction ops generalizing x y with
  | nil => exact h
  | cons op rest ih =>
      refine (Operation.alike_result? h (hops op List.mem_cons_self)).bind ?_
      exact fun _ _ hxy => ih hxy fun op hop => hops op (List.mem_cons_of_mem _ hop)

theorem exists_of_mem_mapM {α β : Type} {f : α → Option β} {l : List α} {bs : List β}
    (h : l.mapM f = some bs) {b : β} (hb : b ∈ bs) : ∃ a ∈ l, f a = some b := by
  induction l generalizing bs with
  | nil =>
      simp only [List.mapM_nil, Option.pure_def, Option.some.injEq] at h
      simp [← h] at hb
  | cons a rest ih =>
      simp only [List.mapM_cons, Option.bind_eq_bind, Option.bind_eq_some_iff, Option.pure_def,
        Option.some.injEq] at h
      obtain ⟨c, hc, cs, hcs, rfl⟩ := h
      rcases List.mem_cons.mp hb with rfl | hb
      · exact ⟨a, List.mem_cons_self, hc⟩
      · obtain ⟨a', ha', hfa⟩ := ih hcs hb
        exact ⟨a', List.mem_cons_of_mem _ ha', hfa⟩

/-- A patch fails on both of two alike values, or leaves them alike. -/
theorem alike_result? {x y : Json} (h : x.Alike y) {patch : List Json}
    (hpatch : ∀ j ∈ patch, j.Tidy) :
    AlikePart (result? patch x) (result? patch y) := by
  unfold result?
  cases hops : patch.mapM Operation.read? with
  | none => trivial
  | some ops =>
      refine alike_resultOfAll? h ?_
      intro op hop
      obtain ⟨j, hj, hread⟩ := exists_of_mem_mapM hops hop
      exact Operation.tidy_of_read? (hpatch j hj) hread

end Patch

end ChainFold.Json
