import ChainFold.Proofs.Json.KeyOrder
import ChainFold.Proofs.Json.Numerals
import ChainFold.Store.Tables

/-!
# Texts are faithful

A plain value has a text, and its canonical and its archived text are both read as the
value, up to the order of the members of objects.  As a consequence the canonical text
tells values apart: two plain values have the same one exactly if they are the same up
to that order.
-/

namespace ChainFold.Json

/-! ## Plain values -/

/--
What can be written and read back: doubles are finite, integers are not too long, and
no object has a key twice.
-/
inductive Plain : Json → Prop
  | null : Plain .null
  | bool (b : Bool) : Plain (.bool b)
  | int {n : Int} (h : Text.isTooLong n = false) : Plain (.int n)
  | double {d : Double} (h : d.isFinite = true) : Plain (.double d)
  | str (s : String) : Plain (.str s)
  | arr {items : List Json} (h : ∀ j ∈ items, Plain j) : Plain (.arr items)
  | obj {ms : Members} (hkeys : ms.keys.Nodup) (h : ∀ m ∈ ms, Plain m.2) : Plain (.obj ms)

theorem Plain.tidy {j : Json} (h : j.Plain) : j.Tidy := by
  induction h with
  | null | bool | int | double | str => trivial
  | arr _ ih => exact tidy_arr_iff.mpr ih
  | obj hkeys _ ih => exact tidy_obj_iff.mpr ⟨hkeys, ih⟩

theorem Plain.readBack {j : Json} (h : j.Plain) (ascii : Bool) : ReadBack ascii j := by
  induction h with
  | null => exact readBack_null
  | bool b => exact readBack_bool b
  | int h => exact readBack_int h
  | double h => exact readBack_double h
  | str s => exact readBack_str s
  | arr _ ih => exact readBack_arr ih
  | obj hkeys _ ih => exact readBack_obj hkeys ih

theorem Plain.sortKeys {j : Json} (h : j.Plain) : j.sortKeys.Plain := by
  induction h with
  | null => exact .null
  | bool b => exact .bool b
  | int h => exact .int h
  | double h => exact .double h
  | str s => exact .str s
  | arr _ ih =>
      rw [sortKeys_arr]
      refine .arr fun j hj => ?_
      obtain ⟨i, hi, rfl⟩ := List.mem_map.mp hj
      exact ih i hi
  | obj hkeys _ ih =>
      rw [sortKeys_obj]
      refine .obj (Members.nodup_keys_sortByKey (nodup_keys_sortMembers hkeys)) fun m hm => ?_
      obtain ⟨n, hn, rfl⟩ := List.mem_map.mp ((Members.sortByKey_perm _).mem_iff.mp hm)
      exact ih n hn

/-! ## The same up to the order of members -/

/--
The same value up to the order of members: equal in kind and value, item by item, and
under the same keys.
-/
inductive SameUpToOrder : Json → Json → Prop
  | null : SameUpToOrder .null .null
  | bool (b : Bool) : SameUpToOrder (.bool b) (.bool b)
  | int (n : Int) : SameUpToOrder (.int n) (.int n)
  | double (d : Double) : SameUpToOrder (.double d) (.double d)
  | str (s : String) : SameUpToOrder (.str s) (.str s)
  | arr {xs ys : List Json} (hlength : xs.length = ys.length)
      (h : ∀ (i : Nat) x y, xs[i]? = some x → ys[i]? = some y → SameUpToOrder x y) :
      SameUpToOrder (.arr xs) (.arr ys)
  | obj {ms ns : Members} (hkeys : ms.keys.Perm ns.keys)
      (h : ∀ key x y, ms.get? key = some x → ns.get? key = some y → SameUpToOrder x y) :
      SameUpToOrder (.obj ms) (.obj ns)

theorem SameUpToOrder.eq_of_scalar {x y : Json} (h : SameUpToOrder x y)
    (harr : ∀ items, x ≠ .arr items) (hobj : ∀ ms, x ≠ .obj ms) : x = y := by
  cases h with
  | null | bool | int | double | str => rfl
  | arr => exact absurd rfl (harr _)
  | obj => exact absurd rfl (hobj _)

theorem SameUpToOrder.sortKeys_eq {x y : Json} (h : SameUpToOrder x y) (hx : x.Tidy)
    (hy : y.Tidy) : x.sortKeys = y.sortKeys := by
  induction h with
  | null | bool | int | double | str => rfl
  | @arr xs ys hlength _ ih =>
      rw [sortKeys_arr, sortKeys_arr]
      congr 1
      refine List.ext_getElem (by simpa using hlength) fun i hi hi' => ?_
      rw [List.getElem_map, List.getElem_map]
      have hxi : i < xs.length := by simpa using hi
      have hyi : i < ys.length := by simpa using hi'
      exact ih i _ _ (List.getElem?_eq_getElem hxi) (List.getElem?_eq_getElem hyi)
        (tidy_arr_iff.mp hx _ (List.getElem_mem hxi)) (tidy_arr_iff.mp hy _ (List.getElem_mem hyi))
  | @obj ms ns hkeys _ ih =>
      obtain ⟨hm, hms⟩ := tidy_obj_iff.mp hx
      obtain ⟨hn, hns⟩ := tidy_obj_iff.mp hy
      rw [sortKeys_obj_eq_iff hm hn]
      intro key
      have hmiss : ms.get? key = none ↔ ns.get? key = none := by
        rw [Members.get?_eq_none_iff, Members.get?_eq_none_iff, hkeys.mem_iff]
      cases hleft : ms.get? key with
      | none => rw [hmiss.mp hleft]
      | some a =>
          cases hright : ns.get? key with
          | none => rw [hmiss.mpr hright] at hleft; cases hleft
          | some b =>
              rw [Option.map_some, Option.map_some]
              exact congrArg some (ih key a b hleft hright
                (hms _ (Members.mem_of_get? hleft)) (hns _ (Members.mem_of_get? hright)))

theorem AlikePart.eq_none_iff {a b : Option Json} (h : AlikePart a b) : a = none ↔ b = none := by
  cases a with
  | none => cases b <;> simp_all [AlikePart]
  | some x => cases b <;> simp_all [AlikePart]

theorem Alike.sameUpToOrder {x y : Json} (h : x.Alike y) : SameUpToOrder x y := by
  induction x using inductionOnParts generalizing y with
  | null | bool | int | double | str =>
      obtain ⟨rfl, -⟩ | ⟨xs, ys, hx, -⟩ | ⟨ms, ns, hx, -⟩ := h.cases
      · constructor
      · cases hx
      · cases hx
  | arr xs ih =>
      obtain ⟨-, hne, -⟩ | ⟨xs', ys, hx, rfl⟩ | ⟨ms, ns, hx, -⟩ := h.cases
      · exact absurd rfl (hne xs)
      · cases hx
        obtain ⟨hxs, hys, hmap⟩ := alike_arr_iff.mp h
        refine .arr (by simpa using congrArg List.length hmap) fun i a b ha hb => ?_
        have ha' := List.mem_of_getElem? ha
        refine ih a ha' ⟨hxs a ha', hys b (List.mem_of_getElem? hb), ?_⟩
        have hat := congrArg (fun l => l[i]?) hmap
        simpa only [List.getElem?_map, ha, hb, Option.map_some, Option.some.injEq] using hat
      · cases hx
  | obj ms ih =>
      obtain ⟨-, -, hne⟩ | ⟨xs, ys, hx, -⟩ | ⟨ms', ns, hx, rfl⟩ := h.cases
      · exact absurd rfl (hne ms)
      · cases hx
      · cases hx
        obtain ⟨⟨hm, hn⟩, hparts⟩ := alike_obj_iff.mp h
        refine .obj ((List.perm_ext_iff_of_nodup hm hn).mpr fun key => ?_) fun key a b ha hb => ?_
        · rw [← not_iff_not, ← Members.get?_eq_none_iff, ← Members.get?_eq_none_iff]
          exact (hparts key).eq_none_iff
        · have hpart := hparts key
          rw [ha, hb] at hpart
          exact ih _ (Members.mem_of_get? ha) hpart

/-- Tidy values are alike exactly if they are the same up to the order of members. -/
theorem alike_iff_sameUpToOrder {x y : Json} (hx : x.Tidy) (hy : y.Tidy) :
    x.Alike y ↔ SameUpToOrder x y :=
  ⟨Alike.sameUpToOrder, fun h => ⟨hx, hy, h.sortKeys_eq hx hy⟩⟩

/-! ## Texts -/

theorem Plain.readText_canonical {j : Json} (h : j.Plain) :
    readText j.canonical = .ok j.sortKeys := by
  rw [readText, canonical, String.toList_ofList]
  exact (h.sortKeys.readBack false).read_print

theorem Plain.readText_archived {j : Json} (h : j.Plain) :
    readText j.archived = .ok j.sortKeys := by
  rw [readText, archived, String.toList_ofList]
  exact (h.sortKeys.readBack true).read_print

theorem Plain.alike_of_canonical_eq {v w : Json} (hv : v.Plain) (hw : w.Plain)
    (h : v.canonical = w.canonical) : v.Alike w := by
  have hread := hv.readText_canonical
  rw [h, hw.readText_canonical] at hread
  exact ⟨hv.tidy, hw.tidy, (Except.ok.inj hread).symm⟩

/--
The texts of a plain value are read as the value, which is what a relational backend
keeps of it; and the canonical text is that of exactly the values that are the same up
to the order of members.
-/
theorem Plain.texts_faithful {v : Json} (hv : v.Plain) :
    (∃ r, readText v.canonical = .ok r ∧ readText v.archived = .ok r ∧
      readBytes (Text.utf8 v.archived) = .ok r ∧ SameUpToOrder v r ∧
      ∀ b : Backend, b.isRelational = true → b.keptJson v = r) ∧
    ∀ w : Json, w.Plain → (v.canonical = w.canonical ↔ SameUpToOrder v w) := by
  constructor
  · refine ⟨v.sortKeys, hv.readText_canonical, hv.readText_archived,
      readBytes_archived (hv.sortKeys.readBack true), ?_, ?_⟩
    · exact hv.tidy.alike_sortKeys.symm.sameUpToOrder
    · intro b hb
      rw [Backend.keptJson, if_pos hb]
  · intro w hw
    rw [← alike_iff_sameUpToOrder hv.tidy hw.tidy]
    exact ⟨hv.alike_of_canonical_eq hw, Alike.canonical_eq⟩

/-- A value of every kind, with its keys out of order. -/
def mixedValue : Json :=
  .obj [("text", .str "\x08\"\\é😀"), ("list", .arr [.null, .bool true, .int (-12)]),
    ("half", .double ⟨0x3fe0000000000000⟩)]

theorem mixedValue_plain : mixedValue.Plain := by
  refine .obj (by decide) ?_
  simp only [List.forall_mem_cons]
  refine ⟨.str _, .arr ?_, .double (by decide), nofun⟩
  simp only [List.forall_mem_cons]
  exact ⟨.null, .bool true, .int (by decide +kernel), nofun⟩

/-- The texts of a value of every kind; and numbers of the same quantity, and zeros, told apart. -/
theorem texts_faithful_mixed :
    mixedValue.Plain ∧
    (∃ r, readText mixedValue.canonical = .ok r ∧ readText mixedValue.archived = .ok r ∧
      readBytes (Text.utf8 mixedValue.archived) = .ok r ∧ SameUpToOrder mixedValue r ∧
      ∀ b : Backend, b.isRelational = true → b.keptJson mixedValue = r) ∧
    (int 1).canonical ≠ (double ⟨0x3ff0000000000000⟩).canonical ∧
    (int 1).canonical ≠ (bool true).canonical ∧
    (double ⟨0x3ff0000000000000⟩).canonical ≠ (bool true).canonical ∧
    (double (Double.zero false)).canonical ≠ (double (Double.zero true)).canonical := by
  have hint : (int 1).Plain := .int (by decide +kernel)
  have hone : (double ⟨0x3ff0000000000000⟩).Plain := .double (by decide)
  have hzero : (double (Double.zero false)).Plain := .double (by decide)
  have hminus : (double (Double.zero true)).Plain := .double (by decide)
  refine ⟨mixedValue_plain, mixedValue_plain.texts_faithful.1, ?_, ?_, ?_, ?_⟩
  · exact (hint.texts_faithful.2 _ hone).not.mpr nofun
  · exact (hint.texts_faithful.2 _ (.bool true)).not.mpr nofun
  · exact (hone.texts_faithful.2 _ (.bool true)).not.mpr nofun
  · rw [Ne, hzero.texts_faithful.2 _ hminus]
    intro hsame
    have heq := double.inj (hsame.eq_of_scalar nofun nofun)
    exact absurd heq (by decide)

end ChainFold.Json
