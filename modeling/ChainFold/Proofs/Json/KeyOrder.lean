import ChainFold.Json.Comparison
import ChainFold.Json.Printer
import ChainFold.Proofs.Json.Members

/-!
# Values up to the order of members

A value is tidy if none of its objects has a key twice.  Two tidy values are alike
if they differ at most in the order of the members of objects, at any depth.  What
a relational backend reads back is alike to what was written, and nothing that
folding or comparing values does tells alike values apart.
-/

namespace ChainFold.Json

/-- Induction over the parts of a value. -/
theorem inductionOnParts {P : Json → Prop}
    (null : P .null) (bool : ∀ b, P (.bool b)) (int : ∀ n, P (.int n))
    (double : ∀ d, P (.double d)) (str : ∀ s, P (.str s))
    (arr : ∀ items, (∀ j ∈ items, P j) → P (.arr items))
    (obj : ∀ ms : Members, (∀ m ∈ ms, P m.2) → P (.obj ms)) : ∀ j, P j
  | .null => null
  | .bool b => bool b
  | .int n => int n
  | .double d => double d
  | .str s => str s
  | .arr items =>
      arr items fun j _ => inductionOnParts null bool int double str arr obj j
  | .obj ms =>
      obj ms fun m _ => inductionOnParts null bool int double str arr obj m.2
  termination_by j => sizeOf j
  decreasing_by
  · have := List.sizeOf_lt_of_mem ‹j ∈ items›
    simp only [Json.arr.sizeOf_spec]
    omega
  · have := List.sizeOf_lt_of_mem ‹m ∈ ms›
    have : sizeOf m = 1 + sizeOf m.1 + sizeOf m.2 := rfl
    simp only [Json.obj.sizeOf_spec]
    omega

/-! ## Tidy values -/

mutual

/-- Every object in the value has each key once. -/
def Tidy : Json → Prop
  | .arr items => TidyItems items
  | .obj ms => (Members.keys ms).Nodup ∧ TidyMembers ms
  | _ => True

def TidyItems : List Json → Prop
  | [] => True
  | j :: rest => Tidy j ∧ TidyItems rest

def TidyMembers : List (String × Json) → Prop
  | [] => True
  | (_, j) :: rest => Tidy j ∧ TidyMembers rest

end

theorem tidyItems_iff (items : List Json) : TidyItems items ↔ ∀ j ∈ items, j.Tidy := by
  induction items with
  | nil => simp [TidyItems]
  | cons j rest ih => simp [TidyItems, ih]

theorem tidyMembers_iff (ms : Members) : TidyMembers ms ↔ ∀ m ∈ ms, m.2.Tidy := by
  induction ms with
  | nil => simp [TidyMembers]
  | cons m rest ih =>
      obtain ⟨k, j⟩ := m
      simp [TidyMembers, ih]

theorem tidy_arr_iff {items : List Json} : (arr items).Tidy ↔ ∀ j ∈ items, j.Tidy := by
  rw [Tidy, tidyItems_iff]

theorem tidy_obj_iff {ms : Members} :
    (obj ms).Tidy ↔ ms.keys.Nodup ∧ ∀ m ∈ ms, m.2.Tidy := by
  rw [Tidy, tidyMembers_iff]

theorem sortItems_eq_map (items : List Json) : sortItems items = items.map sortKeys := by
  induction items with
  | nil => rfl
  | cons j rest ih => rw [sortItems, ih, List.map_cons]

theorem sortMembers_eq_map (ms : Members) :
    sortMembers ms = ms.map fun m => (m.1, m.2.sortKeys) := by
  induction ms with
  | nil => rfl
  | cons m rest ih =>
      obtain ⟨k, j⟩ := m
      rw [sortMembers, ih, List.map_cons]

theorem sortKeys_arr (items : List Json) : (arr items).sortKeys = arr (items.map sortKeys) := by
  rw [sortKeys, sortItems_eq_map]

theorem sortKeys_obj (ms : Members) :
    (obj ms).sortKeys = obj (Members.sortByKey (ms.map fun m => (m.1, m.2.sortKeys))) := by
  rw [sortKeys, sortMembers_eq_map]

theorem nodup_keys_sortMembers {ms : Members} (hn : ms.keys.Nodup) :
    (Members.keys (ms.map fun m => (m.1, m.2.sortKeys))).Nodup := by
  rw [Members.keys_map]
  exact hn

theorem Tidy.sortKeys {j : Json} (h : j.Tidy) : j.sortKeys.Tidy := by
  induction j using inductionOnParts with
  | null | bool | int | double | str => exact h
  | arr items ih =>
      rw [sortKeys_arr, tidy_arr_iff]
      intro j hj
      obtain ⟨i, hi, rfl⟩ := List.mem_map.mp hj
      exact ih i hi (tidy_arr_iff.mp h i hi)
  | obj ms ih =>
      obtain ⟨hn, hms⟩ := tidy_obj_iff.mp h
      rw [sortKeys_obj, tidy_obj_iff]
      refine ⟨Members.nodup_keys_sortByKey (nodup_keys_sortMembers hn), ?_⟩
      intro m hm
      obtain ⟨n, hmem, rfl⟩ := List.mem_map.mp ((Members.sortByKey_perm _).mem_iff.mp hm)
      exact ih n hmem (hms n hmem)

theorem Tidy.sortKeys_sortKeys {j : Json} (h : j.Tidy) : j.sortKeys.sortKeys = j.sortKeys := by
  induction j using inductionOnParts with
  | null | bool | int | double | str => rfl
  | arr items ih =>
      rw [sortKeys_arr, sortKeys_arr, List.map_map]
      congr 1
      exact List.map_congr_left fun i hi => ih i hi (tidy_arr_iff.mp h i hi)
  | obj ms ih =>
      obtain ⟨hn, hms⟩ := tidy_obj_iff.mp h
      have hnodup := nodup_keys_sortMembers hn
      rw [sortKeys_obj, sortKeys_obj]
      congr 1
      -- The values are in order already, so the second pass finds ascending members.
      have hsame : ((Members.sortByKey (ms.map fun m => (m.1, m.2.sortKeys))).map
          fun m => (m.1, m.2.sortKeys)) =
            Members.sortByKey (ms.map fun m => (m.1, m.2.sortKeys)) := by
        conv_rhs => rw [← List.map_id (Members.sortByKey _)]
        refine List.map_congr_left ?_
        intro m hm
        obtain ⟨n, hmem, rfl⟩ := List.mem_map.mp ((Members.sortByKey_perm _).mem_iff.mp hm)
        simp [ih n hmem (hms n hmem)]
      rw [hsame]
      exact Members.sortByKey_of_ascending (Members.ascending_sortByKey hnodup)

/-! ## Alike values -/

/-- Two tidy values that differ at most in the order of members. -/
structure Alike (x y : Json) : Prop where
  left : x.Tidy
  right : y.Tidy
  sorted : x.sortKeys = y.sortKeys

theorem Alike.refl {x : Json} (h : x.Tidy) : x.Alike x := ⟨h, h, rfl⟩

theorem Alike.symm {x y : Json} (h : x.Alike y) : y.Alike x := ⟨h.right, h.left, h.sorted.symm⟩

theorem Alike.trans {x y z : Json} (hxy : x.Alike y) (hyz : y.Alike z) : x.Alike z :=
  ⟨hxy.left, hyz.right, hxy.sorted.trans hyz.sorted⟩

/-- What is read back from the sorted text of a value is alike to it. -/
theorem Tidy.alike_sortKeys {x : Json} (h : x.Tidy) : x.sortKeys.Alike x :=
  ⟨h.sortKeys, h, h.sortKeys_sortKeys⟩

/-- Both parts are missing, or both are there and alike. -/
def AlikePart : Option Json → Option Json → Prop
  | none, none => True
  | some x, some y => x.Alike y
  | _, _ => False

theorem alikePart_iff {a b : Option Json} :
    AlikePart a b ↔
      (∀ x, a = some x → x.Tidy) ∧ (∀ y, b = some y → y.Tidy) ∧
        a.map sortKeys = b.map sortKeys := by
  cases a with
  | none => cases b <;> simp [AlikePart]
  | some x =>
      cases b with
      | none => simp [AlikePart]
      | some y =>
          simp only [AlikePart, Option.some.injEq, forall_eq', Option.map_some]
          exact ⟨fun h => ⟨h.left, h.right, h.sorted⟩, fun h => ⟨h.1, h.2.1, h.2.2⟩⟩

theorem alike_arr_iff {xs ys : List Json} :
    (arr xs).Alike (arr ys) ↔
      (∀ x ∈ xs, x.Tidy) ∧ (∀ y ∈ ys, y.Tidy) ∧ xs.map sortKeys = ys.map sortKeys := by
  constructor
  · intro h
    refine ⟨tidy_arr_iff.mp h.left, tidy_arr_iff.mp h.right, ?_⟩
    simpa only [sortKeys_arr, arr.injEq] using h.sorted
  · rintro ⟨hx, hy, hs⟩
    exact ⟨tidy_arr_iff.mpr hx, tidy_arr_iff.mpr hy, by rw [sortKeys_arr, sortKeys_arr, hs]⟩

theorem sortKeys_obj_eq_iff {ms ns : Members} (hm : ms.keys.Nodup) (hn : ns.keys.Nodup) :
    (obj ms).sortKeys = (obj ns).sortKeys ↔
      ∀ key, (ms.get? key).map sortKeys = (ns.get? key).map sortKeys := by
  rw [sortKeys_obj, sortKeys_obj, obj.injEq,
    Members.sortByKey_eq_iff (nodup_keys_sortMembers hm) (nodup_keys_sortMembers hn)]
  simp only [Members.get?_map]

theorem alike_obj_iff {ms ns : Members} :
    (obj ms).Alike (obj ns) ↔
      (ms.keys.Nodup ∧ ns.keys.Nodup) ∧
        ∀ key, AlikePart (ms.get? key) (ns.get? key) := by
  constructor
  · intro h
    obtain ⟨hm, hmt⟩ := tidy_obj_iff.mp h.left
    obtain ⟨hn, hnt⟩ := tidy_obj_iff.mp h.right
    refine ⟨⟨hm, hn⟩, fun key => alikePart_iff.mpr ⟨?_, ?_, ?_⟩⟩
    · exact fun x hx => hmt _ (Members.mem_of_get? hx)
    · exact fun y hy => hnt _ (Members.mem_of_get? hy)
    · exact (sortKeys_obj_eq_iff hm hn).mp h.sorted key
  · rintro ⟨⟨hm, hn⟩, h⟩
    have hparts := fun key => alikePart_iff.mp (h key)
    refine ⟨tidy_obj_iff.mpr ⟨hm, ?_⟩, tidy_obj_iff.mpr ⟨hn, ?_⟩,
      (sortKeys_obj_eq_iff hm hn).mpr fun key => (hparts key).2.2⟩
    · exact fun m hmem => (hparts m.1).1 m.2 (Members.get?_of_mem hm hmem)
    · exact fun m hmem => (hparts m.1).2.1 m.2 (Members.get?_of_mem hn hmem)

theorem Alike.cases {x y : Json} (h : x.Alike y) :
    (x = y ∧ (∀ items, x ≠ .arr items) ∧ ∀ ms, x ≠ .obj ms) ∨
      (∃ xs ys, x = .arr xs ∧ y = .arr ys) ∨ ∃ ms ns, x = .obj ms ∧ y = .obj ns := by
  have hsorted := h.sorted
  cases x <;> cases y <;> simp_all [Json.sortKeys]

theorem Alike.isObject_eq {x y : Json} (h : x.Alike y) : x.isObject = y.isObject := by
  rcases h.cases with ⟨rfl, -⟩ | ⟨xs, ys, rfl, rfl⟩ | ⟨ms, ns, rfl, rfl⟩ <;> rfl

theorem Alike.canonical_eq {x y : Json} (h : x.Alike y) : x.canonical = y.canonical := by
  rw [canonical, canonical, h.sorted]

/-! ## Comparing alike values -/

theorem all_eq_of_mem {α : Type} {l : List α} {p q : α → Bool} (h : ∀ a ∈ l, p a = q a) :
    l.all p = l.all q := by
  induction l with
  | nil => rfl
  | cons a rest ih =>
      rw [List.all_cons, List.all_cons, h a List.mem_cons_self,
        ih fun b hb => h b (List.mem_cons_of_mem _ hb)]

theorem sameScalar_arr (loose : Bool) (items : List Json) (v : Json) :
    sameScalar loose (arr items) v = false := by
  unfold sameScalar
  cases h : quantity? loose v <;> simp [quantity?]

theorem sameScalar_obj (loose : Bool) (ms : Members) (v : Json) :
    sameScalar loose (obj ms) v = false := by
  unfold sameScalar
  cases h : quantity? loose v <;> simp [quantity?]

theorem bothNaN_sortKeys (x v : Json) : bothNaN x.sortKeys v = bothNaN x v := by
  cases x <;> rfl

/-- Whether a member has an equal one among others. -/
def hasSame (loose : Bool) (bs : Members) (m : String × Json) : Bool :=
  match Members.get? m.1 bs with
  | some b => loose && bothNaN m.2 b || same loose m.2 b
  | none => false

theorem sameMembers_eq_all (loose : Bool) (as bs : Members) :
    sameMembers loose as bs = as.all (hasSame loose bs) := by
  induction as with
  | nil => simp [sameMembers]
  | cons m rest ih =>
      obtain ⟨k, a⟩ := m
      rw [sameMembers, ih, List.all_cons]
      rfl

/-- Putting the keys of the first value in order does not change what it equals. -/
theorem same_sortKeys (loose : Bool) (x : Json) :
    ∀ v, same loose x.sortKeys v = same loose x v := by
  induction x using inductionOnParts with
  | null | bool | int | double | str => exact fun v => rfl
  | arr items ih =>
      intro v
      rw [sortKeys_arr]
      cases v with
      | arr bs =>
          simp only [same]
          induction items generalizing bs with
          | nil => rfl
          | cons a rest ihItems =>
              cases bs with
              | nil => rfl
              | cons b bs =>
                  have ha := ih a List.mem_cons_self b
                  have hrest := ihItems (fun j hj => ih j (List.mem_cons_of_mem _ hj)) bs
                  simp only [List.map_cons, sameItems, bothNaN_sortKeys, ha, hrest]
      | null | bool | int | double | str | obj => simp only [same, sameScalar_arr]
  | obj ms ih =>
      intro v
      rw [sortKeys_obj]
      cases v with
      | obj bs =>
          have hperm := Members.sortByKey_perm (ms.map fun m => (m.1, m.2.sortKeys))
          have hall : ∀ m ∈ ms, hasSame loose bs (m.1, m.2.sortKeys) = hasSame loose bs m := by
            intro m hm
            simp only [hasSame, bothNaN_sortKeys, ih m hm]
          simp only [same, sameMembers_eq_all, hperm.all_eq, hperm.length_eq, List.length_map,
            List.all_map]
          congr 1
          exact all_eq_of_mem hall
      | null | bool | int | double | str | arr => simp only [same, sameScalar_obj]

theorem Alike.same_eq {x y : Json} (h : x.Alike y) (loose : Bool) (v : Json) :
    same loose x v = same loose y v := by
  rw [← same_sortKeys loose x, ← same_sortKeys loose y, h.sorted]

/-! ## Finite values -/

theorem allFinite_eq_all (items : List Json) : allFinite items = items.all isFinite := by
  induction items with
  | nil => rfl
  | cons j rest ih => rw [allFinite, ih, List.all_cons]

theorem allFiniteMembers_eq_all (ms : Members) :
    allFiniteMembers ms = ms.all fun m => m.2.isFinite := by
  induction ms with
  | nil => rfl
  | cons m rest ih =>
      obtain ⟨k, j⟩ := m
      rw [allFiniteMembers, ih, List.all_cons]

theorem isFinite_sortKeys (x : Json) : x.sortKeys.isFinite = x.isFinite := by
  induction x using inductionOnParts with
  | null | bool | int | double | str => rfl
  | arr items ih =>
      simp only [sortKeys_arr, isFinite, allFinite_eq_all, List.all_map]
      exact all_eq_of_mem ih
  | obj ms ih =>
      simp only [sortKeys_obj, isFinite, allFiniteMembers_eq_all,
        (Members.sortByKey_perm _).all_eq, List.all_map]
      exact all_eq_of_mem ih

theorem Alike.isFinite_eq {x y : Json} (h : x.Alike y) : x.isFinite = y.isFinite := by
  rw [← isFinite_sortKeys x, ← isFinite_sortKeys y, h.sorted]

end ChainFold.Json
