import ChainFold.Json.Basic
import Mathlib.Data.List.Nodup

/-!
# Members of objects

Look-ups after the operations on members, and the order in which members are
sorted.  A list of members in which each key stands once is determined, up to
order, by its look-ups; sorted by key it is determined outright.
-/

namespace ChainFold.Members

variable {key : String} {value : Json} {ms ns : Members}

/-! ## Look-ups -/

theorem mem_of_get? (h : get? key ms = some value) : (key, value) ∈ ms := by
  induction ms with
  | nil => simp [get?] at h
  | cons m rest ih =>
      obtain ⟨k, v⟩ := m
      by_cases hk : k = key
      · subst hk
        simp only [get?, if_pos, Option.some.injEq] at h
        simp [h]
      · simp only [get?, if_neg hk] at h
        exact List.mem_cons_of_mem _ (ih h)

theorem get?_eq_none_iff : get? key ms = none ↔ key ∉ ms.keys := by
  induction ms with
  | nil => simp [get?, keys]
  | cons m rest ih =>
      obtain ⟨k, v⟩ := m
      by_cases hk : k = key
      · simp [get?, keys, hk]
      · simpa [get?, keys, hk, Ne.symm hk] using ih

theorem get?_of_mem (hn : ms.keys.Nodup) (h : (key, value) ∈ ms) :
    get? key ms = some value := by
  induction ms with
  | nil => simp at h
  | cons m rest ih =>
      obtain ⟨k, v⟩ := m
      have hkeys : k ∉ keys rest ∧ (keys rest).Nodup := List.nodup_cons.mp hn
      rcases List.mem_cons.mp h with h | h
      · simp only [Prod.mk.injEq] at h
        simp [get?, h]
      · have hmem : key ∈ keys rest := List.mem_map_of_mem h
        have hne : k ≠ key := fun heq => hkeys.1 (heq ▸ hmem)
        simp only [get?, if_neg hne]
        exact ih hkeys.2 h

theorem get?_eq_some_iff (hn : ms.keys.Nodup) :
    get? key ms = some value ↔ (key, value) ∈ ms :=
  ⟨mem_of_get?, get?_of_mem hn⟩

theorem get?_perm (hp : ms.Perm ns) (hn : ms.keys.Nodup) (key : String) :
    get? key ms = get? key ns := by
  have hns : (keys ns).Nodup := (hp.map _).nodup hn
  apply Option.ext
  intro v
  rw [get?_eq_some_iff hn, get?_eq_some_iff hns]
  exact hp.mem_iff

theorem get?_map (f : Json → Json) (ms : Members) (key : String) :
    get? key (ms.map fun m => (m.1, f m.2)) = (get? key ms).map f := by
  induction ms with
  | nil => rfl
  | cons m rest ih =>
      by_cases hk : m.1 = key
      · simp [get?, hk]
      · simpa [get?, hk] using ih

theorem keys_map (f : Json → Json) (ms : Members) :
    keys (ms.map fun m => (m.1, f m.2)) = keys ms := by
  simp [keys, List.map_map, Function.comp_def]

/-! ## Changing members -/

theorem get?_put (other : String) :
    get? other (put key value ms) = if key = other then some value else get? other ms := by
  induction ms with
  | nil => simp [put, get?]
  | cons m rest ih =>
      obtain ⟨k, v⟩ := m
      by_cases hk : k = key
      · subst hk
        by_cases ho : k = other <;> simp [put, get?, ho]
      · by_cases ho : k = other
        · subst ho
          simp [put, get?, hk, Ne.symm hk]
        · simpa [put, get?, hk, ho] using ih

theorem get?_erase (other : String) :
    get? other (erase key ms) = if key = other then none else get? other ms := by
  induction ms with
  | nil => simp [erase, get?]
  | cons m rest ih =>
      obtain ⟨k, v⟩ := m
      have ih' : get? other (List.filter (fun p => decide (p.1 ≠ key)) rest) =
          if key = other then none else get? other rest := ih
      by_cases hk : k = key
      · subst hk
        by_cases ho : k = other
        · simpa [erase, ho] using ih'
        · simpa [erase, get?, ho] using ih'
      · by_cases ho : k = other
        · subst ho
          simp [erase, get?, hk, Ne.symm hk]
        · simpa [erase, get?, hk, ho] using ih'

theorem keys_put_subset {other : String} (h : other ∈ (put key value ms).keys) :
    other = key ∨ other ∈ ms.keys := by
  by_cases hk : key = other
  · exact Or.inl hk.symm
  · right
    by_contra hnot
    have hnone : get? other (put key value ms) = none := by
      rw [get?_put, if_neg hk]
      exact get?_eq_none_iff.mpr hnot
    exact get?_eq_none_iff.mp hnone h

theorem nodup_keys_put (hn : ms.keys.Nodup) : (put key value ms).keys.Nodup := by
  induction ms with
  | nil => simp [put, keys]
  | cons m rest ih =>
      obtain ⟨k, v⟩ := m
      have hkeys : k ∉ keys rest ∧ (keys rest).Nodup := List.nodup_cons.mp hn
      by_cases hk : k = key
      · subst hk
        simpa [put, keys] using hn
      · have htail : (keys (put key value rest)).Nodup := ih hkeys.2
        have hhead : k ∉ keys (put key value rest) := by
          intro hmem
          rcases keys_put_subset hmem with h | h
          · exact hk h
          · exact hkeys.1 h
        simp only [put, if_neg hk]
        exact List.nodup_cons.mpr ⟨hhead, htail⟩

theorem nodup_keys_erase (hn : ms.keys.Nodup) : (erase key ms).keys.Nodup :=
  List.Nodup.sublist (List.Sublist.map _ (List.filter_sublist)) hn

theorem mem_put {m : String × Json} (h : m ∈ put key value ms) :
    m = (key, value) ∨ m ∈ ms := by
  induction ms with
  | nil => simpa [put] using h
  | cons n rest ih =>
      obtain ⟨k, v⟩ := n
      by_cases hk : k = key
      · simp only [put, if_pos hk, List.mem_cons] at h
        rcases h with h | h
        · exact Or.inl h
        · exact Or.inr (List.mem_cons_of_mem _ h)
      · simp only [put, if_neg hk, List.mem_cons] at h
        rcases h with h | h
        · exact Or.inr (by simp [h])
        · rcases ih h with h | h
          · exact Or.inl h
          · exact Or.inr (List.mem_cons_of_mem _ h)

theorem nodup_keys_ofPairs (pairs : Members) : (ofPairs pairs).keys.Nodup := by
  have hfold : ∀ (acc : Members), acc.keys.Nodup →
      (pairs.foldl (fun ms p => put p.1 p.2 ms) acc).keys.Nodup := by
    induction pairs with
    | nil => exact fun acc hacc => hacc
    | cons p rest ih => exact fun acc hacc => ih _ (nodup_keys_put hacc)
  exact hfold [] List.nodup_nil

theorem mem_ofPairs {m : String × Json} {pairs : Members} (h : m ∈ ofPairs pairs) :
    m ∈ pairs := by
  have hfold : ∀ (acc : Members),
      m ∈ pairs.foldl (fun ms p => put p.1 p.2 ms) acc → m ∈ acc ∨ m ∈ pairs := by
    clear h
    induction pairs with
    | nil => exact fun acc hm => Or.inl hm
    | cons p rest ih =>
        intro acc hm
        rcases ih _ hm with hm | hm
        · rcases mem_put hm with hm | hm
          · exact Or.inr (by simp [hm])
          · exact Or.inl hm
        · exact Or.inr (List.mem_cons_of_mem _ hm)
  rcases hfold [] h with h | h
  · simp at h
  · exact h

theorem put_of_not_mem (h : key ∉ ms.keys) : put key value ms = ms ++ [(key, value)] := by
  induction ms with
  | nil => rfl
  | cons m rest ih =>
      obtain ⟨k, v⟩ := m
      obtain ⟨hk, hrest⟩ : key ≠ k ∧ key ∉ keys rest := by simpa [keys] using h
      rw [put, if_neg (Ne.symm hk), ih hrest, List.cons_append]

/-- Members under keys of their own are put together as they are. -/
theorem ofPairs_of_nodup (hn : ms.keys.Nodup) : ofPairs ms = ms := by
  have hfold : ∀ done : Members, (keys (done ++ ms)).Nodup →
      ms.foldl (fun acc p => put p.1 p.2 acc) done = done ++ ms := by
    clear hn
    induction ms with
    | nil => simp
    | cons m rest ih =>
        intro done hkeys
        have hnew : m.1 ∉ keys done := by
          intro hmem
          rw [keys, List.map_append] at hkeys
          exact (List.nodup_append.mp hkeys).2.2 m.1 hmem m.1 (by simp) rfl
        have hsplit : done ++ m :: rest = done ++ [m] ++ rest := by simp
        rw [hsplit] at hkeys
        rw [List.foldl_cons, put_of_not_mem hnew, ih _ hkeys, hsplit]
  exact hfold [] hn

/-! ## Sorting by key -/

def Ascending (ms : Members) : Prop := ms.Pairwise fun a b => a.1 < b.1

theorem insertByKey_perm (m : String × Json) (ms : Members) :
    (insertByKey m ms).Perm (m :: ms) := by
  induction ms with
  | nil => exact List.Perm.refl _
  | cons n rest ih =>
      unfold insertByKey
      split
      · exact List.Perm.refl _
      · exact (ih.cons n).trans (List.Perm.swap m n rest)

theorem sortByKey_perm (ms : Members) : (sortByKey ms).Perm ms := by
  induction ms with
  | nil => exact List.Perm.refl _
  | cons m rest ih => exact (insertByKey_perm m _).trans (ih.cons m)

theorem ascending_insertByKey {m : String × Json} (hm : m.1 ∉ ms.keys)
    (h : Ascending ms) : Ascending (insertByKey m ms) := by
  induction ms with
  | nil => exact List.pairwise_singleton _ _
  | cons n rest ih =>
      have hhead := (List.pairwise_cons.mp h).1
      have hrest : Ascending rest := (List.pairwise_cons.mp h).2
      have hne : m.1 ≠ n.1 ∧ m.1 ∉ keys rest := by simpa [keys] using hm
      unfold insertByKey
      split
      next hlt =>
        refine List.pairwise_cons.mpr ⟨?_, h⟩
        intro p hp
        rcases List.mem_cons.mp hp with rfl | hp
        · exact hlt
        · exact String.lt_trans hlt (hhead p hp)
      next hnlt =>
        have hgt : n.1 < m.1 := by
          by_contra hn
          exact hne.1 (String.le_antisymm (String.not_lt.mp hn) (String.not_lt.mp hnlt))
        refine List.pairwise_cons.mpr ⟨?_, ih hne.2 hrest⟩
        intro p hp
        rcases List.mem_cons.mp ((insertByKey_perm m rest).mem_iff.mp hp) with rfl | hp
        · exact hgt
        · exact hhead p hp

theorem ascending_sortByKey (hn : ms.keys.Nodup) : Ascending (sortByKey ms) := by
  induction ms with
  | nil => exact List.Pairwise.nil
  | cons m rest ih =>
      have hkeys : m.1 ∉ keys rest ∧ (keys rest).Nodup := List.nodup_cons.mp hn
      refine ascending_insertByKey ?_ (ih hkeys.2)
      intro hmem
      exact hkeys.1 (((sortByKey_perm rest).map _).mem_iff.mp hmem)

theorem sortByKey_of_ascending (h : Ascending ms) : sortByKey ms = ms := by
  induction ms with
  | nil => rfl
  | cons m rest ih =>
      have hhead := (List.pairwise_cons.mp h).1
      change insertByKey m (sortByKey rest) = m :: rest
      rw [ih (List.pairwise_cons.mp h).2]
      cases rest with
      | nil => rfl
      | cons n more => exact if_pos (hhead n (List.mem_cons_self))

/-- Ascending members with the same look-ups are the same. -/
theorem Ascending.ext (hm : Ascending ms) (hn : Ascending ns)
    (hmkeys : ms.keys.Nodup) (hnkeys : ns.keys.Nodup)
    (h : ∀ key, get? key ms = get? key ns) : ms = ns := by
  have hmem : ∀ p : String × Json, p ∈ ms ↔ p ∈ ns := by
    rintro ⟨k, v⟩
    rw [← get?_eq_some_iff hmkeys, ← get?_eq_some_iff hnkeys, h k]
  have hperm : ms.Perm ns :=
    (List.perm_ext_iff_of_nodup (List.Nodup.of_map _ hmkeys) (List.Nodup.of_map _ hnkeys)).mpr hmem
  refine hperm.eq_of_pairwise ?_ hm hn
  intro a b _ _ hab hba
  exact absurd hba (String.lt_asymm hab)

theorem get?_sortByKey (hn : ms.keys.Nodup) (key : String) :
    get? key (sortByKey ms) = get? key ms :=
  (get?_perm (sortByKey_perm ms).symm hn key).symm

theorem nodup_keys_sortByKey (hn : ms.keys.Nodup) : (sortByKey ms).keys.Nodup :=
  ((sortByKey_perm ms).symm.map _).nodup hn

/-- Sorting leaves two lists of members the same exactly if their look-ups agree. -/
theorem sortByKey_eq_iff (hm : ms.keys.Nodup) (hn : ns.keys.Nodup) :
    sortByKey ms = sortByKey ns ↔ ∀ key, get? key ms = get? key ns := by
  constructor
  · intro h key
    rw [← get?_sortByKey hm, ← get?_sortByKey hn, h]
  · intro h
    refine (ascending_sortByKey hm).ext (ascending_sortByKey hn)
      (nodup_keys_sortByKey hm) (nodup_keys_sortByKey hn) ?_
    intro key
    rw [get?_sortByKey hm, get?_sortByKey hn, h]

end ChainFold.Members
