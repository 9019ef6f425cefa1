import ChainFold.Store.Table

/-!
# Rows by their keys

What is found in a table under each key, and how inserting a row changes it.  Since
the keys of a table ascend strictly, its rows are exactly what is found.
-/

namespace ChainFold

theorem Key.not_before_self (k : Key) : k.before k = false := by
  cases k <;> simp [Key.before, Key.rank]

theorem Key.ne_of_before {a b : Key} (h : a.before b) : a ≠ b := by
  rintro rfl
  simp [Key.not_before_self] at h

namespace Table

variable {α : Type} {s t : Table α} {key : Key} {row : α}

/-! ## Finding rows -/

theorem mem_of_lookup {rows : List (Key × α)} (h : lookup key rows = some row) :
    (key, row) ∈ rows := by
  induction rows with
  | nil => simp [lookup] at h
  | cons p rest ih =>
      obtain ⟨k, a⟩ := p
      by_cases hk : k = key
      · simp [lookup, hk] at h
        simp [hk, h]
      · simp [lookup, hk] at h
        exact List.mem_cons_of_mem _ (ih h)

theorem lookup_of_mem {rows : List (Key × α)}
    (hasc : rows.Pairwise fun a b => a.1.before b.1) (h : (key, row) ∈ rows) :
    lookup key rows = some row := by
  induction rows with
  | nil => simp at h
  | cons p rest ih =>
      obtain ⟨k, a⟩ := p
      obtain ⟨hhead, hrest⟩ := List.pairwise_cons.mp hasc
      rcases List.mem_cons.mp h with heq | hmem
      · simp only [Prod.mk.injEq] at heq
        simp [lookup, heq.1, heq.2]
      · have hne : k ≠ key := Key.ne_of_before (hhead _ hmem)
        simpa [lookup, hne] using ih hrest hmem

theorem mem_rows_iff : (key, row) ∈ t.rows ↔ t.get? key = some row :=
  ⟨lookup_of_mem t.ascending, mem_of_lookup⟩

theorem mem_values_iff : row ∈ t.values ↔ ∃ key, t.get? key = some row := by
  simp [values, ← mem_rows_iff]

@[simp] theorem get?_empty : (empty : Table α).get? key = none := rfl

@[simp] theorem values_empty : (empty : Table α).values = [] := rfl

/-! ## Inserting a row -/

theorem lookup_place (rows : List (Key × α)) (other : Key) :
    lookup other (place key row rows) = if key = other then some row else lookup other rows := by
  induction rows with
  | nil => simp [place, lookup]
  | cons p rest ih =>
      obtain ⟨k, a⟩ := p
      by_cases hk : key = k
      · subst hk
        by_cases ho : key = other <;> simp [place, lookup, ho]
      · by_cases hb : key.before k
        · simp [place, hk, hb, lookup]
        · by_cases ho : k = other
          · subst ho
            simp [place, hk, hb, lookup]
          · simp [place, hk, hb, lookup, ho, ih]

/-- Inserting a row changes what is found under its key and nothing else. -/
theorem get?_insert (other : Key) :
    (t.insert key row).get? other = if key = other then some row else t.get? other :=
  lookup_place t.rows other

@[simp] theorem get?_insert_self : (t.insert key row).get? key = some row := by
  simp [get?_insert]

theorem get?_insert_of_ne {other : Key} (h : key ≠ other) :
    (t.insert key row).get? other = t.get? other := by
  simp [get?_insert, h]

theorem place_of_lookup {rows : List (Key × α)}
    (hasc : rows.Pairwise fun a b => a.1.before b.1) (h : lookup key rows = some row) :
    place key row rows = rows := by
  induction rows with
  | nil => simp [lookup] at h
  | cons p rest ih =>
      obtain ⟨k, a⟩ := p
      obtain ⟨hhead, hrest⟩ := List.pairwise_cons.mp hasc
      by_cases hk : k = key
      · obtain rfl : a = row := by simpa [lookup, hk] using h
        simp [place, hk]
      · have hrow : lookup key rest = some row := by simpa [lookup, hk] using h
        have hbefore : k.before key = true := hhead _ (mem_of_lookup hrow)
        have hnot : ¬ key.before k = true := fun hb =>
          Key.ne_of_before (Key.before_trans hbefore hb) rfl
        have hne : key ≠ k := fun h => hk h.symm
        simp [place, hne, hnot, ih hrest hrow]

theorem insert_of_get? (h : t.get? key = some row) : t.insert key row = t := by
  obtain ⟨rows, hasc⟩ := t
  simp only [insert, mk.injEq]
  exact place_of_lookup hasc h

theorem has_eq_true_iff : t.has key = true ↔ ∃ row, t.get? key = some row := by
  simp [has, Option.isSome_iff_exists]

theorem has_eq_false_iff : t.has key = false ↔ t.get? key = none := by
  simp [has]

/-! ## The rows that pass a test -/

theorem filter_map_snd {p : α → Bool} {rows : List (Key × α)}
    (hasc : rows.Pairwise fun a b => a.1.before b.1)
    (h : ∀ q ∈ rows, p q.2 = true → q.1 = key) :
    (rows.map (·.2)).filter p = ((lookup key rows).filter p).toList := by
  induction rows with
  | nil => simp [lookup]
  | cons q rest ih =>
      obtain ⟨k, a⟩ := q
      obtain ⟨hhead, hrest⟩ := List.pairwise_cons.mp hasc
      by_cases hk : k = key
      · have hnone : ∀ b ∈ rest.map (·.2), ¬ p b = true := by
          intro b hb hp
          obtain ⟨q, hq, rfl⟩ := List.mem_map.mp hb
          have hq' : q.1 = key := h q (List.mem_cons_of_mem _ hq) hp
          exact Key.ne_of_before (hhead q hq) (hk.trans hq'.symm)
        rw [List.map_cons, List.filter_cons, List.filter_eq_nil_iff.mpr hnone]
        cases hp : p a <;> simp [lookup, hk, hp, Option.filter]
      · have hp : p a = false := by
          rw [← Bool.not_eq_true]
          exact fun hp => hk (h (k, a) (by simp) hp)
        have hrec := ih hrest fun q hq => h q (List.mem_cons_of_mem _ hq)
        rw [List.map_cons, List.filter_cons, hrec]
        simp [lookup, hk, hp]

/-- A test that only the row under one key can pass leaves at most that row. -/
theorem filter_values (key : Key) {p : α → Bool}
    (h : ∀ other a, t.get? other = some a → p a = true → other = key) :
    t.values.filter p = ((t.get? key).filter p).toList :=
  filter_map_snd t.ascending fun q hq hp => h q.1 q.2 (mem_rows_iff.mp hq) hp

theorem nodup_rows (t : Table α) : t.rows.Nodup :=
  t.ascending.imp fun hab heq => Key.ne_of_before hab (congrArg Prod.fst heq)

theorem ext_get? (h : ∀ k, s.get? k = t.get? k) : s = t := by
  have hmem : ∀ p : Key × α, p ∈ s.rows ↔ p ∈ t.rows := by
    rintro ⟨k, a⟩
    rw [mem_rows_iff, mem_rows_iff, h k]
  have hrows : s.rows = t.rows := by
    have hperm : s.rows.Perm t.rows :=
      (List.perm_ext_iff_of_nodup s.nodup_rows t.nodup_rows).mpr hmem
    refine hperm.eq_of_pairwise ?_ s.ascending t.ascending
    intro a b _ _ hab hba
    exact absurd rfl (Key.ne_of_before (Key.before_trans hab hba))
  cases s
  cases t
  simp_all

end Table

end ChainFold
