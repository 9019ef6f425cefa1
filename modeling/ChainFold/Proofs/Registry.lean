import ChainFold.Registry
import Mathlib.Data.Finset.Card
import Mathlib.Data.List.Nodup

/-!
# The last registration counts

A registry is one list of models, but what it answers is said of all that was registered:
for each id the last model registered with it, and the place at which the id was registered
first.  Every registration keeps the list in step with the past, so after any sequence of
registrations the look-ups by id, by owner and by name all speak of the same models.
-/

namespace ChainFold

namespace Registry

/-! ## What was registered -/

/-- The model that was registered last with an id. -/
def lastOf? (ms : List Model) (id : String) : Option Model := (ms.filter (·.id == id)).getLast?

/-- The place at which an id was registered first. -/
def firstPlace (ms : List Model) (id : String) : Nat := (ms.map Model.id).idxOf id

variable {r : Registry} {ms l : List Model} {m n : Model} {id : String} {owner : Uuid}

theorem lastOf?_concat (ms : List Model) (m : Model) (id : String) :
    lastOf? (ms ++ [m]) id = if m.id = id then some m else lastOf? ms id := by
  unfold lastOf?
  rw [List.filter_append]
  by_cases h : m.id = id
  · rw [if_pos h, List.filter_cons_of_pos (by simpa using h), List.filter_nil, List.getLast?_concat]
  · rw [if_neg h, List.filter_cons_of_neg (by simpa using h), List.filter_nil, List.append_nil]

theorem mem_of_lastOf? (h : lastOf? ms id = some m) : m ∈ ms ∧ m.id = id := by
  obtain ⟨hmem, hid⟩ := List.mem_filter.mp (List.mem_of_getLast? h)
  exact ⟨hmem, by simpa using hid⟩

theorem exists_lastOf? (h : id ∈ ms.map Model.id) : ∃ m, lastOf? ms id = some m := by
  obtain ⟨m, hm, rfl⟩ := List.mem_map.mp h
  have hne : ms.filter (·.id == m.id) ≠ [] :=
    List.ne_nil_of_mem (List.mem_filter.mpr ⟨hm, by simp⟩)
  exact ⟨_, List.getLast?_eq_some_getLast hne⟩

theorem firstPlace_concat_of_mem (m : Model) (h : id ∈ ms.map Model.id) :
    firstPlace (ms ++ [m]) id = firstPlace ms id := by
  rw [firstPlace, List.map_append, List.idxOf_append_of_mem h, firstPlace]

theorem firstPlace_lt_concat (h : id ∈ ms.map Model.id) (hm : m.id ∉ ms.map Model.id) :
    firstPlace (ms ++ [m]) id < firstPlace (ms ++ [m]) m.id := by
  rw [firstPlace_concat_of_mem m h, firstPlace, firstPlace, List.map_append,
    List.idxOf_append_of_notMem hm]
  exact Nat.lt_add_right _ (List.idxOf_lt_length_of_mem h)

/-! ## Putting a model in its place -/

/-- A model takes the place of its id, or a new one behind the others. -/
theorem ids_place (m : Model) (l : List Model) : (place m l).map Model.id =
    if m.id ∈ l.map Model.id then l.map Model.id else l.map Model.id ++ [m.id] := by
  induction l with
  | nil => simp [place]
  | cons n rest ih =>
      unfold place
      by_cases h : n.id = m.id
      · simp [h]
      · have hne : m.id ≠ n.id := Ne.symm h
        rw [if_neg h, List.map_cons, ih, List.map_cons]
        by_cases hmem : m.id ∈ rest.map Model.id
        · rw [if_pos hmem, if_pos (List.mem_cons_of_mem _ hmem)]
        · have hmem' : m.id ∉ n.id :: rest.map Model.id := by
            rw [List.mem_cons]
            exact not_or.mpr ⟨hne, hmem⟩
          rw [if_neg hmem, if_neg hmem', List.cons_append]

theorem mem_place (hn : (l.map Model.id).Nodup) :
    n ∈ place m l ↔ n = m ∨ n ∈ l ∧ n.id ≠ m.id := by
  induction l with
  | nil => simp [place]
  | cons k rest ih =>
      obtain ⟨hk, hrest⟩ := List.nodup_cons.mp hn
      unfold place
      by_cases h : k.id = m.id
      · have hother : n ∈ rest → n.id ≠ m.id := by
          intro hmem heq
          exact hk (List.mem_map.mpr ⟨n, hmem, heq.trans h.symm⟩)
        rw [if_pos h, List.mem_cons, List.mem_cons]
        constructor
        · rintro (rfl | hmem)
          · exact .inl rfl
          · exact .inr ⟨.inr hmem, hother hmem⟩
        · rintro (rfl | ⟨rfl | hmem, hne⟩)
          · exact .inl rfl
          · exact absurd h hne
          · exact .inr hmem
      · rw [if_neg h, List.mem_cons, ih hrest, List.mem_cons]
        constructor
        · rintro (rfl | rfl | ⟨hmem, hne⟩)
          · exact .inr ⟨.inl rfl, h⟩
          · exact .inl rfl
          · exact .inr ⟨.inr hmem, hne⟩
        · rintro (rfl | ⟨rfl | hmem, hne⟩)
          · exact .inr (.inl rfl)
          · exact .inl rfl
          · exact .inr (.inr ⟨hmem, hne⟩)

/-! ## A registry in step with the past -/

/-- A registry holds the last model of each id, in the order in which the ids came. -/
structure Follows (r : Registry) (ms : List Model) : Prop where
  current : ∀ m, m ∈ r.models ↔ lastOf? ms m.id = some m
  ordered : (r.models.map Model.id).Pairwise fun i j => firstPlace ms i < firstPlace ms j

theorem follows_empty : empty.Follows [] where
  current := fun _ => ⟨nofun, nofun⟩
  ordered := .nil

theorem Follows.nodup (h : r.Follows ms) : (r.models.map Model.id).Nodup := by
  refine h.ordered.imp fun hlt heq => ?_
  rw [heq] at hlt
  exact Nat.lt_irrefl _ hlt

/-- The ids of a registry are those that were registered. -/
theorem Follows.mem_ids_iff (h : r.Follows ms) :
    id ∈ r.models.map Model.id ↔ id ∈ ms.map Model.id := by
  constructor
  · intro hid
    obtain ⟨m, hm, rfl⟩ := List.mem_map.mp hid
    exact List.mem_map_of_mem (mem_of_lastOf? ((h.current m).mp hm)).1
  · intro hid
    obtain ⟨m, hm⟩ := exists_lastOf? hid
    obtain ⟨-, rfl⟩ := mem_of_lastOf? hm
    exact List.mem_map_of_mem ((h.current m).mpr hm)

theorem Follows.register (h : r.Follows ms) (m : Model) : (r.register m).Follows (ms ++ [m]) := by
  have hold : ∀ i ∈ r.models.map Model.id, i ∈ ms.map Model.id := fun i hi => h.mem_ids_iff.mp hi
  have hordered : (r.models.map Model.id).Pairwise fun i j =>
      firstPlace (ms ++ [m]) i < firstPlace (ms ++ [m]) j := by
    refine h.ordered.imp_of_mem fun hi hj hlt => ?_
    rw [firstPlace_concat_of_mem m (hold _ hi), firstPlace_concat_of_mem m (hold _ hj)]
    exact hlt
  constructor
  case current =>
    intro n
    show n ∈ place m r.models ↔ _
    rw [mem_place h.nodup, lastOf?_concat, h.current n]
    by_cases hid : m.id = n.id
    · simp [hid, eq_comm]
    · have hne : n ≠ m := fun heq => hid (heq ▸ rfl)
      simp [hid, hne, Ne.symm hid]
  case ordered =>
    show ((place m r.models).map Model.id).Pairwise _
    rw [ids_place]
    split
    · exact hordered
    · rename_i hnew
      refine List.pairwise_append.mpr ⟨hordered, List.pairwise_singleton _ _, ?_⟩
      intro i hi j hj
      rw [List.mem_singleton.mp hj]
      exact firstPlace_lt_concat (hold i hi) fun hm => hnew (h.mem_ids_iff.mpr hm)

/-- So does any sequence of registrations. -/
theorem follows_ofModels (ms : List Model) : (ofModels ms).Follows ms := by
  induction ms using List.reverseRecOn with
  | nil => exact follows_empty
  | append_singleton ms m ih =>
      have hlast : ofModels (ms ++ [m]) = (ofModels ms).register m := by simp [ofModels]
      rw [hlast]
      exact ih.register m

theorem Follows.find?_eq (h : r.Follows ms) (id : String) : r.find? id = lastOf? ms id := by
  unfold find?
  cases hfound : r.models.find? (·.id == id) with
  | none =>
      cases hlast : lastOf? ms id with
      | none => rfl
      | some m =>
          obtain ⟨-, rfl⟩ := mem_of_lastOf? hlast
          have hno := List.find?_eq_none.mp hfound m ((h.current m).mpr hlast)
          exact absurd (beq_self_eq_true _) hno
  | some m =>
      have hid : m.id = id := by simpa using List.find?_some hfound
      rw [← hid]
      exact ((h.current m).mp (List.mem_of_find?_eq_some hfound)).symm

theorem Follows.size_eq (h : r.Follows ms) : r.size = (ms.map Model.id).toFinset.card := by
  have hids : (ms.map Model.id).toFinset = (r.models.map Model.id).toFinset := by
    ext id
    rw [List.mem_toFinset, List.mem_toFinset, h.mem_ids_iff]
  rw [hids, List.toFinset_card_of_nodup h.nodup, List.length_map]
  rfl

/-! ## Listing by owner -/

/--
One model is listed before another: by name, then by version, and where both are the same
in the order in which their ids came.
-/
def Before (ms : List Model) (a b : Model) : Prop :=
  a.name < b.name ∨ a.name = b.name ∧
    (a.version < b.version ∨ a.version = b.version ∧ firstPlace ms a.id < firstPlace ms b.id)

theorem Before.trans {a b c : Model} (hab : Before ms a b) (hbc : Before ms b c) :
    Before ms a c := by
  rcases hab with hname | ⟨hname, hab⟩
  · rcases hbc with hname' | ⟨hname', -⟩
    · exact .inl (String.lt_trans hname hname')
    · exact .inl (hname' ▸ hname)
  · rcases hbc with hname' | ⟨hname', hbc⟩
    · exact .inl (hname ▸ hname')
    · refine .inr ⟨hname.trans hname', ?_⟩
      omega

theorem Before.ne {a b : Model} (h : Before ms a b) : a ≠ b := by
  rintro rfl
  rcases h with hname | ⟨-, hversion | ⟨-, hplace⟩⟩
  · exact String.lt_irrefl _ hname
  · exact Int.lt_irrefl _ hversion
  · exact Nat.lt_irrefl _ hplace

/-- A model that came earlier goes before one that it precedes, and else behind it. -/
theorem before_of_precedes (hearlier : firstPlace ms m.id < firstPlace ms n.id) :
    if m.precedes n then Before ms m n else Before ms n m := by
  unfold Model.precedes Before
  by_cases hname : m.name = n.name
  · have hirrefl : ¬ n.name < n.name := String.lt_irrefl _
    by_cases hversion : m.version ≤ n.version
    · simp only [hname, hirrefl, hversion, decide_false, decide_true, beq_self_eq_true,
        Bool.and_self, Bool.or_true, if_true, false_or, true_and]
      omega
    · simp only [hname, hirrefl, hversion, decide_false, beq_self_eq_true, Bool.and_false,
        Bool.or_self, Bool.false_eq_true, if_false, false_or, true_and]
      omega
  · by_cases hlt : m.name < n.name
    · simp [hlt]
    · have hgt : n.name < m.name := by
        by_contra hno
        exact hname (String.le_antisymm (String.not_lt.mp hno) (String.not_lt.mp hlt))
      simp [hlt, hname, hgt]

theorem insertOrdered_perm (m : Model) (l : List Model) :
    (Model.insertOrdered m l).Perm (m :: l) := by
  induction l with
  | nil => exact .refl _
  | cons n rest ih =>
      unfold Model.insertOrdered
      split
      · exact .refl _
      · exact (ih.cons n).trans (.swap m n rest)

/-- A model that came before all of a list is put where the order of the list wants it. -/
theorem before_insertOrdered (hearlier : ∀ n ∈ l, firstPlace ms m.id < firstPlace ms n.id)
    (h : l.Pairwise (Before ms)) : (Model.insertOrdered m l).Pairwise (Before ms) := by
  induction l with
  | nil => exact List.pairwise_singleton _ _
  | cons n rest ih =>
      obtain ⟨hhead, hrest⟩ := List.pairwise_cons.mp h
      have horder := before_of_precedes (hearlier n List.mem_cons_self)
      unfold Model.insertOrdered
      split
      · rename_i hprecedes
        rw [if_pos hprecedes] at horder
        refine List.pairwise_cons.mpr ⟨?_, h⟩
        intro k hk
        rcases List.mem_cons.mp hk with rfl | hk
        · exact horder
        · exact horder.trans (hhead k hk)
      · rename_i hprecedes
        rw [if_neg hprecedes] at horder
        have hlater := ih (fun k hk => hearlier k (List.mem_cons_of_mem _ hk)) hrest
        refine List.pairwise_cons.mpr ⟨?_, hlater⟩
        intro k hk
        rcases List.mem_cons.mp ((insertOrdered_perm m rest).mem_iff.mp hk) with rfl | hk
        · exact horder
        · exact hhead k hk

/-- Models in the order in which their ids came. -/
def InOrder (ms l : List Model) : Prop :=
  l.Pairwise fun a b => firstPlace ms a.id < firstPlace ms b.id

theorem foldr_insertOrdered_perm (l : List Model) : (l.foldr Model.insertOrdered []).Perm l := by
  induction l with
  | nil => exact .refl _
  | cons m rest ih => exact (insertOrdered_perm m _).trans (ih.cons m)

theorem before_foldr_insertOrdered (h : InOrder ms l) :
    (l.foldr Model.insertOrdered []).Pairwise (Before ms) := by
  induction l with
  | nil => exact .nil
  | cons m rest ih =>
      obtain ⟨hhead, hrest⟩ := List.pairwise_cons.mp h
      refine before_insertOrdered ?_ (ih hrest)
      exact fun n hn => hhead n ((foldr_insertOrdered_perm rest).mem_iff.mp hn)

theorem Follows.inOrder (h : r.Follows ms) : InOrder ms r.models := by
  have hordered := h.ordered
  rw [List.pairwise_map] at hordered
  exact hordered

/-- What is listed for an owner are the current models of the owner. -/
theorem Follows.mem_listOwned_iff (h : r.Follows ms) :
    m ∈ r.listOwned owner ↔ lastOf? ms m.id = some m ∧ m.owner = owner := by
  rw [listOwned, (foldr_insertOrdered_perm _).mem_iff, owned, List.mem_filter, h.current m,
    beq_iff_eq]

theorem Follows.listOwned_before (h : r.Follows ms) (owner : Uuid) :
    (r.listOwned owner).Pairwise (Before ms) :=
  before_foldr_insertOrdered (h.inOrder.sublist List.filter_sublist)

/-! ## The latest of a name -/

/-- One model is at least as late as another: its version is greater, or its id came first. -/
def Outranks (ms : List Model) (m n : Model) : Prop :=
  n.version < m.version ∨ n.version = m.version ∧ firstPlace ms m.id ≤ firstPlace ms n.id

theorem Outranks.trans {a b c : Model} (hab : Outranks ms a b) (hbc : Outranks ms b c) :
    Outranks ms a c := by
  unfold Outranks at *
  omega

/-- Taking the newer of two models again and again ends with the one that outranks all. -/
theorem outranks_foldl_newer (h : InOrder ms (m :: l)) :
    l.foldl Model.newer m ∈ m :: l ∧ ∀ n ∈ m :: l, Outranks ms (l.foldl Model.newer m) n := by
  induction l generalizing m with
  | nil =>
      refine ⟨List.mem_singleton_self m, fun n hn => ?_⟩
      rw [List.mem_singleton.mp hn]
      exact .inr ⟨rfl, Nat.le_refl _⟩
  | cons k rest ih =>
      obtain ⟨hhead, hrest⟩ := List.pairwise_cons.mp h
      have hfirst := hhead k List.mem_cons_self
      rw [List.foldl_cons]
      by_cases hnewer : m.version < k.version
      · have hk : Model.newer m k = k := by simp [Model.newer, hnewer]
        obtain ⟨hmem, hall⟩ := ih hrest
        rw [hk]
        refine ⟨List.mem_cons_of_mem _ hmem, ?_⟩
        intro n hn
        rcases List.mem_cons.mp hn with rfl | hn
        · exact (hall k List.mem_cons_self).trans (.inl hnewer)
        · exact hall n hn
      · have hk : Model.newer m k = m := by simp [Model.newer, hnewer]
        have hskip : (m :: rest).Sublist (m :: k :: rest) :=
          (List.sublist_cons_self k rest).cons_cons m
        obtain ⟨hmem, hall⟩ := ih (h.sublist hskip)
        have hm := hall m List.mem_cons_self
        rw [hk]
        refine ⟨hskip.subset hmem, ?_⟩
        intro n hn
        rcases List.mem_cons.mp hn with rfl | hn
        · exact hm
        · rcases List.mem_cons.mp hn with rfl | hn
          · refine hm.trans ?_
            unfold Outranks
            omega
          · exact hall n (List.mem_cons_of_mem _ hn)

theorem latest_eq (r : Registry) (owner : Uuid) (name : String) : r.latest owner (.str name) =
    match (r.owned owner).filter (·.name == name) with
    | [] => .error (.modelNotFound (.str s!"{owner.toText}/{name}"))
    | m :: rest => .ok (rest.foldl Model.newer m) := by
  have hsame : (fun m : Model => Json.str m.name == Json.str name) = (·.name == name) := by
    funext m
    rw [Bool.eq_iff_iff, beq_iff_eq, beq_iff_eq, Json.str.injEq]
  unfold latest
  rw [hsame]
  rfl

/-! ## What a registry answers -/

/-- The answers of a registry, said of all that was registered. -/
structure Answers (r : Registry) (ms : List Model) : Prop where
  get_eq : ∀ id, r.get (.str id) = match lastOf? ms id with
    | some m => .ok m
    | none => .error (.modelNotFound (.str id))
  /-- As many models as there are different ids. -/
  size_eq : r.size = (ms.map Model.id).toFinset.card
  mem_listOwned_iff : ∀ owner m,
    m ∈ r.listOwned owner ↔ lastOf? ms m.id = some m ∧ m.owner = owner
  listOwned_nodup : ∀ owner, (r.listOwned owner).Nodup
  listOwned_before : ∀ owner, (r.listOwned owner).Pairwise (Before ms)
  latest_isOk_iff : ∀ owner name, (∃ m, r.latest owner (.str name) = .ok m) ↔
    ∃ m ∈ r.listOwned owner, m.name = name
  latest_listed : ∀ owner name m, r.latest owner (.str name) = .ok m →
    m ∈ r.listOwned owner ∧ m.name = name ∧
      ∀ n ∈ r.listOwned owner, n.name = name → Outranks ms m n
  latest_missing : ∀ owner name f, r.latest owner (.str name) = .error f →
    f = .modelNotFound (.str s!"{owner.toText}/{name}")
  /-- Where a model was registered before, only the current one of its id can show up. -/
  moved : ∀ old ∈ ms, ∀ current, lastOf? ms old.id = some current → ∀ m, m.id = old.id →
    (m ∈ r.listOwned old.owner → m = current ∧ current.owner = old.owner) ∧
    (r.latest old.owner (.str old.name) = .ok m →
      m = current ∧ current.owner = old.owner ∧ current.name = old.name)

theorem Follows.get_eq (h : r.Follows ms) (id : String) :
    r.get (.str id) = match lastOf? ms id with
      | some m => .ok m
      | none => .error (.modelNotFound (.str id)) := by
  have hseek : r.seek (.str id) = .ok (lastOf? ms id) := by
    rw [← h.find?_eq]
    rfl
  unfold get
  rw [hseek]
  cases lastOf? ms id <;> rfl

/-- The latest model of a name is listed for the owner, and outranks the others of the name. -/
theorem Follows.latest_listed (h : r.Follows ms) {name : String}
    (hlatest : r.latest owner (.str name) = .ok m) : m ∈ r.listOwned owner ∧ m.name = name ∧
      ∀ n ∈ r.listOwned owner, n.name = name → Outranks ms m n := by
  have hmem : ∀ n, n ∈ (r.owned owner).filter (·.name == name) ↔
      n ∈ r.listOwned owner ∧ n.name = name := by
    intro n
    rw [List.mem_filter, listOwned, (foldr_insertOrdered_perm _).mem_iff, beq_iff_eq]
  have hinOrder : InOrder ms ((r.owned owner).filter (·.name == name)) :=
    h.inOrder.sublist (List.filter_sublist.trans List.filter_sublist)
  rw [latest_eq] at hlatest
  split at hlatest
  · cases hlatest
  · rename_i first rest hnamed
    obtain rfl := Except.ok.inj hlatest
    rw [hnamed] at hmem hinOrder
    obtain ⟨hresult, hall⟩ := outranks_foldl_newer hinOrder
    obtain ⟨hlisted, hname⟩ := (hmem _).mp hresult
    exact ⟨hlisted, hname, fun n hn hnn => hall n ((hmem n).mpr ⟨hn, hnn⟩)⟩

theorem latest_isOk_iff (r : Registry) (owner : Uuid) (name : String) :
    (∃ m, r.latest owner (.str name) = .ok m) ↔ ∃ m ∈ r.listOwned owner, m.name = name := by
  have hne : (∃ m ∈ r.listOwned owner, m.name = name) ↔
      (r.owned owner).filter (·.name == name) ≠ [] := by
    simp only [ne_eq, List.filter_eq_nil_iff, not_forall, listOwned, beq_iff_eq, not_not,
      (foldr_insertOrdered_perm _).mem_iff, exists_prop]
  rw [hne, latest_eq]
  split
  · rename_i hnil
    simp [hnil]
  · rename_i first rest hnamed
    simp [hnamed]

theorem latest_missing {name : String} {f : Failure} (h : r.latest owner (.str name) = .error f) :
    f = .modelNotFound (.str s!"{owner.toText}/{name}") := by
  rw [latest_eq] at h
  split at h
  · exact (Except.error.inj h).symm
  · cases h

/--
After any sequence of registrations the look-ups of a registry agree: each id has the model
registered last with it, and the listings by owner and by name are about these models.
-/
theorem ofModels_answers (ms : List Model) : (ofModels ms).Answers ms := by
  have h := follows_ofModels ms
  constructor
  case get_eq => exact h.get_eq
  case size_eq => exact h.size_eq
  case mem_listOwned_iff => exact fun owner m => h.mem_listOwned_iff
  case listOwned_nodup => exact fun owner => (h.listOwned_before owner).imp Before.ne
  case listOwned_before => exact h.listOwned_before
  case latest_isOk_iff => exact latest_isOk_iff _
  case latest_listed => exact fun owner name m hm => h.latest_listed hm
  case latest_missing => exact fun owner name f hf => latest_missing hf
  case moved =>
    intro old _ current hcurrent m hid
    have honly : m ∈ (ofModels ms).listOwned old.owner →
        m = current ∧ current.owner = old.owner := by
      intro hm
      obtain ⟨hlast, howner⟩ := h.mem_listOwned_iff.mp hm
      rw [hid, hcurrent] at hlast
      obtain rfl := Option.some.inj hlast
      exact ⟨rfl, howner⟩
    refine ⟨honly, fun hlatest => ?_⟩
    obtain ⟨hlisted, hname, -⟩ := h.latest_listed hlatest
    obtain ⟨rfl, howner⟩ := honly hlisted
    exact ⟨rfl, howner, hname⟩

/-- Of two models with one name and version the first id leads, although it was replaced. -/
example :
    let owner : Uuid := ⟨0, by decide⟩
    let model (id name : String) (version : Int) : Model := ⟨id, name, owner, [], version⟩
    let r := ofModels [model "k1" "note" 1, model "k2" "post" 2, model "k1" "post" 2]
    (r.listOwned owner).map Model.id = ["k1", "k2"] := by
  decide +kernel

end Registry

end ChainFold
