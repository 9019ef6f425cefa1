import ChainFold.Proofs.Engine.Indexing
import ChainFold.Proofs.Engine.Isolation
import ChainFold.Proofs.Engine.Staleness
import ChainFold.Proofs.Signal.Containment

/-!
# Asking for more finds less

A look-up finds the streams whose signals contain what is asked for.  Containment is
transitive, so a look-up for a value finds no stream that a look-up for a part of the value
would miss, whatever the index holds; and in every run the folders can be put in order, so
that each look-up is answered.
-/

namespace ChainFold

open Signal

/-! ## Folders that pass -/

namespace Signal

theorem contains_trans {a b c : Json} (hab : contains a b = true) (hbc : contains b c = true) :
    contains a c = true := by
  rw [contains_iff_includes] at hab hbc ⊢
  exact hab.trans hbc

theorem contains_self {x : Json} (h : NaNFree x) : contains x x = true := by
  rw [contains_iff_includes]
  exact h.includes_self

end Signal

namespace Tables

variable {t : Tables} {wanted p q : Json} {found : List Json}

/-- A look-up for an object reads the folders with a signal and lists those that contain it. -/
theorem query_contains_eq (t : Tables) (hobj : wanted.isObject = true) :
    Index.query t (.contains wanted) = (fun fs : List Folder =>
      (fs.filter fun f => f.signal.any (contains · wanted)).map Folder.stream) <$>
        t.signalFolders := by
  unfold Index.query
  cases t.signalFolders with
  | error f => rfl
  | ok fs => exact matching_eq hobj fs

/-- What is found by a look-up is found, in the same order, by one for a part of the object. -/
theorem query_narrows (hp : p.isObject = true) (hq : q.isObject = true)
    (hqp : contains q p = true) (h : Index.query t (.contains q) = .ok found) :
    ∃ more, Index.query t (.contains p) = .ok more ∧ found.Sublist more := by
  rw [query_contains_eq t hq] at h
  obtain ⟨fs, hfs, rfl⟩ := map_eq_ok.mp h
  refine ⟨_, by rw [query_contains_eq t hp, hfs, map_ok], ?_⟩
  apply List.Sublist.map
  apply List.monotone_filter_right
  intro f hf
  rw [Option.any_eq_true] at hf ⊢
  obtain ⟨signal, hsignal, hcontains⟩ := hf
  exact ⟨signal, hsignal, contains_trans hcontains hqp⟩

/-! ## Folders under the ids of streams -/

def FoldersNamed (t : Tables) : Prop := ∀ k f, t.folders.get? k = some f → ∃ id, k = .text id

theorem foldersNamed_empty : FoldersNamed .empty := by
  intro k f hf
  simp [empty] at hf

theorem FoldersNamed.exists_query (h : t.FoldersNamed) (hobj : wanted.isObject = true) :
    ∃ found, Index.query t (.contains wanted) = .ok found := by
  rw [query_contains_eq t hobj, signalFolders, Backend.ordered_of_texts h, map_ok]
  exact ⟨_, rfl⟩

/-- A change that keeps to one stream writes at most a folder under its id. -/
theorem FoldersNamed.of_agreeOff {t' : Tables} {c id : String} (h : t.FoldersNamed)
    (hoff : AgreeOff c id t t') : t'.FoldersNamed := by
  intro k f hf
  by_cases hk : k = .text id
  · exact ⟨id, hk⟩
  · apply h k f
    rw [← hoff.folders k hk]
    exact hf

theorem FoldersNamed.withFolder (h : t.FoldersNamed) (id : String) (f : Folder) :
    (t.withFolder id f).FoldersNamed := by
  have hoff : AgreeOff id id t (t.withFolder id f) :=
    ⟨fun _ _ => rfl, fun _ _ => rfl, fun _ hk => Table.get?_insert_of_ne hk.symm⟩
  exact h.of_agreeOff hoff

end Tables

/-! ## Look-ups in a run -/

namespace Engine

variable {en : Engine}

theorem Steady.foldersNamed_submit (hst : en.Steady) (h : en.tables.FoldersNamed) (e : Event)
    (claim : OwnerClaim) : (en.submit e claim).2.tables.FoldersNamed := by
  cases hst.commits e claim with
  | failed f d heq =>
      rw [heq]
      exact h
  | answered c g r holdings d hadm hwf hc hg hres hfiled heq =>
      exact h.of_agreeOff (hst.agreeOff_submit hc hg claim)

theorem Steady.foldersNamed_rebuild (hst : en.Steady) (h : en.tables.FoldersNamed) (id : Json) :
    (en.rebuild id).2.tables.FoldersNamed := by
  obtain ⟨d, hd, -⟩ := en.rebuild_eq id
  rw [hd]
  cases hres : en.rebuilt id with
  | error f => exact h
  | ok p =>
      obtain ⟨row, holdings⟩ := p
      obtain ⟨-, x, row₀, g, tip, chain, s, signal, hrefreshes⟩ := exists_refreshes hst.sound hres
      show holdings.tables.FoldersNamed
      rw [hrefreshes.tables_eq]
      exact h.withFolder x _

theorem Steady.foldersNamed_carry (hst : en.Steady) (h : en.tables.FoldersNamed) (call : Call) :
    (en.carry call).2.tables.FoldersNamed := by
  cases call with
  | clear | restart => exact h
  | op op =>
      cases op with
      | submit e claim => exact hst.foldersNamed_submit h e claim
      | rebuild id => exact hst.foldersNamed_rebuild h id
      | branch | getStream | getFolder | getEvent | loadEvents | listStreams | findByContent
      | queryBySignal | signals | register => exact h

theorem Steady.foldersNamed_carryAll (hst : en.Steady) (h : en.tables.FoldersNamed)
    (calls : List Call) : (en.carryAll calls).2.tables.FoldersNamed := by
  induction calls generalizing en with
  | nil => exact h
  | cons call rest ih => exact ih (hst.carry call) (hst.foldersNamed_carry h call)

theorem Steady.exists_queryBySignal (hst : en.Steady) (hopen : en.store.isOpen = true)
    (h : en.tables.FoldersNamed) (calls : List Call) {wanted : Json}
    (hobj : wanted.isObject = true) :
    ∃ found, ((en.carryAll calls).2.queryBySignal (.contains wanted)).1 = .ok found := by
  have hchecked : (en.carryAll calls).2.checkOpen = .ok () := by
    rw [checkOpen_congr (carryAll_sameSetup en calls), checkOpen, hopen]
    rfl
  rw [queryBySignal_eq, hchecked, ok_bind]
  exact (hst.foldersNamed_carryAll h calls).exists_query hobj

/-- What is found by a look-up for an object is found, in the same order, by one for less. -/
def Narrows (en : Engine) : Prop :=
  ∀ p q, p.isObject = true → q.isObject = true → contains q p = true →
    ∀ found, (en.queryBySignal (.contains q)).1 = .ok found →
      ∃ more, (en.queryBySignal (.contains p)).1 = .ok more ∧ found.Sublist more

/-- Whatever the index holds, a look-up for more finds less. -/
theorem narrows (en : Engine) : en.Narrows := by
  intro p q hp hq hqp found h
  rw [queryBySignal_eq] at h ⊢
  obtain ⟨u, hopen, h⟩ := bind_eq_ok.mp h
  rw [hopen, ok_bind]
  exact Tables.query_narrows hp hq hqp h

/--
Containment is a preorder on the values without NaN, and transitive on all values.  Hence what
a look-up finds is found by one for less, in whatever state the index is; and in every state
that a run reaches look-ups for objects are answered.
-/
theorem Fresh.lookups_narrow (h : en.Fresh) (hopen : en.store.isOpen = true) :
    (∀ x y, contains x y = true ↔ Includes x y) ∧
    (∀ x, NaNFree x → contains x x = true) ∧
    (∀ a b c, contains a b = true → contains b c = true → contains a c = true) ∧
    (∀ reached : Engine, reached.Narrows) ∧
    ∀ calls wanted, wanted.isObject = true →
      ∃ found, ((en.carryAll calls).2.queryBySignal (.contains wanted)).1 = .ok found := by
  refine ⟨contains_iff_includes, fun x => contains_self, fun a b c => contains_trans, narrows, ?_⟩
  intro calls wanted hobj
  have hempty : en.tables.FoldersNamed := h.tables_eq ▸ Tables.foldersNamed_empty
  exact h.steady.exists_queryBySignal hopen hempty calls hobj

/-- Numbers are compared exactly and not with booleans, and items stand in any order. -/
theorem lookups_narrow_sample :
    let n (j : Json) : Json := .obj [("n", j)]
    let signal : Json := .obj [("n", .int 1), ("tags", .arr [.str "a", n (.double (.ofInt 2))])]
    let wanted : Json := .obj [("tags", .arr [n (.int 2), n (.int 2)]), ("n", .double (.ofInt 1))]
    let calls := [.op (.submit sampleGenesis sampleOwner),
      .op (.submit (sampleSignal "second" "first" (some signal)) .none), .clear]
    let en := ((sampleEngine .sqlite (some (.empty (.ofNat 1)))).carryAll calls).2
    let found (p : Json) := (en.queryBySignal (.contains p)).1
    (∃ ids more, found wanted = .ok ids ∧ found (n (.int 1)) = .ok more ∧ ids.Sublist more) ∧
      contains signal wanted = true ∧ contains wanted signal = false ∧
      [found wanted, found (n (.bool true))] =
        [.ok [.str (Ident.streamId "first")], .ok []] := by
  intro n signal wanted calls en found
  obtain ⟨-, -, -, hnarrows, hanswered⟩ :=
    (sampleEngine_fresh .sqlite (.ofNat 1)).lookups_narrow rfl
  obtain ⟨ids, hids⟩ := hanswered calls wanted rfl
  have hless : contains wanted (n (.int 1)) = true := by decide +kernel
  obtain ⟨more, hmore, hsub⟩ := hnarrows en (n (.int 1)) wanted rfl rfl hless ids hids
  exact ⟨⟨ids, more, hids, hmore, hsub⟩, by decide +kernel, by decide +kernel,
    by decide +kernel⟩

end Engine

end ChainFold
