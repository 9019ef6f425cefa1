import ChainFold.Fold.Desk
import ChainFold.Proofs.Fold.Agreement

/-!
# What a computation does to a desk

Running a computation on a desk yields an outcome and the desk behind it.  Of that
desk only the held states matter: a look-up adds none, and a fold puts its state in
the place of whatever was held under the same key.
-/

namespace ChainFold

/-- Run a computation on a desk: its outcome, and the desk behind it. -/
def Work.on {α : Type} (w : Work α) (d : Desk) : Except Failure α × Desk := (w.run).run d

namespace Work

variable {α β : Type} {d : Desk}

@[simp] theorem on_pure (a : α) : (pure a : Work α).on d = (.ok a, d) := rfl

@[simp] theorem on_throw (f : Failure) : (throw f : Work α).on d = (.error f, d) := rfl

@[simp] theorem on_ofExcept (r : Except Failure α) : (ofExcept r).on d = (r, d) := by
  cases r <;> rfl

theorem on_get_bind (f : Desk → Work β) : (get >>= f).on d = (f d).on d := rfl

theorem on_set (d' : Desk) : (set d' : Work PUnit).on d = (.ok ⟨⟩, d') := rfl

theorem on_bind (w : Work α) (f : α → Work β) :
    (w >>= f).on d =
      match w.on d with
      | (.ok a, d') => (f a).on d'
      | (.error e, d') => (.error e, d') := by
  show ((w >>= f).run).run d = _
  simp only [on, ExceptT.run_bind, StateT.run_bind]
  cases (w.run).run d with
  | mk r d' => cases r <;> rfl

theorem on_bind_ok {w : Work α} {f : α → Work β} {a : α} {d' : Desk} (h : w.on d = (.ok a, d')) :
    (w >>= f).on d = (f a).on d' := by
  rw [on_bind, h]

theorem on_bind_error {w : Work α} {f : α → Work β} {e : Failure} {d' : Desk}
    (h : w.on d = (.error e, d')) : (w >>= f).on d = (.error e, d') := by
  rw [on_bind, h]

theorem on_tryCatch (w : Work α) (handle : Failure → Work α) :
    (tryCatch w handle).on d =
      match w.on d with
      | (.ok a, d') => (.ok a, d')
      | (.error e, d') => (handle e).on d' := by
  simp only [on, tryCatch, tryCatchThe, MonadExceptOf.tryCatch, ExceptT.tryCatch, ExceptT.run,
    ExceptT.mk, StateT.run_bind]
  cases StateT.run (m := Id) w d with
  | mk r d' => cases r <;> rfl

end Work

/-! ## Held states -/

namespace Fold.Recent

def Holds (r : Recent) (k : Key) (s : State) : Prop := ∃ c, Entry.mk k c s ∈ r.entries

theorem holds_of_find? {r : Recent} {k : Key} {e : Entry} (h : r.find? k = some e) :
    r.Holds k e.state := by
  have hkey : e.key = k := by simpa using List.find?_some h
  exact ⟨e.cid, hkey ▸ List.mem_of_find?_eq_some h⟩

theorem holds_of_get {r : Recent} {k : Key} {s : State} (h : (r.get k).1 = some s) :
    r.Holds k s := by
  unfold get at h
  split at h
  · simp at h
  · rename_i e he
    simp only [Option.some.injEq] at h
    exact h ▸ holds_of_find? he

theorem holds_of_holds_get {r : Recent} {k k' : Key} {s : State} (h : (r.get k).2.Holds k' s) :
    r.Holds k' s := by
  obtain ⟨c, hmem⟩ := h
  unfold get at hmem
  split at hmem
  · exact ⟨c, hmem⟩
  · rename_i e he
    rcases List.mem_append.mp hmem with hmem | hmem
    · exact ⟨c, List.mem_of_mem_filter hmem⟩
    · obtain rfl : _ = e := List.mem_singleton.mp hmem
      exact ⟨c, List.mem_of_find?_eq_some he⟩

/-- What is held after a state has been put is that state, or was held under another key. -/
theorem holds_of_holds_put {r : Recent} {k k' : Key} {cid : Json} {s s' : State}
    (h : (r.put k cid s).Holds k' s') : (k' = k ∧ s' = s) ∨ (k' ≠ k ∧ r.Holds k' s') := by
  obtain ⟨c, hmem⟩ := h
  have hmem : Entry.mk k' c s' ∈ r.others k ++ [⟨k, cid, s⟩] := by
    unfold put at hmem
    simp only at hmem
    split at hmem
    · exact List.mem_of_mem_drop hmem
    · exact hmem
  rcases List.mem_append.mp hmem with hmem | hmem
  · obtain ⟨hmem, hne⟩ := List.mem_filter.mp hmem
    exact .inr ⟨by simpa using hne, c, hmem⟩
  · simp only [List.mem_singleton, Entry.mk.injEq] at hmem
    exact .inl ⟨hmem.1, hmem.2.2⟩

end Fold.Recent

namespace Desk

def Holds (d : Desk) (k : Key) (s : Fold.State) : Prop := ∃ r, d.recent = some r ∧ r.Holds k s

/-- The state that a look-up on a desk finds under a key. -/
def held? (d : Desk) (k : Key) : Option Fold.State := d.recent.bind fun r => (r.get k).1

theorem holds_of_held? {d : Desk} {k : Key} {s : Fold.State} (h : d.held? k = some s) :
    d.Holds k s := by
  obtain ⟨r, hr, hget⟩ := Option.bind_eq_some_iff.mp h
  exact ⟨r, hr, Fold.Recent.holds_of_get hget⟩

theorem not_holds_of_none {d : Desk} (h : d.recent = none) (k : Key) (s : Fold.State) :
    ¬ d.Holds k s := by
  rintro ⟨r, hr, -⟩
  simp [h] at hr

/-- The state that is held for a cid, if it can be looked up. -/
def heldAt (d : Desk) (cid : Json) : Option Fold.State := cid.key?.bind d.held?

theorem heldAt_eq {d d' : Desk} (h : d'.recent = d.recent) : d'.heldAt = d.heldAt := by
  funext cid
  simp only [heldAt]
  congr 1
  funext k
  simp [held?, h]

theorem heldAt_of_none {d : Desk} (h : d.recent = none) (cid : Json) : d.heldAt cid = none := by
  simp [heldAt, Option.bind_eq_none_iff, held?, h]

/-- The later desk holds nothing that the earlier one does not. -/
structure Keeps (d d' : Desk) : Prop where
  holds : ∀ k s, d'.Holds k s → d.Holds k s
  none : d.recent = none → d'.recent = none

/-- The later desk holds a given state under its key, and else what the earlier one holds. -/
structure Learns (k : Key) (s : Fold.State) (d d' : Desk) : Prop where
  holds : ∀ k' s', d'.Holds k' s' → (k' = k ∧ s' = s) ∨ (k' ≠ k ∧ d.Holds k' s')
  none : d.recent = none → d'.recent = none

variable {d d' d'' : Desk} {k : Key} {s : Fold.State}

theorem Keeps.refl (d : Desk) : d.Keeps d := ⟨fun _ _ h => h, fun h => h⟩

theorem Keeps.trans (h : d.Keeps d') (h' : d'.Keeps d'') : d.Keeps d'' :=
  ⟨fun k s hs => h.holds k s (h'.holds k s hs), fun hnone => h'.none (h.none hnone)⟩

theorem keeps_of_recent_eq (h : d'.recent = d.recent) : d.Keeps d' := by
  refine ⟨?_, h.trans⟩
  rintro k s ⟨r, hr, hs⟩
  exact ⟨r, h ▸ hr, hs⟩

theorem Keeps.learns (h : d.Keeps d') (h' : d'.Learns k s d'') : d.Learns k s d'' := by
  refine ⟨?_, fun hnone => h'.none (h.none hnone)⟩
  intro k' s' hs
  rcases h'.holds k' s' hs with heq | ⟨hne, hs⟩
  · exact .inl heq
  · exact .inr ⟨hne, h.holds k' s' hs⟩

theorem Learns.keeps (h : d.Learns k s d') (h' : d'.Keeps d'') : d.Learns k s d'' :=
  ⟨fun k' s' hs => h.holds k' s' (h'.holds k' s' hs), fun hnone => h'.none (h.none hnone)⟩

theorem Learns.eq_of_holds (h : d.Learns k s d') {s' : Fold.State} (hs : d'.Holds k s') :
    s' = s := by
  rcases h.holds k s' hs with ⟨-, heq⟩ | ⟨hne, -⟩
  · exact heq
  · exact absurd rfl hne

end Desk

namespace Work

/-! ## Computations that do without held states -/

/-- A computation with one outcome on every desk, which leaves the held states as they are. -/
def IsPlain {α : Type} (w : Work α) (r : Except Failure α) : Prop :=
  ∀ d, (w.on d).1 = r ∧ (w.on d).2.recent = d.recent

namespace IsPlain

variable {α β : Type}

theorem pure (a : α) : IsPlain (Pure.pure a) (.ok a) := fun _ => ⟨rfl, rfl⟩

theorem throw (f : Failure) : IsPlain (MonadExcept.throw f : Work α) (.error f) :=
  fun _ => ⟨rfl, rfl⟩

theorem ofExcept (r : Except Failure α) : IsPlain (Work.ofExcept r) r := by
  intro d
  rw [on_ofExcept]
  exact ⟨rfl, rfl⟩

theorem note (level : Int) (logger message : String) (extra : Members) :
    IsPlain (Work.note level logger message extra) (.ok ()) := fun _ => ⟨rfl, rfl⟩

theorem on_eq {w : Work α} {r : Except Failure α} (h : w.IsPlain r) (d : Desk) :
    ∃ d', w.on d = (r, d') ∧ d'.recent = d.recent :=
  ⟨(w.on d).2, Prod.ext (h d).1 rfl, (h d).2⟩

theorem bind {w : Work α} {f : α → Work β} {r : Except Failure α} {g : α → Except Failure β}
    (hw : w.IsPlain r) (hf : ∀ a, r = .ok a → (f a).IsPlain (g a)) :
    (w >>= f).IsPlain (r >>= g) := by
  intro d
  obtain ⟨d', hd', hrecent⟩ := hw.on_eq d
  cases r with
  | error e =>
      rw [on_bind_error hd']
      exact ⟨rfl, hrecent⟩
  | ok a =>
      rw [on_bind_ok hd']
      obtain ⟨hr, hrecent'⟩ := hf a rfl d'
      exact ⟨hr, hrecent'.trans hrecent⟩

/-- Steps that only return what they are given can be left out of the outcome. -/
theorem and_return {w : Work α} {f : α → Work α} {r : Except Failure α} (hw : w.IsPlain r)
    (hf : ∀ a, (f a).IsPlain (.ok a)) : (w >>= f).IsPlain r := by
  have hbind := hw.bind (g := Pure.pure) fun a _ => hf a
  rwa [bind_pure] at hbind

/-- A step that only writes to the log can be left out of the outcome. -/
theorem note_bind {level : Int} {logger message : String} {extra : Members} {w : Work β}
    {r : Except Failure β} (h : w.IsPlain r) :
    (do Work.note level logger message extra; w).IsPlain r :=
  (note level logger message extra).bind fun _ _ => h

end IsPlain

end Work

/-! ## Looking up and folding -/

namespace Fold

variable {d : Desk} {k : Key}

theorem keyOf_eq {cid : Json} (hk : cid.key? = some k) : Recent.keyOf cid = .ok k := by
  simp [Recent.keyOf, hk]

/-- A look-up finds what is held and adds nothing to it. -/
theorem fetch_on {cid : Json} (hk : cid.key? = some k) :
    ∃ d', (fetch cid).on d = (.ok (d.heldAt cid), d') ∧ d.Keeps d' := by
  have hheld : d.heldAt cid = d.held? k := by simp [Desk.heldAt, hk]
  unfold fetch
  rw [Work.on_get_bind, hheld]
  cases hr : d.recent with
  | none =>
      refine ⟨d, ?_, .refl d⟩
      simp [Desk.held?, hr]
  | some r =>
      refine ⟨{ d with recent := some (r.get k).2 }, ?_, ?_, by simp [hr]⟩
      · simp only [keyOf_eq hk, Work.on_bind, Work.on_ofExcept, Work.on_set, Work.on_pure]
        simp [Desk.held?, hr]
      · rintro k' s ⟨r', hr', hs⟩
        obtain rfl : (r.get k).2 = r' := by simpa using hr'
        exact ⟨r, hr, Recent.holds_of_holds_get hs⟩

/-- Holding a state puts it in the place of what was held under its tip. -/
theorem remember_on {s : State} (hk : s.tip.key? = some k) :
    ∃ d', (remember s).on d = (.ok (), d') ∧ d.Learns k s d' := by
  unfold remember
  rw [Work.on_get_bind]
  cases hr : d.recent with
  | none =>
      refine ⟨d, by simp, ?_, fun h => h⟩
      exact fun k' s' hs => absurd hs (Desk.not_holds_of_none hr k' s')
  | some r =>
      refine ⟨{ d with recent := some (r.put k s.tip s) }, ?_, ?_, by simp [hr]⟩
      · simp only [keyOf_eq hk, Work.on_bind, Work.on_ofExcept, Work.on_set]
      · rintro k' s' ⟨r', hr', hs⟩
        obtain rfl : r.put k s.tip s = r' := by simpa using hr'
        rcases Recent.holds_of_holds_put hs with heq | ⟨hne, hs⟩
        · exact .inl heq
        · exact .inr ⟨hne, r, hr, hs⟩

/-- A computation that folds an event and holds the state, or fails and holds nothing. -/
def Folds (w : Work State) (k : Key) (r : Except Failure State) : Prop :=
  ∀ d, (∃ f, r = .error f ∧ w.on d = (.error f, d)) ∨
    ∃ s d', r = .ok s ∧ w.on d = (.ok s, d') ∧ d.Learns k s d'

theorem start_folds {e : Event} (hk : e.cid.key? = some k) :
    Folds (start e) k (State.ofGenesis e) := by
  intro d
  unfold start
  cases hs : State.ofGenesis e with
  | error f => exact .inl ⟨f, rfl, Work.on_bind_error (by simp)⟩
  | ok s =>
      have htip : s.tip.key? = some k := by rw [State.tip_of_ofGenesis hs, hk]
      obtain ⟨d', hd', hlearns⟩ := remember_on (d := d) htip
      refine .inr ⟨s, d', rfl, ?_, hlearns⟩
      rw [Work.on_bind_ok (Work.on_ofExcept _), Work.on_bind_ok hd', Work.on_pure]

theorem step_folds (s : State) {e : Event} (hk : e.cid.key? = some k) :
    Folds (step s e) k (s.advance e) := by
  intro d
  unfold step
  cases hs : s.advance e with
  | error f => exact .inl ⟨f, rfl, Work.on_bind_error (by simp)⟩
  | ok s' =>
      have htip : s'.tip.key? = some k := by rw [(State.fixed_of_advance hs).1, hk]
      obtain ⟨d', hd', hlearns⟩ := remember_on (d := d) htip
      refine .inr ⟨s', d', rfl, ?_, hlearns⟩
      rw [Work.on_bind_ok (Work.on_ofExcept _), Work.on_bind_ok hd', Work.on_pure]

/-- Plain steps behind a fold change nothing about what is held. -/
theorem Folds.bind {α : Type} {w : Work State} {r : Except Failure State} {f : State → Work α}
    {g : State → Except Failure α} (hw : Folds w k r)
    (hf : ∀ s, r = .ok s → (f s).IsPlain (g s)) (d : Desk) :
    ∃ d', (w >>= f).on d = (r >>= g, d') ∧
      ((∃ e, r = .error e) ∧ d.Keeps d' ∨ ∃ s, r = .ok s ∧ d.Learns k s d') := by
  rcases hw d with ⟨e, hr, hd⟩ | ⟨s, d₁, hr, hd, hlearns⟩
  · refine ⟨d, ?_, .inl ⟨⟨e, hr⟩, .refl d⟩⟩
    rw [Work.on_bind_error hd, hr]
    rfl
  · obtain ⟨d', hd', hrecent⟩ := (hf s hr).on_eq d₁
    refine ⟨d', ?_, .inr ⟨s, hr, hlearns.keeps (Desk.keeps_of_recent_eq hrecent)⟩⟩
    rw [Work.on_bind_ok hd, hr]
    exact hd'

/-! ## Folding where nothing can be held -/

theorem remember_of_none (h : d.recent = none) (s : State) :
    (remember s).on d = (.ok (), d) := by
  unfold remember
  rw [Work.on_get_bind, h]
  rfl

theorem start_of_none (h : d.recent = none) (e : Event) :
    (start e).on d = (State.ofGenesis e, d) := by
  unfold start
  cases State.ofGenesis e with
  | error f => exact Work.on_bind_error (Work.on_ofExcept _)
  | ok s =>
      rw [Work.on_bind_ok (Work.on_ofExcept _), Work.on_bind_ok (remember_of_none h s)]
      rfl

theorem step_of_none (h : d.recent = none) (s : State) (e : Event) :
    (step s e).on d = (s.advance e, d) := by
  unfold step
  cases s.advance e with
  | error f => exact Work.on_bind_error (Work.on_ofExcept _)
  | ok s' =>
      rw [Work.on_bind_ok (Work.on_ofExcept _), Work.on_bind_ok (remember_of_none h s')]
      rfl

theorem steps_of_none (h : d.recent = none) (s : State) (rest : List Event) :
    (steps s rest).on d = (s.advanceAll rest, d) := by
  induction rest generalizing s with
  | nil => rfl
  | cons e rest ih =>
      have hstep := step_of_none h s e
      unfold steps State.advanceAll
      cases hs : s.advance e with
      | error f =>
          rw [hs] at hstep
          exact Work.on_bind_error hstep
      | ok s' =>
          rw [hs] at hstep
          rw [Work.on_bind_ok hstep]
          exact ih s'

/-- Where nothing can be held, a projection is the fold of the whole chain. -/
theorem project_of_none (h : d.recent = none) (chain : List Event) :
    ∃ d', (project chain).on d = (State.ofChain chain, d') ∧ d'.recent = none := by
  cases chain with
  | nil => exact ⟨d, rfl, h⟩
  | cons g rest =>
      have hresume : (resume (g :: rest)).on d = (.ok none, d) := by
        unfold resume
        rw [Work.on_get_bind, h]
        rfl
      have hstart := start_of_none h g
      unfold project
      rw [Work.on_bind_ok hresume]
      cases hg : State.ofGenesis g with
      | error f =>
          have hfold : State.ofChain (g :: rest) = .error f := by simp only [State.ofChain, hg]
          rw [hg] at hstart
          rw [hfold]
          exact ⟨d, Work.on_bind_error hstart, h⟩
      | ok s =>
          have hfold : State.ofChain (g :: rest) = s.advanceAll rest := by
            simp only [State.ofChain, hg]
          rw [hg] at hstart
          rw [hfold]
          have hsteps := steps_of_none h s rest
          cases hrest : s.advanceAll rest with
          | error f =>
              rw [hrest] at hsteps
              refine ⟨d, ?_, h⟩
              exact (Work.on_bind_ok hstart).trans (Work.on_bind_error hsteps)
          | ok s' =>
              rw [hrest] at hsteps
              obtain ⟨d', hd', hrecent⟩ := (Work.IsPlain.pure s').note_bind.on_eq d
              refine ⟨d', ?_, hrecent.trans h⟩
              exact (Work.on_bind_ok hstart).trans ((Work.on_bind_ok hsteps).trans hd')

end Fold

end ChainFold
