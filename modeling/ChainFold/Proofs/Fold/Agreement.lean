import ChainFold.Fold.State
import ChainFold.Proofs.Event.Payload
import ChainFold.Proofs.Store.Agreement

/-!
# Folding states that agree

Two states agree under a backend if they differ at most in how it keeps their
contents.  One more event, or any number of them, is refused by both for the same
reason, or takes both to states that agree again.
-/

namespace ChainFold.Fold.State

/-- Two states with the same tip, model and account, and with contents that agree. -/
structure Agree (b : Backend) (s s' : State) : Prop where
  tip : s.tip = s'.tip
  content : b.Agree s.content s'.content
  model : s.model = s'.model
  account : s.account = s'.account

variable {b : Backend} {s s' s'' : State}

theorem agree_refl (h : s.content.Tidy) : s.Agree b s := ⟨rfl, Backend.agree_refl h, rfl, rfl⟩

theorem Agree.symm (h : s.Agree b s') : s'.Agree b s :=
  ⟨h.tip.symm, h.content.symm, h.model.symm, h.account.symm⟩

theorem Agree.trans (h : s.Agree b s') (h' : s'.Agree b s'') : s.Agree b s'' :=
  ⟨h.tip.trans h'.tip, h.content.trans h'.content, h.model.trans h'.model,
    h.account.trans h'.account⟩

theorem agree_memory_iff : s.Agree .memory s' ↔ s = s' := by
  constructor
  · rintro ⟨ht, hc, hm, ha⟩
    rw [Backend.agree_memory_iff] at hc
    cases s
    cases s'
    simp_all
  · rintro rfl
    exact ⟨rfl, Backend.agree_memory_iff.mpr rfl, rfl, rfl⟩

/-! ## Outcomes that agree -/

/-- The same failure, or states that agree. -/
def AgreeOn (b : Backend) : Except Failure State → Except Failure State → Prop
  | .ok s, .ok s' => s.Agree b s'
  | .error f, .error f' => f = f'
  | _, _ => False

theorem AgreeOn.ok_left {r : Except Failure State} (h : AgreeOn b (.ok s) r) :
    ∃ s', r = .ok s' ∧ s.Agree b s' := by
  cases r with
  | ok s' => exact ⟨s', rfl, h⟩
  | error f => exact h.elim

theorem AgreeOn.error_left {r : Except Failure State} {f : Failure}
    (h : AgreeOn b (.error f) r) : r = .error f := by
  cases r with
  | ok s' => exact h.elim
  | error f' => exact congrArg Except.error (Eq.symm h)

theorem AgreeOn.symm {r r' : Except Failure State} (h : AgreeOn b r r') : AgreeOn b r' r := by
  cases r with
  | error f =>
      rw [h.error_left]
      rfl
  | ok s =>
      obtain ⟨s', rfl, hagree⟩ := h.ok_left
      exact hagree.symm

theorem AgreeOn.trans {r r' r'' : Except Failure State} (h : AgreeOn b r r')
    (h' : AgreeOn b r' r'') : AgreeOn b r r'' := by
  cases r with
  | error f => rwa [h.error_left] at h'
  | ok s =>
      obtain ⟨s', rfl, hagree⟩ := h.ok_left
      obtain ⟨s'', rfl, hagree'⟩ := h'.ok_left
      exact hagree.trans hagree'

/-! ## One more event -/

theorem patched_agree {e : Event} {p : Payload} {x y : Json} {atGenesis : Bool}
    (hp : p.Shaped atGenesis) (h : b.Agree x y) :
    (∃ f, patched e p x = .error f ∧ patched e p y = .error f) ∨
      ∃ x' y', patched e p x = .ok x' ∧ patched e p y = .ok y' ∧ b.Agree x' y' := by
  cases hdata : p.data with
  | none => exact .inr ⟨x, y, by simp [patched, hdata], by simp [patched, hdata], h⟩
  | some patch =>
      have htidy : ∀ j ∈ patch.parts?.getD [], j.Tidy := by
        intro j hj
        cases patch with
        | arr items => exact Json.tidy_arr_iff.mp (hp.tidy _ hdata) j hj
        | obj ms =>
            obtain ⟨m, -, rfl⟩ := List.mem_map.mp hj
            trivial
        | str s =>
            obtain ⟨c, -, rfl⟩ := List.mem_map.mp hj
            trivial
        | null | bool | int | double => simp [Json.parts?] at hj
      rcases h.result? htidy with ⟨hx, hy⟩ | ⟨x', y', hx, hy, hagree⟩
      · refine .inl ⟨.malformedEvent e.cid "patch cannot be applied", ?_, ?_⟩
        · simp [patched, hdata, hx]
        · simp [patched, hdata, hy]
      · by_cases hobj : x'.isObject = true
        · refine .inr ⟨x', y', ?_, ?_, hagree⟩
          · simp [patched, hdata, hx, hobj]
          · simp [patched, hdata, hy, ← hagree.isObject_eq, hobj]
        · refine .inl ⟨.malformedEvent e.cid "patch must leave content a JSON object", ?_, ?_⟩
          · simp [patched, hdata, hx, hobj]
          · simp [patched, hdata, hy, ← hagree.isObject_eq, hobj]

/-- One more event is refused by both states for one reason, or keeps them in agreement. -/
theorem Agree.advance (h : s.Agree b s') (e : Event) :
    AgreeOn b (s.advance e) (s'.advance e) := by
  unfold State.advance
  rw [h.tip]
  split
  · rfl
  · cases hp : e.payload with
    | error f => rfl
    | ok p =>
        rcases patched_agree (e := e) (Event.shaped_of_payload hp) h.content with
          ⟨f, hx, hy⟩ | ⟨x', y', hx, hy, hagree⟩
        · simp only [hx, hy]
          rfl
        · simp only [hx, hy]
          exact ⟨rfl, hagree, h.model, h.account⟩

theorem Agree.exists_advance (h : s.Agree b s') {e : Event} (hs : s.advance e = .ok s₁) :
    ∃ s₁', s'.advance e = .ok s₁' ∧ s₁.Agree b s₁' := by
  have hstep := h.advance e
  rw [hs] at hstep
  exact hstep.ok_left

/-- Any number of events are refused by both states, or keep them in agreement. -/
theorem Agree.advanceAll (h : s.Agree b s') (rest : List Event) :
    AgreeOn b (s.advanceAll rest) (s'.advanceAll rest) := by
  induction rest generalizing s s' with
  | nil => exact h
  | cons e rest ih =>
      have hstep := h.advance e
      unfold State.advanceAll
      cases hs : s.advance e with
      | error f =>
          rw [hs] at hstep
          rw [hstep.error_left]
          rfl
      | ok s₁ =>
          rw [hs] at hstep
          obtain ⟨s₁', hs', hagree⟩ := hstep.ok_left
          rw [hs']
          exact ih hagree

/-! ## What an advance is made of -/

/-- What the successful advance of a state is made of. -/
theorem exists_patched_of_advance {e : Event} (h : s.advance e = .ok s') :
    ∃ p content, e.payload = .ok p ∧ patched e p s.content = .ok content ∧
      s' = ⟨e.cid, content, s.model, s.account⟩ := by
  unfold State.advance at h
  by_cases hsame : e.prev.looselySame s.tip = true
  · cases hp : e.payload with
    | error f => simp [hsame, hp] at h
    | ok p =>
        cases hpatched : patched e p s.content with
        | error f => simp [hsame, hp, hpatched] at h
        | ok content =>
            simp only [hsame, hp, hpatched, Bool.not_true, Bool.false_eq_true, if_false,
              Except.ok.injEq] at h
            exact ⟨p, content, rfl, hpatched, h.symm⟩
  · simp [hsame] at h

theorem malformed_of_patched {e : Event} {p : Payload} {x : Json} {f : Failure}
    (h : patched e p x = .error f) : ∃ reason, f = .malformedEvent e.cid reason := by
  unfold patched at h
  split at h
  · cases h
  · split at h
    · exact ⟨_, (Except.error.inj h).symm⟩
    · split at h
      · cases h
      · exact ⟨_, (Except.error.inj h).symm⟩

theorem malformed_of_advance {e : Event} {p : Payload} {f : Failure} (hp : e.payload = .ok p)
    (h : s.advance e = .error f) : ∃ reason, f = .malformedEvent e.cid reason := by
  unfold State.advance at h
  rw [hp] at h
  split at h
  · exact ⟨_, (Except.error.inj h).symm⟩
  · dsimp only at h
    cases hpatched : patched e p s.content with
    | error f' =>
        rw [hpatched] at h
        exact Except.error.inj h ▸ malformed_of_patched hpatched
    | ok content =>
        rw [hpatched] at h
        cases h

/-! ## What a chain folds to -/

theorem advanceAll_append (s : State) (as bs : List Event) :
    s.advanceAll (as ++ bs) =
      match s.advanceAll as with
      | .error f => .error f
      | .ok s' => s'.advanceAll bs := by
  induction as generalizing s with
  | nil => rfl
  | cons e rest ih =>
      simp only [List.cons_append, State.advanceAll]
      cases s.advance e with
      | error f => rfl
      | ok s' => exact ih s'

/-- A chain with more events behind it folds like the chain and then the rest. -/
theorem ofChain_append {chain : List Event} (hne : chain ≠ []) (rest : List Event) :
    ofChain (chain ++ rest) =
      match ofChain chain with
      | .error f => .error f
      | .ok s => s.advanceAll rest := by
  cases chain with
  | nil => exact absurd rfl hne
  | cons e more =>
      simp only [List.cons_append, ofChain]
      cases ofGenesis e with
      | error f => rfl
      | ok s => exact advanceAll_append s more rest

theorem ofChain_concat {chain : List Event} (hne : chain ≠ []) (e : Event) :
    ofChain (chain ++ [e]) =
      match ofChain chain with
      | .error f => .error f
      | .ok s => s.advance e := by
  rw [ofChain_append hne]
  cases ofChain chain with
  | error f => rfl
  | ok s =>
      simp only [State.advanceAll]
      cases s.advance e <;> rfl

theorem ofChain_singleton (e : Event) : ofChain [e] = ofGenesis e := by
  simp only [ofChain, State.advanceAll]
  cases ofGenesis e <;> rfl

/-! ## Contents of folds -/

/-- The content of a fold is an object in which no key is repeated. -/
structure Sane (s : State) : Prop where
  tidy : s.content.Tidy
  object : s.content.isObject = true

theorem Agree.sane (h : s.Agree b s') (hs : s'.Sane) : s.Sane :=
  ⟨h.content.tidy_left hs.tidy, h.content.isObject_eq.trans hs.object⟩

theorem isGenesis_of_ofGenesis {e : Event} (h : ofGenesis e = .ok s) : e.isGenesis = true := by
  unfold ofGenesis at h
  split at h
  · simp at h
  · simp_all

theorem tip_of_ofGenesis {e : Event} (h : ofGenesis e = .ok s) : s.tip = e.cid := by
  unfold ofGenesis at h
  split at h
  · simp at h
  · split at h
    · simp at h
    · simp only [Except.ok.injEq] at h
      rw [← h]

theorem content_of_ofGenesis {e : Event} (h : ofGenesis e = .ok s) :
    ∃ p, e.payload = .ok p ∧ s.content = p.data.getD (.obj []) := by
  unfold ofGenesis at h
  split at h
  · simp at h
  · split at h
    · simp at h
    · rename_i p hp
      simp only [Except.ok.injEq] at h
      exact ⟨p, hp, h ▸ rfl⟩

/-- An event that is folded becomes the tip and leaves model and account as they are. -/
theorem fixed_of_advance {e : Event} (h : s.advance e = .ok s') :
    s'.tip = e.cid ∧ s'.model = s.model ∧ s'.account = s.account := by
  obtain ⟨p, content, -, -, rfl⟩ := exists_patched_of_advance h
  exact ⟨rfl, rfl, rfl⟩

theorem looselySame_of_advance {e : Event} (h : s.advance e = .ok s') :
    e.prev.looselySame s.tip = true := by
  unfold State.advance at h
  split at h
  · simp at h
  · simp_all

theorem sane_of_ofGenesis {e : Event} (h : ofGenesis e = .ok s) : s.Sane := by
  unfold ofGenesis at h
  split at h
  · simp at h
  · rename_i hgenesis
    split at h
    · simp at h
    · rename_i p hp
      have hshape := Event.shaped_of_payload hp
      have hg : e.isGenesis = true := by simpa using hgenesis
      simp only [Except.ok.injEq] at h
      subst h
      cases hdata : p.data with
      | none => exact ⟨Json.tidy_obj_iff.mpr ⟨List.nodup_nil, by simp⟩, rfl⟩
      | some d => exact ⟨hshape.tidy d hdata, hshape.object hg d hdata⟩

theorem isObject_of_patched {e : Event} {p : Payload} {x x' : Json} (hx : x.isObject = true)
    (h : patched e p x = .ok x') : x'.isObject = true := by
  unfold patched at h
  split at h
  · simp only [Except.ok.injEq] at h
    exact h ▸ hx
  · split at h
    · simp at h
    · split at h
      · rename_i hobj
        simp only [Except.ok.injEq] at h
        exact h ▸ hobj
      · simp at h

theorem sane_of_advance {e : Event} (hs : s.Sane) (h : s.advance e = .ok s') : s'.Sane := by
  obtain ⟨p, content, hp, hpatched, rfl⟩ := exists_patched_of_advance h
  -- Results are tidy because they agree with themselves where order is not kept.
  rcases patched_agree (b := .sqlite) (e := e) (Event.shaped_of_payload hp)
    (Backend.agree_refl hs.tidy) with ⟨f, hx, -⟩ | ⟨x', y', hx, -, hagree⟩
  · rw [hpatched] at hx
    cases hx
  · rw [hpatched] at hx
    obtain rfl := Except.ok.inj hx
    have halike : content.Alike y' := (Backend.agree_iff_alike rfl).mp hagree
    exact ⟨halike.left, isObject_of_patched hs.object hpatched⟩

theorem sane_of_advanceAll {rest : List Event} (hs : s.Sane) (h : s.advanceAll rest = .ok s') :
    s'.Sane := by
  induction rest generalizing s with
  | nil => exact Except.ok.inj h ▸ hs
  | cons e rest ih =>
      unfold State.advanceAll at h
      split at h
      · simp at h
      · rename_i s₁ hs₁
        exact ih (sane_of_advance hs hs₁) h

theorem sane_of_ofChain {chain : List Event} (h : ofChain chain = .ok s) : s.Sane := by
  unfold ofChain at h
  split at h
  · simp at h
  · split at h
    · simp at h
    · rename_i s₁ hs₁
      exact sane_of_advanceAll (sane_of_ofGenesis hs₁) h

theorem tip_of_ofChain {before : List Event} {e : Event} (h : ofChain (before ++ [e]) = .ok s) :
    s.tip = e.cid := by
  cases before with
  | nil =>
      rw [List.nil_append, ofChain_singleton] at h
      exact tip_of_ofGenesis h
  | cons g rest =>
      rw [ofChain_concat (by simp)] at h
      split at h
      · simp at h
      · exact (fixed_of_advance h).1

/-! ## Headers -/

theorem header_of_ofGenesis {e : Event} (h : ofGenesis e = .ok s) :
    ∃ p, e.payload = .ok p ∧ s.model = ((p.header.getD .blank).model).getD .null ∧
      s.account = (p.header.getD .blank).account := by
  unfold ofGenesis at h
  split at h
  · simp at h
  · split at h
    · simp at h
    · rename_i p hp
      simp only [Except.ok.injEq] at h
      exact ⟨p, hp, h ▸ rfl, h ▸ rfl⟩

theorem header_of_advanceAll {rest : List Event} (h : s.advanceAll rest = .ok s') :
    s'.model = s.model ∧ s'.account = s.account := by
  induction rest generalizing s with
  | nil =>
      obtain rfl := Except.ok.inj h
      exact ⟨rfl, rfl⟩
  | cons e rest ih =>
      unfold State.advanceAll at h
      split at h
      · simp at h
      · rename_i s₁ hs₁
        obtain ⟨-, hmodel, haccount⟩ := fixed_of_advance hs₁
        obtain ⟨hmodel', haccount'⟩ := ih h
        exact ⟨hmodel'.trans hmodel, haccount'.trans haccount⟩

theorem header_of_ofChain {g : Event} {rest : List Event} (h : ofChain (g :: rest) = .ok s) :
    ∃ p, g.payload = .ok p ∧ s.model = ((p.header.getD .blank).model).getD .null ∧
      s.account = (p.header.getD .blank).account := by
  simp only [ofChain] at h
  split at h
  · simp at h
  · rename_i s₁ hs₁
    obtain ⟨p, hp, hmodel, haccount⟩ := header_of_ofGenesis hs₁
    obtain ⟨hmodel', haccount'⟩ := header_of_advanceAll h
    exact ⟨p, hp, hmodel'.trans hmodel, haccount'.trans haccount⟩

end ChainFold.Fold.State
