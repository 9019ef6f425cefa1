import ChainFold.Proofs.Engine.Replay

/-!
# Branches that can be folded

An event that follows the tip is stored only with its patch applied, so the chain of every
event that has become a tip can be folded.  An event beside the tip is stored as it is: the
projection of a branch may break off, but only at an event that has never been a tip.
-/

namespace ChainFold

namespace Fold

/-! ## Where a projection breaks off -/

variable {b : Backend} {known scope : Event → Prop} {e : Event} {chain : List Event}
  {f : Failure} {d : Desk}

/-- Events that cannot all be folded are folded up to the first that cannot. -/
theorem State.exists_break_of_advanceAll {s : State} {rest : List Event}
    (h : s.advanceAll rest = .error f) : ∃ mid y after s', rest = mid ++ y :: after ∧
      s.advanceAll mid = .ok s' ∧ s'.advance y = .error f := by
  induction rest generalizing s with
  | nil => cases h
  | cons x rest ih =>
      unfold State.advanceAll at h
      cases hx : s.advance x with
      | error f' =>
          rw [hx] at h
          obtain rfl := Except.error.inj h
          exact ⟨[], x, rest, s, rfl, rfl, hx⟩
      | ok s₁ =>
          rw [hx] at h
          obtain ⟨mid, y, after, s', rfl, hmid, hy⟩ := ih h
          refine ⟨x :: mid, y, after, s', rfl, ?_, hy⟩
          simp only [State.advanceAll, hx, hmid]

/-- What is held makes no difference to what events are folded to one after another. -/
theorem steps_on (s : State) {rest : List Event} (hkeys : ∀ x ∈ rest, ∃ k, x.cid.key? = some k)
    (d : Desk) : ∃ d', (steps s rest).on d = (s.advanceAll rest, d') := by
  induction rest generalizing s d with
  | nil => exact ⟨d, rfl⟩
  | cons x rest ih =>
      obtain ⟨⟨k, hk⟩, hrest⟩ := List.forall_mem_cons.mp hkeys
      unfold steps State.advanceAll
      rcases step_folds s hk d with ⟨f, hf, hd⟩ | ⟨s', d₁, hs', hd, -⟩
      · exact ⟨d, by rw [Work.on_bind_error hd, hf]⟩
      · obtain ⟨d', hd'⟩ := ih s' hrest d₁
        exact ⟨d', by rw [Work.on_bind_ok hd, hd', hs']⟩

/--
A projection folds on from one event of the chain, with its state: the first event, or
the last one with a state that is held.
-/
theorem exists_resumed (hscope : Scope known scope) (he : known e) (hl : Lineage known e chain)
    (hstarts : ∀ x, known x → x.prev = .null → ∃ s, State.ofGenesis x = .ok s)
    (htrust : d.Trusts b known scope) :
    ∃ (before behind : List Event) (x : Event) (s : State), chain = before ++ x :: behind ∧
      ((project chain).on d).1 = s.advanceAll behind ∧
        (scope x → ∃ s', State.ofChain (before ++ [x]) = .ok s' ∧ s.Agree b s') := by
  have hkeys : ∀ x ∈ chain, ∃ k, x.cid.key? = some k := by
    intro x hx
    obtain ⟨c, hc⟩ := hscope.binding.text x (hl.known_of_mem he hx)
    exact ⟨.text c, by rw [hc]; rfl⟩
  obtain ⟨found, d₁, hd₁, -, hfound⟩ := resume_on chain hkeys d
  obtain ⟨g, rest, rfl, hprev, -⟩ := hl.exists_cons
  obtain ⟨⟨k, hk⟩, hrest⟩ := List.forall_mem_cons.mp hkeys
  unfold project
  rw [Work.on_bind_ok hd₁]
  cases found with
  | none =>
      obtain ⟨s, hs⟩ := hstarts g (hl.known_of_mem he (by simp)) hprev
      rcases start_folds hk d₁ with ⟨f, hf, -⟩ | ⟨s', d₂, hs', hd₂, -⟩
      · cases hs.symm.trans hf
      · obtain rfl := Except.ok.inj (hs.symm.trans hs')
        obtain ⟨d₃, hd₃⟩ := steps_on s hrest d₂
        have hfold : (do steps (← start g) rest : Work State).on d₁ = (s.advanceAll rest, d₃) :=
          (Work.on_bind_ok hd₂).trans hd₃
        obtain ⟨d₄, hd₄, -⟩ := noted_on (g :: rest) hfold
        rw [bind_assoc] at hd₄
        refine ⟨[], rest, g, s, rfl, congrArg Prod.fst hd₄, fun _ => ⟨s, ?_, ?_⟩⟩
        · rw [List.nil_append, State.ofChain_singleton, hs]
        · exact State.agree_refl (State.sane_of_ofGenesis hs).tidy
  | some p =>
      obtain ⟨s, behind⟩ := p
      obtain ⟨before, x, k', hsplit, hk', hs⟩ := hfound s behind rfl
      have hlx : Lineage known x (before ++ [x]) := hl.of_append_cons hsplit
      have hbehind : ∀ y ∈ behind, ∃ k, y.cid.key? = some k := by
        intro y hy
        exact hkeys y (by rw [hsplit]; simp [hy])
      obtain ⟨d₂, hd₂⟩ := steps_on s hbehind d₁
      obtain ⟨d₃, hd₃, -⟩ := noted_on (g :: rest) hd₂
      refine ⟨before, behind, x, s, hsplit, congrArg Prod.fst hd₃, fun hx => ?_⟩
      obtain ⟨front, s', hfront, hfold, hagree⟩ := htrust x k' s hx hk' hs
      exact ⟨s', hlx.unique hscope.binding hfront ▸ hfold, hagree⟩

/--
Where the lineages of the events in a scope can be folded, a projection breaks off only at an
event outside of it.
-/
theorem exists_break_of_project (hscope : Scope known scope) (he : known e)
    (hl : Lineage known e chain)
    (hstarts : ∀ x, known x → x.prev = .null → ∃ s, State.ofGenesis x = .ok s)
    (hfolds : ∀ y front, scope y → Lineage known y front → ∃ s, State.ofChain front = .ok s)
    (htrust : d.Trusts b known scope) (h : ((project chain).on d).1 = .error f) :
    ∃ y ∈ chain, ¬ scope y ∧ ∃ s : State, s.advance y = .error f := by
  obtain ⟨before, behind, x, s, hsplit, hresult, hright⟩ :=
    exists_resumed hscope he hl hstarts htrust
  rw [h] at hresult
  obtain ⟨mid, y, after, s', rfl, hmid, hy⟩ := State.exists_break_of_advanceAll hresult.symm
  have hchain : chain = (before ++ x :: mid) ++ y :: after := by rw [hsplit]; simp
  refine ⟨y, by rw [hchain]; simp, fun hscopeY => ?_, s', hy⟩
  have hly : Lineage known y ((before ++ x :: mid) ++ [y]) := hl.of_append_cons hchain
  obtain ⟨s₀, hs₀, hagree⟩ := hright (hscope.ancestral y _ hly hscopeY x (by simp))
  have hbreak : s.advanceAll (mid ++ [y]) = .error f := by
    rw [State.advanceAll_append, hmid]
    simp only [State.advanceAll, hy]
  have hstep := hagree.advanceAll (mid ++ [y])
  rw [hbreak] at hstep
  obtain ⟨s₁, hs₁⟩ := hfolds y _ hscopeY hly
  have hsplitY : (before ++ x :: mid) ++ [y] = (before ++ [x]) ++ (mid ++ [y]) := by simp
  rw [hsplitY, State.ofChain_append (by simp), hs₀] at hs₁
  cases hs₁.symm.trans hstep.error_left

end Fold

/-! ## Events that have been tips -/

namespace Tables

variable {b : Backend} {t : Tables} {e : Event} {chain : List Event}

/-- The chain of an event that has been a tip can be folded. -/
theorem Sound.exists_fold_of_accepts (hs : t.Sound b) (he : t.Accepts e)
    (hl : Lineage t.Stores e chain) : ∃ s, Fold.State.ofChain chain = .ok s := by
  obtain ⟨k, row, tip, chain', hrow, htip, heq, hl', hmem⟩ := he
  obtain ⟨g, tip', chain'', s, -, hp⟩ := hs.projects k row hrow
  obtain rfl := hs.binding.unique tip' tip hp.stored htip (hp.tip_eq.symm.trans heq)
  obtain rfl := hp.lineage.unique hs.binding hl'
  obtain ⟨before, ⟨after, hafter⟩, hlx⟩ := hl'.exists_of_mem hmem
  obtain rfl := hl.unique hs.binding hlx
  have hfold := hp.fold
  rw [← hafter] at hfold
  exact Fold.State.exists_of_append (by simp) hfold

end Tables

namespace Engine

variable {en : Engine} {e x : Event} {id : String}

theorem Vetted.exists_start (h : en.Vetted e) (hprev : e.prev = .null) :
    ∃ s, Fold.State.ofGenesis e = .ok s := by
  obtain ⟨-, hwf, p, hp⟩ := admission_eq_ok h.admitted
  exact ⟨_, ofGenesis_eq (by simp [hwf.isGenesis_eq, hprev]) hp⟩

theorem Vetted.malformed_of_advance (h : en.Vetted e) {s : Fold.State} {f : Failure}
    (hf : s.advance e = .error f) : ∃ reason, f = .malformedEvent e.cid reason := by
  obtain ⟨-, -, p, hp⟩ := admission_eq_ok h.admitted
  exact Fold.State.malformed_of_advance hp hf

/-- A branch breaks off at an event of its chain that has never been a tip. -/
def BreaksBeside (t : Tables) (e : Event) (f : Failure) : Prop :=
  ∃ chain x reason, Lineage t.Stores e chain ∧ x ∈ chain ∧ ¬ t.Accepts x ∧
    f = .malformedEvent x.cid reason

/-- With vetted events a branch breaks off beside the accepted chain, if at all. -/
theorem Steady.breaksBeside_of_branch (hst : en.Steady)
    (hvetted : ∀ x, en.tables.Stores x → en.Vetted x) {chain : List Event}
    (he : en.tables.Stores e) (hl : Lineage en.tables.Stores e chain)
    (hload : en.loaded (.str id) e.cid = .ok chain) {f : Failure}
    (h : (en.branch (.str id) e.cid).1 = .error f) : BreaksBeside en.tables e f := by
  obtain ⟨d, hrecent, hd⟩ := branch_of_ok hload
  rw [hd] at h
  have htrusts := hst.trusts.keeps (Desk.keeps_of_recent_eq hrecent)
  obtain ⟨x, hx, haccepts, s, hbreak⟩ := Fold.exists_break_of_project hst.sound.scope he hl
    (fun x hx => (hvetted x hx).exists_start)
    (fun y front hy => hst.sound.exists_fold_of_accepts hy) htrusts h
  obtain ⟨reason, hf⟩ := (hvetted x (hl.known_of_mem he hx)).malformed_of_advance hbreak
  exact ⟨chain, x, reason, hl, hx, haccepts, hf⟩

/-- What is projected of a stored event. -/
structure Projected (en : Engine) (e : Event) (id : String) : Prop where
  stream_eq : streamOf e = .ok id
  /-- The branch of an event that has been a tip is folded. -/
  accepted : en.tables.Accepts e → ∃ s, (en.branch (.str id) e.cid).1 = .ok s
  /-- Any other branch is folded or breaks off at an event that has never been a tip. -/
  beside : (∃ s, (en.branch (.str id) e.cid).1 = .ok s) ∨
    ∃ f, (en.branch (.str id) e.cid).1 = .error f ∧ BreaksBeside en.tables e f

/--
Whatever has been submitted since the store was empty, no event on an accepted chain has a
patch that cannot be applied.
-/
theorem Fresh.stored_projected (h : en.Fresh) (hopen : en.store.isOpen = true)
    (ops : List Operation) (he : (en.after ops).tables.Stores e) :
    ∃ id, (en.after ops).Projected e id := by
  have hst := h.steady.after ops
  have hsetup := after_sameSetup en ops
  have hisOpen : (en.after ops).checkOpen = .ok () := by
    simp [checkOpen, hsetup.isOpen_eq, hopen]
  have hvetted : ∀ x, (en.after ops).tables.Stores x → (en.after ops).Vetted x :=
    fun x hx => (h.vetted ops hx).of_limit_eq hsetup.limit_eq
  obtain ⟨g, hg, -⟩ := (hst.sound.wellFormed_of_stores he).genesis_text
  obtain ⟨k, hk⟩ := he
  obtain ⟨chain, hl⟩ := hst.sound.lineage k e hk
  have hload := loaded_of_stores hst.sound hisOpen ⟨k, hk⟩ hg hl
  refine ⟨Ident.streamId g, ?_⟩
  have hbeside : ∀ f, ((en.after ops).branch (.str (Ident.streamId g)) e.cid).1 = .error f →
      BreaksBeside (en.after ops).tables e f :=
    fun f hf => hst.breaksBeside_of_branch hvetted ⟨k, hk⟩ hl hload hf
  constructor
  case stream_eq => exact (hst.sound.wellFormed k e hk).streamOf_eq hg
  case accepted =>
    intro haccepts
    cases hbranch : ((en.after ops).branch (.str (Ident.streamId g)) e.cid).1 with
    | ok s => exact ⟨s, rfl⟩
    | error f =>
        obtain ⟨chain', x, reason, hl', hx, hno, -⟩ := hbeside f hbranch
        exact absurd (hst.sound.scope.ancestral e chain' hl' haccepts x hx) hno
  case beside =>
    cases hbranch : ((en.after ops).branch (.str (Ident.streamId g)) e.cid).1 with
    | ok s => exact .inl ⟨s, rfl⟩
    | error f => exact .inr ⟨f, rfl, hbeside f hbranch⟩

/-- An event behind the first one that takes away what is not there. -/
def sampleLost : Event :=
  sampleEvent "lost" (.str "first") (.arr [.obj [("op", .str "remove"), ("path", .str "/m")]])

/-- A small run in which the patch of an event that comes too late cannot be applied. -/
def sampleRace (b : Backend) : Engine :=
  (sampleEngine b (some (.empty (.ofNat 1)))).after
    [.submit sampleGenesis sampleOwner, .submit (sampleUpdate "second" "first" 1) .none,
      .submit sampleLost .none, .submit (sampleUpdate "late" "lost" 3) .none]

/-- An event that comes too late is stored with a patch that cannot be applied. -/
theorem branch_of_lost_breaks : (sampleRace .memory).tables.Stores sampleLost ∧
    streamOf sampleLost = .ok (Ident.streamId "first") ∧
      ((sampleRace .memory).branch (.str (Ident.streamId "first")) sampleLost.cid).1 =
        .error (.malformedEvent sampleLost.cid "patch cannot be applied") :=
  ⟨⟨.text "lost", by decide +kernel⟩, by decide +kernel, by decide +kernel⟩

/-- The tip of a small run is projected, and a branch behind a lost event breaks off at that. -/
theorem stored_projected_sample :
    let en := sampleRace .sqlite
    let second := sampleUpdate "second" "first" 1
    let late := sampleUpdate "late" "lost" 3
    (en.tables.Stores second ∧ ∃ id, en.Projected second id) ∧
      (en.tables.Stores late ∧ ∃ id, en.Projected late id) := by
  intro en second late
  have hfresh := sampleEngine_fresh .sqlite (.ofNat 1)
  have hsecond : en.tables.Stores second := ⟨.text "second", by decide +kernel⟩
  have hlate : en.tables.Stores late := ⟨.text "late", by decide +kernel⟩
  exact ⟨⟨hsecond, hfresh.stored_projected rfl _ hsecond⟩, hlate,
    hfresh.stored_projected rfl _ hlate⟩

end Engine

end ChainFold
