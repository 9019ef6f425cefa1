import ChainFold.Proofs.Chain.Lineage
import ChainFold.Proofs.Fold.Desk

/-!
# Trust in held states

A desk can be trusted for some events if what it holds under their cids is the fold of
their lineages.  A projection resumes from what is held: it keeps the trust, and for
events that the desk is trusted for it comes to what a fold from the start comes to.
-/

namespace ChainFold

/-- A state is the fold of the lineage of an event, as a backend keeps it. -/
def IsFoldAt (b : Backend) (known : Event → Prop) (e : Event) (s : Fold.State) : Prop :=
  ∃ chain f, Lineage known e chain ∧ Fold.State.ofChain chain = .ok f ∧ s.Agree b f

theorem IsFoldAt.mono {b : Backend} {known known' : Event → Prop} {e : Event} {s : Fold.State}
    (h : IsFoldAt b known e s) (hsub : ∀ x, known x → known' x) : IsFoldAt b known' e s := by
  obtain ⟨chain, f, hl, hf, hagree⟩ := h
  exact ⟨chain, f, hl.mono hsub, hf, hagree⟩

/-- The events that a desk is trusted for: known ones, each with its ancestors. -/
structure Scope (known scope : Event → Prop) : Prop where
  binding : Binding known
  known_of_scope : ∀ e, scope e → known e
  ancestral : ∀ e chain, Lineage known e chain → scope e → ∀ x ∈ chain, scope x

theorem Scope.eq_of_key {known scope : Event → Prop} (h : Scope known scope) {x y : Event}
    (hx : scope x) (hy : known y) {k : Key} (hkx : x.cid.key? = some k)
    (hky : y.cid.key? = some k) : x = y := by
  have hkx' := h.known_of_scope x hx
  obtain ⟨c, hc⟩ := h.binding.text x hkx'
  obtain ⟨c', hc'⟩ := h.binding.text y hy
  rw [hc] at hkx
  rw [hc', ← hkx] at hky
  obtain rfl : c' = c := by simpa [Json.key?] using hky
  exact h.binding.unique x y hkx' hy (hc.trans hc'.symm)

namespace Desk

/-- What is held for the events of a scope is the fold of their lineages. -/
def Trusts (b : Backend) (known scope : Event → Prop) (d : Desk) : Prop :=
  ∀ e k s, scope e → e.cid.key? = some k → d.Holds k s → IsFoldAt b known e s

variable {b : Backend} {known scope : Event → Prop} {d d' : Desk}

theorem Trusts.keeps (h : d.Trusts b known scope) (hk : d.Keeps d') : d'.Trusts b known scope :=
  fun e k s he hkey hs => h e k s he hkey (hk.holds k s hs)

theorem Trusts.learns (h : d.Trusts b known scope) {k : Key} {s : Fold.State}
    (hl : d.Learns k s d')
    (hfold : ∀ e, scope e → e.cid.key? = some k → IsFoldAt b known e s) :
    d'.Trusts b known scope := by
  intro e k' s' he hkey hs
  rcases hl.holds k' s' hs with ⟨rfl, rfl⟩ | ⟨-, hs⟩
  · exact hfold e he hkey
  · exact h e k' s' he hkey hs

theorem Trusts.mono {known' scope' : Event → Prop} (h : d.Trusts b known scope)
    (hsub : ∀ x, known x → known' x) (hscope : ∀ x, scope' x → scope x) :
    d.Trusts b known' scope' :=
  fun e k s he hkey hs => (h e k s (hscope e he) hkey hs).mono hsub

/-- Trust carries over to a scope with one more event, if what is held there is its fold. -/
theorem Trusts.insert {known' scope' : Event → Prop} {e : Event} (h : d.Trusts b known scope)
    (hsub : ∀ x, known x → known' x) (hscope : ∀ x, scope' x → x = e ∨ scope x)
    (he : ∀ k s, e.cid.key? = some k → d.Holds k s → IsFoldAt b known' e s) :
    d.Trusts b known' scope' := by
  intro x k s hx hkey hs
  rcases hscope x hx with rfl | hx
  · exact he k s hkey hs
  · exact (h x k s hx hkey hs).mono hsub

theorem trusts_of_none (h : d.recent = none) : d.Trusts b known scope :=
  fun _ k s _ _ hs => absurd hs (not_holds_of_none h k s)

end Desk

namespace Fold

variable {b : Backend} {known scope : Event → Prop} {e : Event}

/-- Looking back for a held state finds one that is held at an event of the chain, if any. -/
theorem resume?_on (fromTip behind : List Event)
    (hkeys : ∀ x ∈ fromTip, ∃ k, x.cid.key? = some k) (d : Desk) :
    ∃ r d', (resume? fromTip behind).on d = (.ok r, d') ∧ d.Keeps d' ∧
      ∀ s after, r = some (s, after) → ∃ before x mid k, fromTip.reverse = before ++ x :: mid ∧
        after = mid ++ behind ∧ x.cid.key? = some k ∧ d.Holds k s := by
  induction fromTip generalizing behind d with
  | nil => exact ⟨none, d, rfl, .refl d, by simp⟩
  | cons x rest ih =>
      obtain ⟨⟨k, hk⟩, hrest⟩ := List.forall_mem_cons.mp hkeys
      obtain ⟨d₁, hd₁, hkeeps⟩ := fetch_on (d := d) hk
      unfold resume?
      rw [Work.on_bind_ok hd₁]
      cases hheld : d.heldAt x.cid with
      | some s =>
          refine ⟨some (s, behind), d₁, rfl, hkeeps, ?_⟩
          intro s' after heq
          obtain ⟨rfl, rfl⟩ := Prod.mk.inj (Option.some.inj heq)
          have hholds : d.Holds k s := by
            rw [Desk.heldAt, hk] at hheld
            exact Desk.holds_of_held? hheld
          exact ⟨rest.reverse, x, [], k, by simp, by simp, hk, hholds⟩
      | none =>
          obtain ⟨r, d', hd', hkeeps', hfound⟩ := ih (x :: behind) hrest d₁
          refine ⟨r, d', hd', hkeeps.trans hkeeps', ?_⟩
          intro s after heq
          obtain ⟨before, y, mid, k', hsplit, rfl, hk', hs⟩ := hfound s after heq
          exact ⟨before, y, mid ++ [x], k', by simp [hsplit], by simp, hk', hkeeps.holds k' s hs⟩

/-- Folding on from an event of a chain keeps the trust, and is right where the start is. -/
theorem steps_trusts (hscope : Scope known scope) (he : known e) (before : List Event)
    {rest : List Event} {x : Event} (hl : Lineage known e (before ++ x :: rest)) {s : State}
    (hright : scope x → ∃ f, State.ofChain (before ++ [x]) = .ok f ∧ s.Agree b f) {d : Desk}
    (htrust : d.Trusts b known scope) :
    ∃ r d', (steps s rest).on d = (r, d') ∧ d'.Trusts b known scope ∧
      (scope e → State.AgreeOn b r (State.ofChain (before ++ x :: rest))) := by
  induction rest generalizing before x s d with
  | nil =>
      refine ⟨.ok s, d, rfl, htrust, ?_⟩
      intro hse
      obtain ⟨f, hf, hagree⟩ := hright (hscope.ancestral e _ hl hse x (by simp))
      rw [hf]
      exact hagree
  | cons y rest ih =>
      have hsplit : before ++ x :: y :: rest = (before ++ [x]) ++ y :: rest := by simp
      have hly : Lineage known y ((before ++ [x]) ++ [y]) := hl.of_append_cons hsplit
      have hy : known y := hl.known_of_mem he (by simp)
      have hxy : scope y → scope x := fun hsy => hscope.ancestral y _ hly hsy x (by simp)
      obtain ⟨c, hc⟩ := hscope.binding.text y hy
      have hk : y.cid.key? = some (.text c) := by rw [hc]; rfl
      unfold steps
      rcases step_folds s hk d with ⟨f, hf, hd⟩ | ⟨s', d₁, hs', hd₁, hlearns⟩
      · refine ⟨.error f, d, Work.on_bind_error hd, htrust, ?_⟩
        intro hse
        obtain ⟨f₀, hf₀, hagree⟩ := hright (hscope.ancestral e _ hl hse x (by simp))
        have hstep := hagree.advance y
        rw [hf] at hstep
        rw [hsplit, State.ofChain_append (by simp), hf₀]
        simp only [State.advanceAll, hstep.error_left]
        rfl
      · have hnext : scope y → ∃ f, State.ofChain ((before ++ [x]) ++ [y]) = .ok f ∧
            s'.Agree b f := by
          intro hsy
          obtain ⟨f₀, hf₀, hagree⟩ := hright (hxy hsy)
          obtain ⟨f', hf', hagree'⟩ := hagree.exists_advance hs'
          refine ⟨f', ?_, hagree'⟩
          rw [State.ofChain_concat (by simp), hf₀]
          exact hf'
        -- The new state is trusted even if a later event of the chain cannot be folded.
        have htrust₁ : d₁.Trusts b known scope := by
          refine htrust.learns hlearns fun z hz hkey => ?_
          obtain rfl := hscope.eq_of_key hz hy hkey hk
          obtain ⟨f, hf, hagree⟩ := hnext hz
          exact ⟨_, f, hly, hf, hagree⟩
        obtain ⟨r, d', hd', htrust', hagree⟩ :=
          ih (before ++ [x]) (hsplit ▸ hl) hnext htrust₁
        refine ⟨r, d', ?_, htrust', fun hse => ?_⟩
        · rw [Work.on_bind_ok hd₁, hd']
        · rw [hsplit]
          exact hagree hse

/-- Looking for a held state finds none, or one at an event of the chain. -/
theorem resume_on (chain : List Event) (hkeys : ∀ x ∈ chain, ∃ k, x.cid.key? = some k)
    (d : Desk) :
    ∃ r d', (resume chain).on d = (.ok r, d') ∧ d.Keeps d' ∧
      ∀ s after, r = some (s, after) → ∃ before x k, chain = before ++ x :: after ∧
        x.cid.key? = some k ∧ d.Holds k s := by
  unfold resume
  rw [Work.on_get_bind]
  split
  · obtain ⟨r, d', hd', hkeeps, hfound⟩ :=
      resume?_on chain.reverse [] (fun x hx => hkeys x (List.mem_reverse.mp hx)) d
    refine ⟨r, d', hd', hkeeps, ?_⟩
    intro s after heq
    obtain ⟨before, x, mid, k, hsplit, rfl, hk, hs⟩ := hfound s after heq
    exact ⟨before, x, k, by simpa using hsplit, hk, hs⟩
  · exact ⟨none, d, rfl, .refl d, by simp⟩

theorem start_trusts (hscope : Scope known scope) (he : known e) {g : Event} {rest : List Event}
    (hl : Lineage known e (g :: rest)) {d : Desk} (htrust : d.Trusts b known scope) :
    ∃ r d', (do steps (← start g) rest : Work State).on d = (r, d') ∧
      d'.Trusts b known scope ∧ (scope e → State.AgreeOn b r (State.ofChain (g :: rest))) := by
  have hlg : Lineage known g [g] := hl.of_append_cons (show g :: rest = [] ++ g :: rest from rfl)
  have hg : known g := hl.known_of_mem he (by simp)
  obtain ⟨c, hc⟩ := hscope.binding.text g hg
  have hk : g.cid.key? = some (.text c) := by rw [hc]; rfl
  rcases start_folds hk d with ⟨f, hf, hd⟩ | ⟨s, d₁, hs, hd₁, hlearns⟩
  · refine ⟨.error f, d, Work.on_bind_error hd, htrust, fun _ => ?_⟩
    simp only [State.ofChain, hf]
    rfl
  · have hfold : State.ofChain [g] = .ok s := by rw [State.ofChain_singleton, hs]
    have hagree : s.Agree b s := State.agree_refl (State.sane_of_ofGenesis hs).tidy
    have htrust₁ : d₁.Trusts b known scope := by
      refine htrust.learns hlearns fun z hz hkey => ?_
      obtain rfl := hscope.eq_of_key hz hg hkey hk
      exact ⟨[z], s, hlg, hfold, hagree⟩
    obtain ⟨r, d', hd', htrust', hright⟩ := steps_trusts hscope he [] hl
      (fun _ => ⟨s, hfold, hagree⟩) htrust₁
    exact ⟨r, d', (Work.on_bind_ok hd₁).trans hd', htrust', hright⟩

theorem noted_on (chain : List Event) {w : Work State} {r : Except Failure State} {d d₁ : Desk}
    (hw : w.on d = (r, d₁)) :
    ∃ d', (do let s ← w; noteProjected chain s; pure s : Work State).on d = (r, d') ∧
      d₁.Keeps d' := by
  cases r with
  | error f => exact ⟨d₁, Work.on_bind_error hw, .refl d₁⟩
  | ok s =>
      obtain ⟨d', hd', hrecent⟩ := (Work.IsPlain.pure s).note_bind.on_eq d₁
      exact ⟨d', (Work.on_bind_ok hw).trans hd', Desk.keeps_of_recent_eq hrecent⟩

/-- A projection keeps the trust, and comes to the fold of the chain where there is trust. -/
theorem project_trusts (hscope : Scope known scope) (he : known e) {chain : List Event}
    (hl : Lineage known e chain) {d : Desk} (htrust : d.Trusts b known scope) :
    ∃ r d', (project chain).on d = (r, d') ∧ d'.Trusts b known scope ∧
      (scope e → State.AgreeOn b r (State.ofChain chain)) := by
  have hkeys : ∀ x ∈ chain, ∃ k, x.cid.key? = some k := by
    intro x hx
    obtain ⟨c, hc⟩ := hscope.binding.text x (hl.known_of_mem he hx)
    exact ⟨.text c, by rw [hc]; rfl⟩
  obtain ⟨found, d₁, hd₁, hkeeps, hfound⟩ := resume_on chain hkeys d
  have htrust₁ := htrust.keeps hkeeps
  obtain ⟨g, rest, rfl, -, -⟩ := hl.exists_cons
  unfold project
  rw [Work.on_bind_ok hd₁]
  cases found with
  | none =>
      obtain ⟨r, d₂, hd₂, htrust₂, hright⟩ := start_trusts hscope he hl htrust₁
      obtain ⟨d', hd', hk'⟩ := noted_on (g :: rest) hd₂
      rw [bind_assoc] at hd'
      exact ⟨r, d', hd', htrust₂.keeps hk', hright⟩
  | some p =>
      obtain ⟨s, behind⟩ := p
      obtain ⟨before, x, k, hsplit, hk, hs⟩ := hfound s behind rfl
      have hlx : Lineage known x (before ++ [x]) := hl.of_append_cons hsplit
      obtain ⟨r, d₂, hd₂, htrust₂, hright⟩ := steps_trusts hscope he before (hsplit ▸ hl)
        (fun hx => by
          obtain ⟨chain, f, hl', hf, hagree⟩ := htrust x k s hx hk hs
          exact ⟨f, hlx.unique hscope.binding hl' ▸ hf, hagree⟩) htrust₁
      obtain ⟨d', hd', hk'⟩ := noted_on (g :: rest) hd₂
      exact ⟨r, d', hd', htrust₂.keeps hk', fun hse => hsplit ▸ hright hse⟩

end Fold

end ChainFold
