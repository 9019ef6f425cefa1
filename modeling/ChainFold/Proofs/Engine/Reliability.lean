import ChainFold.Proofs.Engine.Provenance

/-!
# What is held can be relied on

A desk may hold states of events that were rolled back and of branches that lost.  Where
a cid names one submitted event, all of them are folds of lineages among the events that
were submitted, and a branch that is projected from them is the fold of its chain.
-/

namespace ChainFold.Engine

variable {en : Engine} {e : Event} {claim : OwnerClaim} {c g : String} {known : Event → Prop}
  {d : Desk}

theorem scope_refl (hb : Binding known) : Scope known known where
  binding := hb
  known_of_scope := fun _ h => h
  ancestral := fun _ _ hl he _ hx => hl.known_of_mem he hx

/-- An engine that has stored known events only, and whose desk is trusted for all of them. -/
structure Reliable (known : Event → Prop) (en : Engine) : Prop where
  sound : en.tables.Sound en.backend
  known_of_stores : ∀ x, en.tables.Stores x → known x
  trusts : en.desk.Trusts en.backend known known

/-- Trust in all known events is more than trust in those that have become tips. -/
theorem Reliable.steady (h : Reliable known en) (hb : Binding known) : en.Steady := by
  refine ⟨h.sound, ?_⟩
  intro e k s he hkey hholds
  have hstored := h.sound.scope.known_of_scope e he
  obtain ⟨chain, f, hl, hf, hagree⟩ := h.trusts e k s (h.known_of_stores e hstored) hkey hholds
  obtain ⟨k', hk'⟩ := hstored
  obtain ⟨chain', hl'⟩ := h.sound.lineage k' e hk'
  obtain rfl := hl.unique hb (hl'.mono h.known_of_stores)
  exact ⟨chain, f, hl', hf, hagree⟩

theorem Reliable.with_desk (h : Reliable known en) (hkeeps : en.desk.Keeps d) :
    Reliable known { en with desk := d } :=
  ⟨h.sound, h.known_of_stores, h.trusts.keeps hkeeps⟩

/-! ## Calls -/

/-- What a submission leaves on a desk can be relied on, whether it was answered or not. -/
theorem Reliable.of_settles (h : Reliable known en) (hb : Binding known) (hwf : e.WellFormed)
    (he : known e) (hc : e.cid = .str c) (hsettles : en.Settles e claim c g d) :
    Reliable known (en.behind d (en.acceptance e claim en.desk.heldAt)) := by
  have hst := h.steady hb
  have htrusts : d.Trusts en.backend known known := by
    rcases hsettles.after with ⟨-, hkeeps⟩ | ⟨s, hfolded, hlearns⟩
    · exact h.trusts.keeps hkeeps
    · refine h.trusts.learns hlearns fun x hx hkey => ?_
      obtain rfl := (scope_refl hb).eq_of_key hx he hkey (by rw [hc]; rfl)
      exact (isFoldAt_of_folded h.sound hst.fits hwf hc hfolded).mono h.known_of_stores
  have hsteady := hsettles.steady
  cases hres : en.acceptance e claim en.desk.heldAt with
  | error f => exact ⟨h.sound, h.known_of_stores, htrusts⟩
  | ok p =>
      obtain ⟨r, holdings⟩ := p
      rw [hres] at hsteady
      refine ⟨hsteady.sound, ?_, htrusts⟩
      intro x hx
      rcases (hsettles.filed r holdings hres).eq_or_stores hx with rfl | hx
      · exact he
      · exact h.known_of_stores x hx

theorem Reliable.submit (h : Reliable known en) (hb : Binding known)
    (hknown : e.WellFormed → known e) (claim : OwnerClaim) :
    Reliable known (en.submit e claim).2 := by
  cases (h.steady hb).submits e claim with
  | refused f d hadm hrecent heq =>
      rw [heq]
      exact h.with_desk (Desk.keeps_of_recent_eq hrecent)
  | settled c g d hadm hwf hc hg hsettles heq =>
      rw [heq]
      exact h.of_settles hb hwf (hknown hwf) hc hsettles

theorem Reliable.rebuild (h : Reliable known en) (hb : Binding known) (id : Json) :
    Reliable known (en.rebuild id).2 := by
  have hsound := ((h.steady hb).rebuild id).sound
  obtain ⟨hevents, -⟩ := (h.steady hb).rebuild_tables id
  obtain ⟨d, hd, hrecent⟩ := en.rebuild_eq id
  have htrusts := h.trusts.keeps (Desk.keeps_of_recent_eq hrecent)
  have hknown : ∀ x, (en.rebuild id).2.tables.Stores x → known x := by
    rw [Tables.stores_of_events_eq hevents]
    exact h.known_of_stores
  rw [hd] at hsound hknown ⊢
  refine ⟨hsound, hknown, ?_⟩
  cases en.rebuilt id <;> exact htrusts

/-- A branch is projected to what its chain folds to. -/
theorem Reliable.exists_branch (h : Reliable known en) (hb : Binding known) {id tip : Json}
    {chain : List Event} (hload : en.loaded id tip = .ok chain) :
    ∃ r d, en.branch id tip = (r, { en with desk := d }) ∧ d.Trusts en.backend known known ∧
      Fold.State.AgreeOn en.backend r (Fold.State.ofChain chain) := by
  obtain ⟨e, he, hl⟩ := exists_lineage_of_loaded h.sound hload
  obtain ⟨d, hrecent, hd⟩ := branch_of_ok hload
  obtain ⟨r, d', hd', htrusts, hagree⟩ := Fold.project_trusts (scope_refl hb)
    (h.known_of_stores e he) (hl.mono h.known_of_stores)
    (h.trusts.keeps (Desk.keeps_of_recent_eq hrecent))
  exact ⟨r, d', by rw [hd, hd'], htrusts, hagree (h.known_of_stores e he)⟩

theorem Reliable.branch (h : Reliable known en) (hb : Binding known) (id tip : Json) :
    Reliable known (en.branch id tip).2 := by
  cases hload : en.loaded id tip with
  | error f =>
      obtain ⟨d, hd, hrecent⟩ := branch_of_error hload
      rw [hd]
      exact h.with_desk (Desk.keeps_of_recent_eq hrecent)
  | ok chain =>
      obtain ⟨r, d, hd, htrusts, -⟩ := h.exists_branch hb hload
      rw [hd]
      exact ⟨h.sound, h.known_of_stores, htrusts⟩

theorem Reliable.reads (h : Reliable known en) {op : Operation} (hop : en.Reads op) :
    Reliable known (en.perform op).2 := by
  obtain ⟨r, hr⟩ := hop
  obtain ⟨d, hd, hrecent⟩ := hr en.desk
  have hd : en.perform op = (r, { en with desk := d }) := hd
  rw [hd]
  exact h.with_desk (Desk.keeps_of_recent_eq hrecent)

theorem Reliable.perform (h : Reliable known en) (hb : Binding known) (op : Operation)
    (hknown : ∀ e ∈ submitted [op], e.WellFormed → known e) :
    Reliable known (en.perform op).2 := by
  cases op with
  | submit e claim => exact h.submit hb (hknown e (List.mem_singleton_self e)) claim
  | rebuild id => exact h.rebuild hb id
  | branch id tip => exact h.branch hb id tip
  | getStream id => exact h.reads (reads_getStream en id)
  | getFolder id => exact h.reads (reads_getFolder en id)
  | getEvent cid => exact h.reads (reads_getEvent en cid)
  | loadEvents id tip => exact h.reads (reads_loadEvents en id tip)
  | listStreams f => exact h.reads (reads_listStreams en f)
  | findByContent model key value => exact h.reads (reads_findByContent en model key value)
  | queryBySignal p => exact h.reads (reads_queryBySignal en p)
  | signals => exact h.reads (reads_signals en)
  | register m => exact ⟨h.sound, h.known_of_stores, h.trusts⟩

theorem Reliable.after (hb : Binding known) (ops : List Operation) (h : Reliable known en)
    (hknown : ∀ e ∈ submitted ops, e.WellFormed → known e) : Reliable known (en.after ops) := by
  induction ops generalizing en with
  | nil => exact h
  | cons op rest ih =>
      rw [submitted_cons] at hknown
      exact ih (h.perform hb op fun e he => hknown e (List.mem_append_left _ he))
        fun e he => hknown e (List.mem_append_right _ he)

/-! ## Runs -/

/-- Well-formed events of a list that share a cid are one event. -/
def Binds (events : List Event) : Prop :=
  ∀ e ∈ events, ∀ e' ∈ events, e.WellFormed → e'.WellFormed → e.cid = e'.cid → e = e'

theorem Binds.of_pairwise {events : List Event}
    (h : events.Pairwise fun x y => x.cid ≠ y.cid) : Binds events := by
  intro e he e' he' _ _ hcid
  exact List.inj_on_of_nodup_map (List.pairwise_map.mpr h) he he' hcid

theorem Binds.binding {events : List Event} (h : Binds events) :
    Binding fun e => e ∈ events ∧ e.WellFormed := by
  constructor
  case text =>
    rintro e ⟨-, hwf⟩
    obtain ⟨c, hc, -⟩ := hwf.cid_text
    exact ⟨c, hc⟩
  case unique =>
    rintro e e' ⟨he, hwf⟩ ⟨he', hwf'⟩ hcid
    exact h e he e' he' hwf hwf' hcid

theorem Fresh.reliable (h : en.Fresh) (known : Event → Prop) : Reliable known en where
  sound := h.steady.sound
  known_of_stores := fun x hx => absurd hx (h.not_stores x)
  trusts := h.trusts _ _

end ChainFold.Engine
