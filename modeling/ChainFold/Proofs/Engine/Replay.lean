import ChainFold.Proofs.Engine.Ancestry
import ChainFold.Proofs.Engine.Reliability
import ChainFold.Proofs.Engine.Verdict

/-!
# Branches replayed

A branch is projected to the content that its stream would have with another tip: the
events of its chain, submitted one after another to an engine that starts afresh, are all
applied and leave a stream with that state, or they are applied up to the first event that
the projection cannot fold, which is refused for the same reason.
-/

namespace ChainFold

/-! ## Where a fold breaks off -/

namespace Fold.State

variable {s : State} {f : Failure} {e : Event}

theorem exists_of_append {before after : List Event} (hne : before ≠ [])
    (h : ofChain (before ++ after) = .ok s) : ∃ s', ofChain before = .ok s' := by
  rw [ofChain_append hne] at h
  cases hbefore : ofChain before with
  | error f => simp [hbefore] at h
  | ok s' => exact ⟨s', rfl⟩

/-- A chain that cannot be folded has a first event at which the fold breaks off. -/
theorem exists_break {chain : List Event} (hne : chain ≠ []) (h : ofChain chain = .error f) :
    ∃ before x after, chain = before ++ x :: after ∧ ofChain (before ++ [x]) = .error f ∧
      (before ≠ [] → ∃ s, ofChain before = .ok s) := by
  induction chain using List.reverseRecOn with
  | nil => exact absurd rfl hne
  | append_singleton front y ih =>
      by_cases hfront : front = []
      · exact ⟨front, y, [], rfl, h, fun hne => absurd hfront hne⟩
      · cases hfold : ofChain front with
        | ok s => exact ⟨front, y, [], rfl, h, fun _ => ⟨s, hfold⟩⟩
        | error f' =>
            rw [ofChain_concat hfront, hfold] at h
            obtain rfl := Except.error.inj h
            obtain ⟨before, x, after, rfl, hbreak, hbefore⟩ := ih hfront hfold
            exact ⟨before, x, after ++ [y], by simp, hbreak, hbefore⟩

end Fold.State

namespace Engine

variable {en fr : Engine} {e x : Event} {c g : String} {claim : OwnerClaim} {held : Held}
  {known : Event → Prop} {chain : List Event}

/-! ## Vetted events -/

/-- An event that is admitted, and whose header can be used if it starts a chain. -/
structure Vetted (en : Engine) (e : Event) : Prop where
  admitted : en.admission e = .ok e
  headed : ∀ s, Fold.State.ofGenesis e = .ok s → Resolution.headerFault? s = none

theorem Vetted.of_limit_eq (h : en.Vetted e) (hlimit : fr.maxBlockBytes = en.maxBlockBytes) :
    fr.Vetted e := by
  refine ⟨?_, h.headed⟩
  unfold admission
  rw [hlimit]
  exact h.admitted

theorem Filed.stores_or_new {b : Backend} {t t' : Tables} {id : String} {r : Receipt}
    (h : Filed b held t e c id t' r) : t.Stores e ∨ t.events.get? (.text c) = none := by
  cases h with
  | duplicate hstored => exact .inl ⟨_, hstored⟩
  | created hnew => exact .inr hnew
  | beside hnew => exact .inr hnew
  | advanced hnew => exact .inr hnew

theorem Steady.vetted_of_submit (hst : en.Steady) (h : ∀ x, en.tables.Stores x → en.Vetted x)
    (hx : (en.submit e claim).2.tables.Stores x) : en.Vetted x := by
  cases hst.commits e claim with
  | failed f d heq =>
      rw [heq] at hx
      exact h x hx
  | answered c g r holdings d hadm hwf hc hg hres hfiled heq =>
      rw [heq] at hx
      rcases hfiled.eq_or_stores hx with rfl | hx
      · rcases hfiled.stores_or_new with hstored | hnew
        · exact h x hstored
        · refine ⟨hadm, ?_⟩
          intro s hs
          -- The header was checked when the event started its chain.
          have hprev : x.prev = .null := by
            simpa [hwf.isGenesis_eq] using Fold.State.isGenesis_of_ofGenesis hs
          have hruling := ruling_of_acceptance (hwf.streamOf_eq hg) hres
          rw [ruling_of_null hwf hc hnew hprev] at hruling
          obtain ⟨owner, -, hcreated⟩ := bind_eq_ok.mp hruling
          obtain ⟨s', hs', hcreated⟩ := bind_eq_ok.mp hcreated
          obtain rfl := Except.ok.inj (hs.symm.trans hs')
          have htip := Fold.State.tip_of_ofGenesis hs
          exact (Resolution.takes_of_established hc htip hcreated).1
      · exact h x hx

theorem Steady.vetted_of_perform (hst : en.Steady) (h : ∀ x, en.tables.Stores x → en.Vetted x)
    (op : Operation) (hx : (en.perform op).2.tables.Stores x) : en.Vetted x := by
  cases op with
  | submit e claim => exact hst.vetted_of_submit h hx
  | rebuild id =>
      have hstores := Tables.stores_of_events_eq (hst.rebuild_tables id).1
      exact h x (hstores ▸ hx)
  | branch | getStream | getFolder | getEvent | loadEvents | listStreams | findByContent
  | queryBySignal | signals | register => exact h x hx

theorem Fresh.vetted (h : en.Fresh) (ops : List Operation)
    (hx : (en.after ops).tables.Stores x) : en.Vetted x := by
  have hrun : ∀ (ops : List Operation) (en : Engine), en.Steady →
      (∀ x, en.tables.Stores x → en.Vetted x) → (en.after ops).tables.Stores x → en.Vetted x := by
    intro ops
    induction ops with
    | nil => exact fun en _ h hx => h x hx
    | cons op rest ih =>
        intro en hst h hx
        have hlimit := (perform_sameSetup en op).limit_eq
        refine (ih _ (hst.perform op) ?_ hx).of_limit_eq hlimit.symm
        intro y hy
        exact (hst.vetted_of_perform h op hy).of_limit_eq hlimit
  exact hrun ops en h.steady (fun y hy => absurd hy (h.not_stores y)) hx

/-! ## Submissions in step with a fold -/

/-- The owner that a claim names by itself. -/
def OwnerClaim.given? : OwnerClaim → Option Uuid
  | .none => Option.none
  | .uuid u => some u
  | .text s => (Uuid.read s).toOption

theorem ownerOf_of_given {reg : Registry} {owner : Uuid} (h : claim.given? = some owner) :
    ownerOf reg e claim = .ok owner := by
  cases claim with
  | none => simp [OwnerClaim.given?] at h
  | uuid u => exact congrArg Except.ok (Option.some.inj h)
  | text s =>
      cases hread : Uuid.read s with
      | error f => simp [OwnerClaim.given?, hread, Except.toOption] at h
      | ok u =>
          simp only [OwnerClaim.given?, hread, Except.toOption, Option.some.injEq] at h
          simp [ownerOf, hread, h]

theorem Steady.submit_of_start (hst : fr.Steady) (hready : fr.Ready) (hvetted : fr.Vetted e)
    (hg : e.genesis = .str g) (hprev : e.prev = .null) {owner : Uuid}
    (howner : claim.given? = some owner) (hnew : ∀ x, fr.tables.Stores x → x.cid ≠ e.cid)
    (hrow : fr.tables.streams.get? (.text (Ident.streamId g)) = none) :
    (fr.submit e claim).1 = .ok (Resolution.appliedReceipt (.str (Ident.streamId g)) e) := by
  obtain ⟨-, hwf, p, hp⟩ := admission_eq_ok hvetted.admitted
  obtain ⟨c, hc, -⟩ := hwf.cid_text
  have hnone := hst.sound.get?_eq_none hc hnew
  have hstate := ofGenesis_eq (by simp [hwf.isGenesis_eq, hprev]) hp
  rw [hst.submit_eq hready hvetted.admitted hg, ruling_of_null hwf hc hnone hprev,
    ownerOf_of_given howner, ok_bind, Resolution.creation, hstate, ok_bind]
  exact established_applied hready hwf hc rfl (hvetted.headed _ hstate) hnone hrow owner

/--
An engine that has stored the events of a chain and nothing else, and has moved the tip of
their stream to the last of them.
-/
structure CaughtUp (fr : Engine) (g : String) (e : Event) (chain : List Event) : Prop where
  steady : fr.Steady
  ready : fr.Ready
  mem_of_stores : ∀ x, fr.tables.Stores x → x ∈ chain
  exists_row : ∃ row, fr.tables.streams.get? (.text (Ident.streamId g)) = some row ∧
    row.tip = e.cid

/-- An engine that has stored the events before an applied one has then caught up with it. -/
theorem caughtUp_of_applied (hst : fr.Steady) (hready : fr.Ready)
    (hmem : ∀ x, fr.tables.Stores x → x ∈ chain) (hg : e.genesis = .str g) {id : Json}
    (happlied : (fr.submit e claim).1 = .ok (Resolution.appliedReceipt id e)) :
    (fr.submit e claim).2.CaughtUp g e (chain ++ [e]) := by
  constructor
  case steady => exact hst.submit e claim
  case ready => exact hready.after hst [.submit e claim]
  case mem_of_stores =>
    intro x hx
    rcases hst.eq_or_stores_of_submit hx with rfl | hx
    · exact List.mem_append_right _ (List.mem_singleton_self x)
    · exact List.mem_append_left _ (hmem x hx)
  case exists_row => exact (hst.exists_row hg happlied).2

/-- The stream of an engine that has caught up with a lineage is its fold. -/
theorem CaughtUp.exists_projects (h : fr.CaughtUp g e chain) (hb : Binding known)
    (hl : Lineage known e chain) (he : known e) (hg : e.genesis = .str g) :
    ∃ row s, fr.tables.streams.get? (.text (Ident.streamId g)) = some row ∧
      fr.tables.Projects fr.backend row g e chain s ∧ Fold.State.ofRow row = s := by
  obtain ⟨row, hrow, htip⟩ := h.exists_row
  obtain ⟨g', tip, chain', s, -, hp⟩ := h.steady.sound.projects _ row hrow
  have hsub : ∀ x, fr.tables.Stores x → known x :=
    fun x hx => hl.known_of_mem he (h.mem_of_stores x hx)
  obtain rfl := hb.unique tip e (hsub _ hp.stored) he (hp.tip_eq.symm.trans htip)
  obtain rfl : g' = g := Json.str.inj (hp.genesis_eq.symm.trans hg)
  obtain rfl := (hp.lineage.mono hsub).unique hb hl
  have hagree := hp.agree
  rw [h.ready.backend_eq] at hagree
  exact ⟨row, s, hrow, hp, Fold.State.agree_memory_iff.mp hagree⟩

/-- An engine that has caught up with a chain answers the next event as its fold goes on. -/
theorem CaughtUp.submit_eq {parent : Event} (h : fr.CaughtUp g parent chain) (hb : Binding known)
    (hl : Lineage known parent chain) (hparent : known parent) (hvetted : fr.Vetted e)
    (hg : e.genesis = .str g) (hprev : e.prev = parent.cid)
    (hgenesis : parent.genesis = e.genesis) (hnew : ∀ x ∈ chain, x.cid ≠ e.cid)
    (claim : OwnerClaim) :
    (fr.submit e claim).1 = (Fold.State.ofChain (chain ++ [e])).map fun _ =>
      Resolution.appliedReceipt (.str (Ident.streamId g)) e := by
  obtain ⟨-, hwf, -⟩ := admission_eq_ok hvetted.admitted
  obtain ⟨c, hc, -⟩ := hwf.cid_text
  obtain ⟨row, s, hrow, hp, hstate⟩ := h.exists_projects hb hl hparent (hgenesis.trans hg)
  obtain ⟨tip, htip⟩ := h.steady.sound.binding.text parent hp.stored
  have hnone := h.steady.sound.get?_eq_none hc fun x hx => hnew x (h.mem_of_stores x hx)
  rw [h.steady.submit_eq h.ready hvetted.admitted hg,
    ruling_of_parent h.steady.sound hwf hc hnone hp.stored hprev hgenesis hrow,
    advancement_applied h.ready h.steady.sound h.steady.fits hwf hc hnone hrow hp.id_eq
      (hp.tip_eq.trans htip) (hprev.trans hp.tip_eq.symm),
    hstate, Fold.State.ofChain_concat hl.ne_nil, hp.fold]

/-! ## Chains replayed -/

def replay (claims : Event → OwnerClaim) (chain : List Event) : List Operation :=
  chain.map fun e => .submit e (claims e)

theorem after_append (en : Engine) (ops more : List Operation) :
    en.after (ops ++ more) = (en.after ops).after more := by
  induction ops generalizing en with
  | nil => rfl
  | cons op rest ih => exact ih (en.perform op).2

variable {claims : Event → OwnerClaim}

theorem after_replay_concat (en : Engine) (chain : List Event) (e : Event) :
    en.after (replay claims (chain ++ [e])) =
      ((en.after (replay claims chain)).submit e (claims e)).2 := by
  rw [replay, List.map_append, after_append]
  rfl

/-- An engine afresh in memory that applies the events of known lineages as they fold. -/
structure Replays (known : Event → Prop) (claims : Event → OwnerClaim) (fr : Engine) : Prop where
  binding : Binding known
  fresh : fr.Fresh
  ready : fr.Ready
  vetted : ∀ x, known x → fr.Vetted x
  given : ∀ x, x.isGenesis = true → ∃ owner, (claims x).given? = some owner

theorem Replays.vetted_after (h : Replays known claims fr) (ops : List Operation) (hx : known x) :
    (fr.after ops).Vetted x :=
  (h.vetted x hx).of_limit_eq (after_sameSetup fr ops).limit_eq

theorem Replays.submit_first (h : Replays known claims fr) (he : known e) (hprev : e.prev = .null)
    (hg : e.genesis = .str g) :
    (fr.submit e (claims e)).1 = .ok (Resolution.appliedReceipt (.str (Ident.streamId g)) e) := by
  obtain ⟨-, hwf, -⟩ := admission_eq_ok (h.vetted e he).admitted
  obtain ⟨owner, howner⟩ := h.given e (by simp [hwf.isGenesis_eq, hprev])
  have hrow : fr.tables.streams.get? (.text (Ident.streamId g)) = none := by
    rw [h.fresh.tables_eq]
    rfl
  exact h.fresh.steady.submit_of_start h.ready (h.vetted e he) hg hprev howner
    (fun x hx => absurd hx (h.fresh.not_stores x)) hrow

/-- An engine to which a lineage that can be folded is submitted catches up with it. -/
theorem Replays.caughtUp (h : Replays known claims fr) (hl : Lineage known e chain) (he : known e)
    (hg : e.genesis = .str g) {s : Fold.State} (hs : Fold.State.ofChain chain = .ok s) :
    (fr.after (replay claims chain)).CaughtUp g e chain := by
  induction hl generalizing s with
  | first hprev hgenesis =>
      have hnone : ∀ x, fr.tables.Stores x → x ∈ [] :=
        fun x hx => absurd hx (h.fresh.not_stores x)
      exact caughtUp_of_applied h.fresh.steady h.ready hnone hg (h.submit_first he hprev hg)
  | @next e parent chain hparent hprev hgenesis hl ih =>
      obtain ⟨s₀, hs₀⟩ := Fold.State.exists_of_append hl.ne_nil hs
      have hcaught := ih hparent (hgenesis.trans hg) hs₀
      have hnew := (Lineage.next hparent hprev hgenesis hl).not_mem_of_concat h.binding he rfl
      have happlied := hcaught.submit_eq h.binding hl hparent (h.vetted_after _ he) hg hprev
        hgenesis hnew (claims e)
      rw [hs] at happlied
      rw [after_replay_concat]
      exact caughtUp_of_applied hcaught.steady hcaught.ready hcaught.mem_of_stores hg happlied

/-- The next event behind a chain that can be folded is answered as the fold goes on. -/
theorem Replays.submit_next (h : Replays known claims fr) {before : List Event}
    (hl : Lineage known e (before ++ [e])) (he : known e) (hg : e.genesis = .str g)
    (hbefore : before ≠ [] → ∃ s, Fold.State.ofChain before = .ok s) :
    ((fr.after (replay claims before)).submit e (claims e)).1 =
      (Fold.State.ofChain (before ++ [e])).map fun _ =>
        Resolution.appliedReceipt (.str (Ident.streamId g)) e := by
  generalize hchain : before ++ [e] = chain at hl
  cases hl with
  | first hprev =>
      obtain rfl : before = [] := by simpa using hchain
      obtain ⟨-, hwf, p, hp⟩ := admission_eq_ok (h.vetted e he).admitted
      have hstate := ofGenesis_eq (by simp [hwf.isGenesis_eq, hprev]) hp
      rw [Fold.State.ofChain_singleton, hstate]
      exact h.submit_first he hprev hg
  | next hparent hprev hgenesis hl =>
      obtain rfl := (List.append_inj' hchain rfl).1
      obtain ⟨s, hs⟩ := hbefore hl.ne_nil
      have hcaught := h.caughtUp hl hparent (hgenesis.trans hg) hs
      have hnew := (Lineage.next hparent hprev hgenesis hl).not_mem_of_concat h.binding he rfl
      exact hcaught.submit_eq h.binding hl hparent (h.vetted_after _ he) hg hprev hgenesis hnew
        (claims e)

theorem Replays.malformed_of_break (h : Replays known claims fr) {before : List Event}
    (hl : Lineage known e (before ++ [e])) (he : known e) {f : Failure}
    (hbefore : before ≠ [] → ∃ s, Fold.State.ofChain before = .ok s)
    (hbreak : Fold.State.ofChain (before ++ [e]) = .error f) :
    ∃ reason, f = .malformedEvent e.cid reason := by
  obtain ⟨-, hwf, p, hp⟩ := admission_eq_ok (h.vetted e he).admitted
  by_cases hempty : before = []
  · subst hempty
    obtain ⟨first, rest, hfirst, hprev, -⟩ := hl.exists_cons
    obtain ⟨rfl, -⟩ := List.cons.inj hfirst
    rw [List.nil_append, Fold.State.ofChain_singleton,
      ofGenesis_eq (by simp [hwf.isGenesis_eq, hprev]) hp] at hbreak
    cases hbreak
  · obtain ⟨s, hs⟩ := hbefore hempty
    rw [Fold.State.ofChain_concat hempty, hs] at hbreak
    exact Fold.State.malformed_of_advance hp hbreak

/-- Every event of a chain is applied when the chain is replayed. -/
def AppliesAll (fr : Engine) (claims : Event → OwnerClaim) (id : String) (chain : List Event) :
    Prop :=
  ∀ before x after, chain = before ++ x :: after →
    ((fr.after (replay claims before)).submit x (claims x)).1 =
      .ok (Resolution.appliedReceipt (.str id) x)

theorem Replays.appliesAll (h : Replays known claims fr) {before after : List Event}
    (hl : Lineage known e (before ++ after)) (he : known e) (hg : e.genesis = .str g)
    (hbefore : before ≠ [] → ∃ s, Fold.State.ofChain before = .ok s) :
    fr.AppliesAll claims (Ident.streamId g) before := by
  rintro front x back rfl
  have hsplit : (front ++ x :: back) ++ after = front ++ x :: (back ++ after) := by simp
  have hx : x ∈ (front ++ x :: back) ++ after := by simp
  have hlx : Lineage known x (front ++ [x]) := hl.of_append_cons hsplit
  -- What stands in front of a chain that can be folded can be folded as well.
  obtain ⟨s, hs⟩ := hbefore (by simp)
  have hfront : front ≠ [] → ∃ s, Fold.State.ofChain front = .ok s :=
    fun hne => Fold.State.exists_of_append hne hs
  have hfold : Fold.State.ofChain ((front ++ [x]) ++ back) = .ok s := by simpa using hs
  obtain ⟨s', hs'⟩ := Fold.State.exists_of_append (by simp) hfold
  rw [h.submit_next hlx (hl.known_of_mem he hx) ((hl.genesis_eq_of_mem hx).trans hg) hfront, hs']
  rfl

/-! ## Branches replayed -/

/-- What comes of the chain of a branch in an engine that starts afresh. -/
structure Replayed (en fr : Engine) (claims : Event → OwnerClaim) (id : String) (t : Event)
    (chain : List Event) : Prop where
  loaded : (en.loadEvents (.str id) t.cid).1 = .ok chain
  /-- A branch that is projected is the stream that its chain leads to. -/
  projected : ∀ s, (en.branch (.str id) t.cid).1 = .ok s → fr.AppliesAll claims id chain ∧
    ∃ row, ((fr.after (replay claims chain)).getStream (.str id)).1 = .ok row ∧
      row.tip = t.cid ∧ row.content.canonical = s.content.canonical ∧ row.model = s.model ∧
        row.account = s.account
  /-- A branch breaks off at an event that is malformed and is refused for the same reason. -/
  broken : ∀ f, (en.branch (.str id) t.cid).1 = .error f → ∃ before x after reason,
    chain = before ++ x :: after ∧ f = .malformedEvent x.cid reason ∧
      fr.AppliesAll claims id before ∧
      ((fr.after (replay claims before)).submit x (claims x)).1 = .error f

theorem Replays.replayed (h : Replays known claims fr) {t : Event} (hl : Lineage known t chain)
    (ht : known t) (hg : t.genesis = .str g)
    (hload : (en.loadEvents (.str (Ident.streamId g)) t.cid).1 = .ok chain)
    {r : Except Failure Fold.State}
    (hbranch : (en.branch (.str (Ident.streamId g)) t.cid).1 = r)
    (hagree : Fold.State.AgreeOn en.backend r (Fold.State.ofChain chain)) :
    en.Replayed fr claims (Ident.streamId g) t chain := by
  refine ⟨hload, ?_, ?_⟩
  · intro s hs
    rw [← hbranch, hs] at hagree
    obtain ⟨f, hf, hagree⟩ := hagree.ok_left
    have hcaught := h.caughtUp hl ht hg hf
    obtain ⟨row, s', hrow, hp, hstate⟩ := hcaught.exists_projects h.binding hl ht hg
    obtain rfl := Except.ok.inj (hf.symm.trans hp.fold)
    have hwhole : Lineage known t (chain ++ []) := by simpa using hl
    refine ⟨h.appliesAll hwhole ht hg fun _ => ⟨f, hf⟩, row, ?_, hp.tip_eq, ?_, ?_, ?_⟩
    · rw [getStream_eq]
      exact streamFound_eq hcaught.steady hcaught.ready.checkOpen hrow
    · rw [hagree.content.canonical_eq]
      exact congrArg (fun s => s.content.canonical) hstate
    · exact hp.model_eq.trans hagree.model.symm
    · exact hp.account_eq.trans hagree.account.symm
  · intro f hf
    rw [← hbranch, hf] at hagree
    obtain ⟨before, x, after, rfl, hbreak, hbefore⟩ :=
      Fold.State.exists_break hl.ne_nil hagree.error_left
    have hlx : Lineage known x (before ++ [x]) := hl.of_append_cons rfl
    have hx : x ∈ before ++ x :: after := by simp
    have hanswer := h.submit_next hlx (hl.known_of_mem ht hx) ((hl.genesis_eq_of_mem hx).trans hg)
      hbefore
    rw [hbreak] at hanswer
    obtain ⟨reason, hreason⟩ :=
      h.malformed_of_break hlx (hl.known_of_mem ht hx) hbefore hbreak
    exact ⟨before, x, after, reason, rfl, hreason, h.appliesAll hl ht hg hbefore, hanswer⟩

/--
Whatever has been submitted, rebuilt, projected and read since the store was empty, each
branch is what its chain leads to when it is replayed in an engine that starts afresh in
memory and checks events in the same way.
-/
theorem Fresh.branch_replayed (h : en.Fresh) (hopen : en.store.isOpen = true)
    (ops : List Operation) (hbinds : Binds (submitted ops)) (hfresh : fr.Fresh)
    (hready : fr.Ready) (hlimit : fr.maxBlockBytes = en.maxBlockBytes)
    (hgiven : ∀ x, x.isGenesis = true → ∃ owner, (claims x).given? = some owner) {t : Event}
    (ht : (en.after ops).tables.Stores t) {id : String} (hid : streamOf t = .ok id) :
    ∃ chain, (en.after ops).Replayed fr claims id t chain := by
  have hsound := (h.steady.after ops).sound
  have hreliable : Reliable (fun e => e ∈ submitted ops ∧ e.WellFormed) (en.after ops) :=
    (h.reliable _).after hbinds.binding ops fun e he hwf => ⟨he, hwf⟩
  have hreplays : Replays (en.after ops).tables.Stores claims fr :=
    ⟨hsound.binding, hfresh, hready, fun x hx => (h.vetted ops hx).of_limit_eq hlimit, hgiven⟩
  have hisOpen : (en.after ops).checkOpen = .ok () := by
    simp [checkOpen, (after_sameSetup en ops).isOpen_eq.trans hopen]
  have hwf := hsound.wellFormed_of_stores ht
  obtain ⟨g, hg, -⟩ := hwf.genesis_text
  obtain rfl : id = Ident.streamId g := Except.ok.inj (hid.symm.trans (hwf.streamOf_eq hg))
  obtain ⟨k, hk⟩ := ht
  obtain ⟨chain, hl⟩ := hsound.lineage k t hk
  have hload := loaded_of_stores hsound hisOpen ⟨k, hk⟩ hg hl
  obtain ⟨r, d, hbranch, -, hagree⟩ := hreliable.exists_branch hbinds.binding hload
  refine ⟨chain, hreplays.replayed hl ⟨k, hk⟩ hg ?_ (congrArg Prod.fst hbranch) hagree⟩
  rw [loadEvents_eq, hload]

/-- A branch that lost the tip and breaks off, and the one that holds the tip. -/
theorem branch_replayed_sample :
    let lost := sampleEvent "lost" (.str "first")
      (.arr [.obj [("op", .str "remove"), ("path", .str "/m")]])
    let late := sampleUpdate "late" "lost" 3
    let second := sampleUpdate "second" "first" 1
    let id := Ident.streamId "first"
    let ops := [.submit sampleGenesis sampleOwner, .submit second .none, .submit lost .none,
      .submit late .none]
    let en := (sampleEngine .sqlite (some (.empty (.ofNat 1)))).after ops
    let fr := sampleEngine .memory (some (.empty (.ofNat 1)))
    ((en.branch (.str id) second.cid).1.isOk = true ∧
        ∃ chain, en.Replayed fr (fun _ => sampleOwner) id second chain) ∧
      (en.branch (.str id) late.cid).1.isOk = false ∧
        ∃ chain, en.Replayed fr (fun _ => sampleOwner) id late chain := by
  intro lost late second id ops en fr
  have hbinds : Binds (submitted ops) := .of_pairwise (by decide +kernel)
  have hready : fr.Ready :=
    ⟨rfl, rfl, trivial, fun content => ⟨Signal.ofContent? content, rfl⟩⟩
  have hreplayed : ∀ t, en.tables.Stores t → streamOf t = .ok id →
      ∃ chain, en.Replayed fr (fun _ => sampleOwner) id t chain := fun t ht hid =>
    (sampleEngine_fresh .sqlite (.ofNat 1)).branch_replayed rfl ops hbinds
      (sampleEngine_fresh .memory (.ofNat 1)) hready rfl (fun _ _ => ⟨_, rfl⟩) ht hid
  have hrun : (en.tables.events.get? (.text "second") = some second ∧
      en.tables.events.get? (.text "late") = some late) ∧
      (en.branch (.str id) second.cid).1.isOk = true ∧
        (en.branch (.str id) late.cid).1.isOk = false := by
    decide +kernel
  obtain ⟨⟨hsecond, hlate⟩, hok, herror⟩ := hrun
  exact ⟨⟨hok, hreplayed second ⟨_, hsecond⟩ (by decide +kernel)⟩, herror,
    hreplayed late ⟨_, hlate⟩ (by decide +kernel)⟩

end Engine

end ChainFold
