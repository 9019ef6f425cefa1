import ChainFold.Proofs.Engine.Filing
import ChainFold.Proofs.Fold.Trust

/-!
# Steady engines

An engine is steady if its tables are sound and its desk can be trusted for the events
that have become tips.  A submission keeps it so, whether it is answered or fails: what
a failed submission leaves on the desk belongs to an event that is not stored.
-/

namespace ChainFold

namespace Tables

/-- An event has become the tip of its stream at some time: it is in the lineage of a tip. -/
def Accepts (t : Tables) (e : Event) : Prop :=
  ∃ k row tip chain, t.streams.get? k = some row ∧ t.Stores tip ∧ row.tip = tip.cid ∧
    Lineage t.Stores tip chain ∧ e ∈ chain

variable {b : Backend} {t t' : Tables}

theorem Sound.scope (hs : t.Sound b) : Scope t.Stores t.Accepts where
  binding := hs.binding
  known_of_scope := by
    rintro e ⟨k, row, tip, chain, -, htip, -, hl, he⟩
    exact hl.known_of_mem htip he
  ancestral := by
    rintro e chain hl ⟨k, row, tip, chain', hrow, htip, heq, hl', he⟩ x hx
    obtain ⟨before, hbefore, hle⟩ := hl'.exists_of_mem he
    obtain rfl := hl.unique hs.binding hle
    exact ⟨k, row, tip, chain', hrow, htip, heq, hl', hbefore.subset hx⟩

theorem Projects.accepts {row : Stream} {g : String} {tip : Event} {chain : List Event}
    {s : Fold.State} (h : t.Projects b row g tip chain s) {k : Key}
    (hrow : t.streams.get? k = some row) : t.Accepts tip :=
  ⟨k, row, tip, chain, hrow, h.stored, h.tip_eq, h.lineage, h.lineage.mem_self⟩

/-- A row that is still there accepts no events that it did not accept before. -/
theorem accepts_of_row (hs : t.Sound b) (hs' : t'.Sound b) (hsub : ∀ x, t.Stores x → t'.Stores x)
    {k : Key} {row : Stream} (hrow : t.streams.get? k = some row) {tip x : Event}
    {chain : List Event} (htip : t'.Stores tip) (heq : row.tip = tip.cid)
    (hl : Lineage t'.Stores tip chain) (hx : x ∈ chain) : t.Accepts x := by
  obtain ⟨g, tip₀, chain₀, s, -, hp⟩ := hs.projects k row hrow
  obtain rfl := hs'.binding.unique _ _ htip (hsub _ hp.stored) (heq.symm.trans hp.tip_eq)
  obtain rfl := hl.unique hs'.binding (hp.lineage.mono hsub)
  exact ⟨k, row, tip, chain, hrow, hp.stored, hp.tip_eq, hp.lineage, hx⟩

/-- A row that is new accepts the lineage of its tip, and the other rows what they did before. -/
theorem eq_or_accepts_of_insert (hs : t.Sound b) (hs' : t'.Sound b)
    (hsub : ∀ x, t.Stores x → t'.Stores x) {id g : String} {row : Stream} {e : Event}
    {chain : List Event} {s : Fold.State}
    (hstreams : t'.streams = t.streams.insert (.text id) row) (hp : t'.Projects b row g e chain s)
    (hchain : ∀ x ∈ chain, x = e ∨ t.Accepts x) {x : Event} (hx : t'.Accepts x) :
    x = e ∨ t.Accepts x := by
  obtain ⟨k, row', tip, chain', hrow', htip, heq, hl, hx⟩ := hx
  rw [hstreams, Table.get?_insert] at hrow'
  split at hrow'
  · obtain rfl := Option.some.inj hrow'
    obtain rfl := hs'.binding.unique _ _ htip hp.stored (heq.symm.trans hp.tip_eq)
    obtain rfl := hl.unique hs'.binding hp.lineage
    exact hchain x hx
  · exact .inr (accepts_of_row hs hs' hsub hrow' htip heq hl hx)

end Tables

namespace Engine

/-- Sound tables, and a desk that is trusted for the events that have become tips. -/
structure Steady (en : Engine) : Prop where
  sound : en.tables.Sound en.backend
  trusts : en.desk.Trusts en.backend en.tables.Stores en.tables.Accepts

variable {en : Engine} {t t' : Tables} {e : Event} {c g : String} {claim : OwnerClaim}
  {held : Held} {r : Receipt} {b : Backend}

/-! ## What is held at tips -/

/-- What is held at the tips agrees with the rows if it can be trusted for them. -/
theorem fits_of_trusts (hs : t.Sound b) {known scope : Event → Prop} (hb : Binding known)
    (hknown : ∀ x, t.Stores x → known x) (hscope : ∀ x, t.Accepts x → scope x) {d : Desk}
    (h : d.Trusts b known scope) : Held.Fits b t d.heldAt := by
  intro k row s hrow hheld
  obtain ⟨g, tip, chain, f, -, hp⟩ := hs.projects k row hrow
  obtain ⟨c, hc⟩ := hs.binding.text tip hp.stored
  have hk : row.tip.key? = some (.text c) := by rw [hp.tip_eq, hc]; rfl
  have hholds : d.Holds (.text c) s := by
    rw [Desk.heldAt, hk] at hheld
    exact Desk.holds_of_held? hheld
  obtain ⟨chain', f', hl, hf, hagree⟩ :=
    h tip _ s (hscope tip (hp.accepts hrow)) (by rw [hc]; rfl) hholds
  obtain rfl := hl.unique hb (hp.lineage.mono hknown)
  obtain rfl := Except.ok.inj (hf.symm.trans hp.fold)
  exact hagree.trans hp.agree.symm

theorem Steady.fits (hst : en.Steady) : Held.Fits en.backend en.tables en.desk.heldAt :=
  fits_of_trusts hst.sound hst.sound.binding (fun _ hx => hx) (fun _ hx => hx) hst.trusts

/-- A state that is folded in a submission is the fold of the lineage of the event. -/
theorem isFoldAt_of_folded (hs : t.Sound en.backend) (hfits : Held.Fits en.backend t held)
    (hwf : e.WellFormed) (hc : e.cid = .str c) {s : Fold.State}
    (h : en.Folded t e (.str (Ident.streamId g)) held s) :
    IsFoldAt en.backend t.Stores e s := by
  have hnew : t.events.get? (.text c) = none := by simpa [hc] using h.event?_eq
  rcases h with ⟨-, hs₁⟩ | ⟨hlink, row, hrow, hs₁⟩
  · have hprev : e.prev = .null := by
      simpa [hwf.isGenesis_eq] using Fold.State.isGenesis_of_ofGenesis hs₁
    refine ⟨[e], s, .first hprev (hwf.genesis_eq_cid hprev), ?_,
      Fold.State.agree_refl (Fold.State.sane_of_ofGenesis hs₁).tidy⟩
    rw [Fold.State.ofChain_singleton, hs₁]
  · obtain ⟨parent, hparent, hprev, hgenesis⟩ :=
      Linkage.parent_of_extension hs hwf hc hnew hlink
    obtain ⟨row', hrow', -⟩ := Tables.exists_row_of_stream? hrow
    obtain ⟨g', tip, chain, f, -, hp⟩ := hs.projects _ row' hrow'
    rw [Tables.stream?_of_some hrow' hp.isObject] at hrow
    obtain rfl := Option.some.inj (Except.ok.inj hrow)
    have hcurrent := agree_currentOf hfits hrow' hp
    have hmoves : e.prev = tip.cid := by
      obtain ⟨c', hc'⟩ := hs.binding.text tip hp.stored
      have hsame := Fold.State.looselySame_of_advance hs₁
      rw [hcurrent.tip, hp.tip_of_fold, hc', hwf.prev_looselySame_text] at hsame
      simpa [hc'] using hsame
    obtain rfl := hs.binding.unique _ _ hp.stored hparent (hmoves.symm.trans hprev)
    obtain ⟨s', hs', hagree⟩ := hcurrent.exists_advance hs₁
    refine ⟨chain ++ [e], s', .next hparent hprev hgenesis hp.lineage, ?_, hagree⟩
    rw [Fold.State.ofChain_concat hp.lineage.ne_nil, hp.fold]
    exact hs'

theorem tipsKeyed_of_sound (hs : en.tables.Sound en.backend) : en.TipsKeyed := by
  intro k row hrow
  obtain ⟨g, tip, chain, s, -, hp⟩ := hs.projects k row hrow
  obtain ⟨c, hc⟩ := hs.binding.text tip hp.stored
  exact ⟨.text c, by rw [hp.tip_eq, hc]; rfl⟩

/-! ## Submissions -/

/-- What a submission leaves on a desk does not touch the trust in what was accepted before. -/
theorem trusts_of_after {α : Type} (hs : t.Sound en.backend) {d d' : Desk}
    (h : d.Trusts en.backend t.Stores t.Accepts) (hc : e.cid = .str c) {stream : Json}
    {res : Except Failure (Receipt × α)}
    (hafter : d.After (.text c) (en.Folded t e stream held) res d') :
    d'.Trusts en.backend t.Stores t.Accepts := by
  rcases hafter with ⟨-, hkeeps⟩ | ⟨s, hfolded, hl⟩
  · exact h.keeps hkeeps
  · have hnew : t.events.get? (.text c) = none := by simpa [hc] using hfolded.event?_eq
    refine h.learns hl fun x hx hkey => ?_
    have hstored := hs.scope.known_of_scope x hx
    obtain ⟨c', hc'⟩ := hs.binding.text x hstored
    rw [hc'] at hkey
    obtain rfl : c' = c := by simpa [Json.key?] using hkey
    have hget := hs.get?_of_stores hstored hc'
    simp [hnew] at hget

/-- An event that has become the tip is held, if at all, with the state it was filed with. -/
theorem exists_learns_of_applied {d d' : Desk} {stream : Json} {p : Receipt × Tables}
    (hafter : d.After (.text c) (en.Folded t e stream held) (.ok p) d')
    (happlied : p.1.status = .applied) :
    ∃ s, en.Folded t e stream held s ∧ d.Learns (.text c) s d' := by
  rcases hafter with ⟨hno, -⟩ | ⟨s, hs, hl⟩
  · exact absurd happlied (hno p rfl)
  · exact ⟨s, hs, hl⟩

/-- After a submission the desk can be trusted for what is accepted then. -/
theorem trusts_of_filed (hs : t.Sound en.backend) {d d' : Desk}
    (htrusts : d.Trusts en.backend t.Stores t.Accepts)
    (hfits : Held.Fits en.backend t d.heldAt) (hwf : e.WellFormed) (hc : e.cid = .str c)
    (hg : e.genesis = .str g)
    (hfiled : Filed en.backend d.heldAt t e c (Ident.streamId g) t' r)
    (hafter : d.After (.text c) (en.Folded t e (.str (Ident.streamId g)) d.heldAt)
      (.ok (r, t')) d') :
    d'.Trusts en.backend t'.Stores t'.Accepts := by
  have hs' := hfiled.sound hs hfits hwf hc hg
  have htrusts' := trusts_of_after hs htrusts hc hafter
  -- What is held for the event, if it has become the tip, is its fold.
  have hfold : r.status = .applied → (∀ x, t.Stores x → t'.Stores x) →
      ∀ k s, e.cid.key? = some k → d'.Holds k s → IsFoldAt en.backend t'.Stores e s := by
    intro happlied hsub k s hk hholds
    obtain ⟨s₁, hfolded, hl⟩ := exists_learns_of_applied hafter happlied
    rw [hc] at hk
    obtain rfl : Key.text c = k := Option.some.inj hk
    obtain rfl := hl.eq_of_holds hholds
    exact (isFoldAt_of_folded hs hfits hwf hc hfolded).mono hsub
  cases hfiled with
  | duplicate _ _ ht => exact ht ▸ htrusts'
  | @beside row hnew _ _ _ ht =>
      subst ht
      have hsub := stores_withEvent (e := e) hnew
      refine htrusts'.mono hsub ?_
      rintro x ⟨k, row', tip, chain, hrow', htip, heq, hl, hx⟩
      exact Tables.accepts_of_row hs hs' hsub hrow' htip heq hl hx
  | @created owner s hnew hprev hrow hstate hevents hstreams =>
      have hsub := stores_of_insert hnew hevents
      have he : t'.Stores e := (stores_insert_iff hnew hevents e).mpr (.inl rfl)
      refine htrusts'.insert (e := e) hsub (fun x hx => ?_) (hfold rfl hsub)
      refine Tables.eq_or_accepts_of_insert hs hs' hsub hstreams
        (projects_of_creation hwf hg he hprev hstate owner) ?_ hx
      exact fun y hy => .inl (List.mem_singleton.mp hy)
  | @advanced row parent s hnew hparent hprev hgenesis hrow hmoves hstate hevents hstreams =>
      have hsub := stores_of_insert hnew hevents
      have he : t'.Stores e := (stores_insert_iff hnew hevents e).mpr (.inl rfl)
      obtain ⟨chain, f, hl, -, hp⟩ := projects_of_advance hs hfits hg hsub he hrow hparent
        hprev hgenesis hmoves hstate
      refine htrusts'.insert (e := e) hsub (fun x hx => ?_) (hfold rfl hsub)
      refine Tables.eq_or_accepts_of_insert hs hs' hsub hstreams hp ?_ hx
      intro y hy
      rcases List.mem_append.mp hy with hy | hy
      · exact .inr ⟨_, row, parent, chain, hrow, hparent, hmoves.symm.trans hprev, hl, hy⟩
      · exact .inl (List.mem_singleton.mp hy)

/-- Behind a transaction that failed everything but the desk is as it was. -/
theorem steady_behind_error (hst : en.Steady) {d : Desk} (α : Type) (f : Failure)
    (h : d.Trusts en.backend en.tables.Stores en.tables.Accepts) :
    (en.behind d (.error f : Except Failure (α × Holdings))).Steady :=
  ⟨hst.sound, h⟩

theorem ruling_of_acceptance {h : Holdings} {stream : String} (hstream : streamOf e = .ok stream)
    (hres : en.acceptance e claim held = .ok (r, h)) :
    en.ruling en.tables e stream claim held = .ok (r, h.tables) := by
  unfold acceptance at hres
  rw [hstream, ok_bind] at hres
  obtain ⟨⟨r', t'⟩, hruling, hsettled⟩ := bind_eq_ok.mp hres
  obtain ⟨rfl, ht⟩ := settlement_receipt hsettled
  obtain ⟨-, -, hruling⟩ := bind_eq_ok.mp hruling
  exact ht ▸ hruling

/-- How an engine answers a checked event: what is answered has been filed. -/
structure Settles (en : Engine) (e : Event) (claim : OwnerClaim) (c g : String) (d : Desk) :
    Prop where
  after : en.desk.After (.text c)
    (en.Folded en.tables e (.str (Ident.streamId g)) en.desk.heldAt)
    (en.acceptance e claim en.desk.heldAt) d
  steady : (en.behind d (en.acceptance e claim en.desk.heldAt)).Steady
  filed : ∀ r h, en.acceptance e claim en.desk.heldAt = .ok (r, h) →
    Filed en.backend en.desk.heldAt en.tables e c (Ident.streamId g) h.tables r

/-- A steady engine answers a checked event by filing it, and stays steady. -/
theorem exists_settles (hst : en.Steady) (hwf : e.WellFormed) (hc : e.cid = .str c)
    (hg : e.genesis = .str g) (claim : OwnerClaim) :
    ∃ d, en.commit (en.accepting e claim) =
        ((en.acceptance e claim en.desk.heldAt).map (·.1),
          en.behind d (en.acceptance e claim en.desk.heldAt)) ∧
      en.Settles e claim c g d := by
  have hstream := hwf.streamOf_eq hg
  have hk : e.cid.key? = some (.text c) := by rw [hc]; rfl
  obtain ⟨d, hd, hafter⟩ :=
    en.accepting_on claim (tipsKeyed_of_sound hst.sound) hstream hk en.desk
  have hfiled : ∀ r h, en.acceptance e claim en.desk.heldAt = .ok (r, h) →
      Filed en.backend en.desk.heldAt en.tables e c (Ident.streamId g) h.tables r :=
    fun r h hres => filed_of_ruling hst.sound hwf hc hg (ruling_of_acceptance hstream hres)
  refine ⟨d, Engine.commit_eq hd, hafter, ?_, hfiled⟩
  cases hres : en.acceptance e claim en.desk.heldAt with
  | error f => exact steady_behind_error hst _ f (trusts_of_after hst.sound hst.trusts hc hafter)
  | ok p =>
      obtain ⟨r, h⟩ := p
      have hf := hfiled r h hres
      rw [hres] at hafter
      have hafter' : en.desk.After (.text c)
          (en.Folded en.tables e (.str (Ident.streamId g)) en.desk.heldAt)
          (.ok (r, h.tables)) d :=
        hafter.keeps (.refl d) (fun s hs => hs) fun p hp => by
          obtain rfl := Except.ok.inj hp
          exact ⟨(r, h), rfl, rfl⟩
      exact ⟨hf.sound hst.sound hst.fits hwf hc hg,
        trusts_of_filed hst.sound hst.trusts hst.fits hwf hc hg hf hafter'⟩

theorem Steady.with_desk (hst : en.Steady) {d : Desk} (h : en.desk.Keeps d) :
    ({ en with desk := d } : Engine).Steady :=
  ⟨hst.sound, hst.trusts.keeps h⟩

/--
What a submission can come to: the event is refused before the store is asked, or it is
well-formed and settled.
-/
inductive Submits (en : Engine) (e : Event) (claim : OwnerClaim) : Prop
  | refused (f : Failure) (d : Desk) (hadm : en.admission e = .error f)
      (hd : d.recent = en.desk.recent) (heq : en.submit e claim = (.error f, { en with desk := d }))
  | settled (c g : String) (d : Desk) (hadm : en.admission e = .ok e) (hwf : e.WellFormed)
      (hc : e.cid = .str c) (hg : e.genesis = .str g) (hsettles : en.Settles e claim c g d)
      (heq : en.submit e claim = ((en.acceptance e claim en.desk.heldAt).map (·.1),
        en.behind d (en.acceptance e claim en.desk.heldAt)))

theorem behind_with_desk {α : Type} (en : Engine) (d₀ d : Desk)
    (res : Except Failure (α × Holdings)) :
    Engine.behind { en with desk := d₀ } d res = en.behind d res := by
  cases res <;> rfl

/-- The log of an engine makes no difference to what it settles. -/
theorem Settles.of_recent_eq {d₀ d : Desk} (hd : d₀.recent = en.desk.recent)
    (h : Settles { en with desk := d₀ } e claim c g d) : en.Settles e claim c g d := by
  have hheld : d₀.heldAt = en.desk.heldAt := Desk.heldAt_eq hd
  obtain ⟨hafter, hsteady, hfiled⟩ := h
  simp only [hheld] at hafter hsteady hfiled
  refine ⟨?_, ?_, hfiled⟩
  · rcases hafter with ⟨hno, hkeeps⟩ | ⟨s, hs, hlearns⟩
    · exact .inl ⟨hno, (Desk.keeps_of_recent_eq hd).trans hkeeps⟩
    · exact .inr ⟨s, hs, (Desk.keeps_of_recent_eq hd).learns hlearns⟩
  · exact hsteady

theorem Steady.submits (hst : en.Steady) (e : Event) (claim : OwnerClaim) :
    en.Submits e claim := by
  cases hadm : en.admission e with
  | error f =>
      obtain ⟨d, hd, hrecent⟩ := submit_of_error hadm claim
      exact .refused f d hadm hrecent hd
  | ok e' =>
      obtain ⟨rfl, hwf, -⟩ := admission_eq_ok hadm
      obtain ⟨c, hc, -⟩ := hwf.cid_text
      obtain ⟨g, hg, -⟩ := hwf.genesis_text
      obtain ⟨d₀, hd₀, hrecent⟩ := submit_of_ok hadm claim
      have hst₀ := hst.with_desk (Desk.keeps_of_recent_eq hrecent)
      obtain ⟨d, hd, hsettles⟩ := exists_settles hst₀ hwf hc hg claim
      have hheld : d₀.heldAt = en.desk.heldAt := Desk.heldAt_eq hrecent
      refine .settled c g d hadm hwf hc hg (hsettles.of_recent_eq hrecent) ?_
      rw [hd₀, hd]
      simp only [hheld]
      exact congrArg (Prod.mk _) (behind_with_desk en d₀ d _)

theorem Steady.submit (hst : en.Steady) (e : Event) (claim : OwnerClaim) :
    (en.submit e claim).2.Steady := by
  cases hst.submits e claim with
  | refused f d hadm hd heq =>
      rw [heq]
      exact hst.with_desk (Desk.keeps_of_recent_eq hd)
  | settled c g d hadm hwf hc hg hsettles heq =>
      rw [heq]
      exact hsettles.steady

/--
What a submission leaves: nothing but another desk if it fails, and what has been filed if
it is answered.
-/
inductive Commits (en : Engine) (e : Event) (claim : OwnerClaim) : Prop
  | failed (f : Failure) (d : Desk) (heq : en.submit e claim = (.error f, { en with desk := d }))
  | answered (c g : String) (r : Receipt) (h : Holdings) (d : Desk) (hadm : en.admission e = .ok e)
      (hwf : e.WellFormed) (hc : e.cid = .str c) (hg : e.genesis = .str g)
      (hres : en.acceptance e claim en.desk.heldAt = .ok (r, h))
      (hfiled : Filed en.backend en.desk.heldAt en.tables e c (Ident.streamId g) h.tables r)
      (heq : en.submit e claim = (.ok r, { en with desk := d }.withHoldings h))

theorem Steady.commits (hst : en.Steady) (e : Event) (claim : OwnerClaim) :
    en.Commits e claim := by
  cases hst.submits e claim with
  | refused f d hadm hd heq => exact .failed f d heq
  | settled c g d hadm hwf hc hg hsettles heq =>
      cases hres : en.acceptance e claim en.desk.heldAt with
      | error f =>
          rw [hres] at heq
          exact .failed f d heq
      | ok p =>
          obtain ⟨r, h⟩ := p
          rw [hres] at heq
          exact .answered c g r h d hadm hwf hc hg hres (hsettles.filed r h hres) heq

/-- An answer names the stream of the event, and the tip that the stream then has. -/
theorem Steady.exists_row (hst : en.Steady) (hg : e.genesis = .str g)
    (hr : (en.submit e claim).1 = .ok r) : r.stream = .str (Ident.streamId g) ∧
      ∃ row, (en.submit e claim).2.tables.streams.get? (.text (Ident.streamId g)) = some row ∧
        row.tip = r.tip := by
  cases hst.commits e claim with
  | failed f d heq =>
      rw [heq] at hr
      cases hr
  | answered c g' r' h d hadm hwf hc hg' hres hfiled heq =>
      obtain rfl : g' = g := Json.str.inj (hg'.symm.trans hg)
      rw [heq] at hr ⊢
      obtain rfl := Except.ok.inj hr
      exact hfiled.exists_row

end Engine

end ChainFold
