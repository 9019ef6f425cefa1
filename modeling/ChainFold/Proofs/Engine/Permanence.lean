import ChainFold.Proofs.Engine.Ancestry
import ChainFold.Proofs.Engine.Atomicity
import ChainFold.Proofs.Engine.Mirroring
import ChainFold.Proofs.Engine.Transparency
import ChainFold.Proofs.Engine.Verdict

/-!
# What is filed stays

An event is filed once.  From then on it is what is found under its cid, in every chain
that it is part of; it can be submitted again without effect, whoever claims the stream
and whatever is registered, and no other event can take its cid.
-/

namespace ChainFold

namespace Engine

variable {en : Engine} {e : Event} {c g : String} {claim : OwnerClaim} {r : Receipt}

/-! ## Filed events -/

/-- An event stands under its cid in an open store and in the archive. -/
structure Lodged (en : Engine) (c : String) (e : Event) : Prop where
  cid_eq : e.cid = .str c
  stored : en.tables.events.get? (.text c) = some e
  archived : en.archive.holds (en.archive.keyOfText c) = true
  admitted : en.admission e = .ok e
  isOpen : en.checkOpen = .ok ()

theorem admission_congr {en en' : Engine} (h : en.SameSetup en') (e : Event) :
    en'.admission e = en.admission e := by
  simp only [admission, h.limit_eq]

theorem checkOpen_congr {en en' : Engine} (h : en.SameSetup en') :
    en'.checkOpen = en.checkOpen := by
  simp only [checkOpen, h.isOpen_eq, h.backend_eq]

theorem checkOpen_of_acceptance {held : Held} {p : Receipt × Holdings}
    (hres : en.acceptance e claim held = .ok p) : en.checkOpen = .ok () := by
  obtain ⟨stream, -, hres⟩ := bind_eq_ok.mp hres
  obtain ⟨q, hres, -⟩ := bind_eq_ok.mp hres
  obtain ⟨u, hopen, -⟩ := bind_eq_ok.mp hres
  exact hopen

/-- An event that has been answered is stored and archived under its cid. -/
theorem Steady.exists_lodged (hst : en.Steady) (hr : (en.submit e claim).1 = .ok r) :
    ∃ c, (en.submit e claim).2.Lodged c e := by
  have hsetup := commit_sameSetup en (en.submitting e claim)
  cases hst.commits e claim with
  | failed f d heq =>
      rw [heq] at hr
      cases hr
  | answered c g r' h d hadm hwf hc hg hres hfiled heq =>
      obtain ⟨bs, written, -, hput⟩ := exists_put_of_acceptance hres
      rw [hc] at hput
      refine ⟨c, hc, ?_, ?_, ?_, ?_⟩
      · rw [heq]
        rcases hfiled.duplicate_or_new with ⟨-, hstored, ht⟩ | ⟨-, -, hevents⟩
        · exact (congrArg (fun t : Tables => t.events.get? (.text c)) ht).trans hstored
        · show h.tables.events.get? (.text c) = some e
          rw [hevents, Table.get?_insert_self]
      · rw [heq]
        exact Archive.holds_put_self hput
      · exact (admission_congr hsetup e).trans hadm
      · exact (checkOpen_congr hsetup).trans (checkOpen_of_acceptance hres)

theorem Lodged.of_eq {en' : Engine} (h : en.Lodged c e) (hsetup : en.SameSetup en')
    (hevents : en'.tables.events = en.tables.events) (harchive : en'.archive = en.archive) :
    en'.Lodged c e :=
  ⟨h.cid_eq, hevents ▸ h.stored, harchive ▸ h.archived,
    (admission_congr hsetup e).trans h.admitted, (checkOpen_congr hsetup).trans h.isOpen⟩

/-- A submission leaves every event where it stands. -/
theorem Steady.lodged_submit (hst : en.Steady) (h : en.Lodged c e) (x : Event)
    (claim : OwnerClaim) : (en.submit x claim).2.Lodged c e := by
  have hsetup := commit_sameSetup en (en.submitting x claim)
  cases hst.commits x claim with
  | failed f d heq => exact h.of_eq hsetup (by rw [heq]; rfl) (by rw [heq])
  | answered c' g' r' holdings d hadm hwf hc hg hres hfiled heq =>
      obtain ⟨bs, written, -, hput⟩ := exists_put_of_acceptance hres
      rw [hc] at hput
      refine ⟨h.cid_eq, ?_, ?_, (admission_congr hsetup e).trans h.admitted,
        (checkOpen_congr hsetup).trans h.isOpen⟩
      · rw [heq]
        show holdings.tables.events.get? (.text c) = some e
        rcases hfiled.duplicate_or_new with ⟨-, -, ht⟩ | ⟨-, hnew, hevents⟩
        · rw [ht]
          exact h.stored
        · rw [hevents]
          exact get?_withEvent_of_some hnew h.stored
      · rw [heq]
        exact Archive.holds_put hput h.archived

theorem Steady.lodged_perform (hst : en.Steady) (h : en.Lodged c e) (op : Operation) :
    (en.perform op).2.Lodged c e := by
  cases op with
  | submit x claim => exact hst.lodged_submit h x claim
  | rebuild id =>
      exact h.of_eq (perform_sameSetup en (.rebuild id)) (hst.rebuild_tables id).1
        (hst.rebuild_archive id)
  | branch | getStream | getFolder | getEvent | loadEvents | listStreams | findByContent
  | queryBySignal | signals | register => exact h.of_eq ⟨rfl, rfl, rfl, rfl⟩ rfl rfl

theorem Steady.lodged_carryAll (hst : en.Steady) (h : en.Lodged c e) (calls : List Call) :
    (en.carryAll calls).2.Lodged c e := by
  induction calls generalizing en with
  | nil => exact h
  | cons call rest ih =>
      refine ih (hst.carry call) ?_
      cases call with
      | op op => exact hst.lodged_perform h op
      | clear | restart => exact h.of_eq ⟨rfl, rfl, rfl, rfl⟩ rfl rfl

/-! ## What such an event is answered -/

/-- An event that stands already comes to nothing but the answer that it does. -/
theorem Lodged.acceptance_eq (h : en.Lodged c e) (hs : en.tables.Sound en.backend)
    (hg : e.genesis = .str g) {row : Stream}
    (hrow : en.tables.streams.get? (.text (Ident.streamId g)) = some row) (claim : OwnerClaim)
    (held : Held) : en.acceptance e claim held =
      .ok (⟨.str (Ident.streamId g), e.cid, row.tip, .duplicate, none⟩, en.holdings) := by
  have hwf := hs.wellFormed _ _ h.stored
  obtain ⟨g', tip, chain, s, -, hp⟩ := hs.projects _ row hrow
  obtain ⟨bs, hbs⟩ := hwf.exists_envelope
  have hruling : en.ruling en.tables e (.str (Ident.streamId g)) claim held =
      .ok (⟨.str (Ident.streamId g), e.cid, row.tip, .duplicate, none⟩, en.tables) := by
    rw [ruling, Linkage.ofEvent_of_stored hs hwf h.cid_eq h.stored, if_pos rfl, ok_bind]
    simp only [Tables.stream?_of_some hrow hp.isObject, ok_bind]
    rfl
  unfold acceptance resolution settlement
  rw [hwf.streamOf_eq hg, h.isOpen, ok_bind, ok_bind, hruling, ok_bind]
  simp only [hbs, ok_bind, h.cid_eq, Archive.put_of_holds h.archived]
  rfl

/-- An event that stands is answered as a duplicate, with the tip of its stream. -/
theorem Steady.submit_lodged (hst : en.Steady) (h : en.Lodged c e) (hg : e.genesis = .str g)
    {row : Stream} (hrow : en.tables.streams.get? (.text (Ident.streamId g)) = some row)
    (claim : OwnerClaim) :
    (en.submit e claim).1 =
        .ok ⟨.str (Ident.streamId g), e.cid, row.tip, .duplicate, none⟩ ∧
      (en.submit e claim).2.holdings = en.holdings := by
  cases hst.submits e claim with
  | refused f d hrefused => simp [h.admitted] at hrefused
  | settled c' g' d hadm hwf hc hg' hsettles heq =>
      rw [heq, h.acceptance_eq hst.sound hg hrow claim]
      exact ⟨rfl, rfl⟩

/-- An event that names the cid of another one is refused. -/
theorem Steady.submit_of_taken (hst : en.Steady) (h : en.Lodged c e) {x : Event}
    (hcid : x.cid = e.cid) (hne : x ≠ e) (claim : OwnerClaim) :
    ∃ f, (en.submit x claim).1 = .error f := by
  cases hst.commits x claim with
  | failed f d heq => exact ⟨f, by rw [heq]⟩
  | answered c' g r holdings d hadm hwf hc hg hres hfiled heq =>
      obtain rfl : c' = c := Json.str.inj (hc.symm.trans (hcid.trans h.cid_eq))
      rcases hfiled.duplicate_or_new with ⟨-, hstored, -⟩ | ⟨-, hnew, -⟩
      · exact absurd (Option.some.inj (hstored.symm.trans h.stored)) hne
      · cases hnew.symm.trans h.stored

/-- What holds of an event for good once it has been filed. -/
structure Permanent (en : Engine) (e : Event) : Prop where
  event : (en.getEvent e.cid).1 = .ok e
  /-- The chain up to the event is loaded, and ends with it. -/
  chain : ∃ id before, streamOf e = .ok id ∧
    (en.loadEvents (.str id) e.cid).1 = .ok (before ++ [e])
  /-- No chain has another event under its cid. -/
  chains : ∀ id tip chain, (en.loadEvents id tip).1 = .ok chain → ∀ x ∈ chain,
    x.cid = e.cid → x = e
  /-- An equal event is a duplicate, whoever claims the stream and whatever is registered. -/
  equal : ∀ x claim reg, x.same e = true → ∃ id row, streamOf e = .ok id ∧
    (en.getStream (.str id)).1 = .ok row ∧
    (Engine.submit { en with registry := reg } x claim).1 =
      .ok ⟨.str id, e.cid, row.tip, .duplicate, none⟩ ∧
    (Engine.submit { en with registry := reg } x claim).2.holdings = en.holdings
  /-- A different event under its cid is refused. -/
  different : ∀ x claim reg, x.cid = e.cid → x.same e = false →
    (∃ f, (Engine.submit { en with registry := reg } x claim).1 = .error f) ∧
    (Engine.submit { en with registry := reg } x claim).2.holdings = en.holdings

theorem Steady.permanent (hst : en.Steady) (h : en.Lodged c e) : en.Permanent e := by
  have hs := hst.sound
  have hwf := hs.wellFormed _ _ h.stored
  have hstores : en.tables.Stores e := ⟨_, h.stored⟩
  obtain ⟨g, hg, -⟩ := hwf.genesis_text
  have hstream := hwf.streamOf_eq hg
  -- What is registered plays no part in what stands.
  have hst' : ∀ reg, ({ en with registry := reg } : Engine).Steady :=
    fun _ => ⟨hst.sound, hst.trusts⟩
  have h' : ∀ reg, ({ en with registry := reg } : Engine).Lodged c e :=
    fun _ => ⟨h.cid_eq, h.stored, h.archived, h.admitted, h.isOpen⟩
  constructor
  case event =>
    rw [h.cid_eq]
    exact getEvent_of_stored h.isOpen h.stored
  case chain =>
    obtain ⟨chain, hl⟩ := hs.lineage _ e h.stored
    obtain ⟨before, rfl⟩ := hl.exists_concat
    refine ⟨Ident.streamId g, before, hstream, ?_⟩
    rw [loadEvents_eq]
    exact loaded_of_stores hs h.isOpen hstores hg hl
  case chains =>
    intro id tip chain hload x hx hcid
    rw [loadEvents_eq] at hload
    obtain ⟨last, hlast, hl⟩ := exists_lineage_of_loaded hs hload
    exact hs.binding.unique _ _ (hl.known_of_mem hlast hx) hstores hcid
  case equal =>
    intro x claim reg hsame
    obtain rfl := hwf.enclosable.eq_of_same hsame
    obtain ⟨row, tip, hrow, -⟩ := exists_row_of_stores hs hstores hg
    obtain ⟨hanswer, hholdings⟩ := (hst' reg).submit_lodged (h' reg) hg hrow claim
    exact ⟨Ident.streamId g, row, hstream, (getStream_eq en _).trans
      (streamFound_eq hst h.isOpen hrow), hanswer, hholdings⟩
  case different =>
    intro x claim reg hcid hsame
    have hne : x ≠ e := by
      rintro rfl
      simp [hwf.enclosable.same_self] at hsame
    obtain ⟨f, hf⟩ := (hst' reg).submit_of_taken (h' reg) hcid hne claim
    have hholdings := holdings_of_submit_error hf
    exact ⟨⟨f, hf⟩, hholdings⟩

/--
An event that has been answered in a run over an empty store, as applied or as stored beside
the tip, stands for good: whatever is called afterwards, it is what is found under its cid,
it is not accepted again, and no other event is accepted under its cid.
-/
theorem Fresh.filed_permanent (h : en.Fresh) (before : List Call) (e : Event)
    (claim : OwnerClaim) {r : Receipt}
    (hr : ((en.carryAll before).2.submit e claim).1 = .ok r) (later : List Call) :
    (((en.carryAll before).2.submit e claim).2.carryAll later).2.Permanent e := by
  have hst := h.steady.carryAll before
  obtain ⟨c, hlodged⟩ := hst.exists_lodged hr
  have hst' := hst.submit e claim
  exact (hst'.carryAll later).permanent (hst'.lodged_carryAll hlodged later)

/-- An event that was stored beside the tip stands after the stream has moved on. -/
theorem filed_permanent_sample :
    let en := sampleEngine .sqlite (some (.empty (.ofNat 1)))
    let before := [.op (.submit sampleGenesis sampleOwner),
      .op (.submit (sampleUpdate "second" "first" 1) .none)]
    let late := sampleUpdate "late" "first" 3
    ∃ r, ((en.carryAll before).2.submit late .none).1 = .ok r ∧ r.status = .notApplied ∧
      (((en.carryAll before).2.submit late .none).2.carryAll
        [.op (.submit (sampleUpdate "late" "second" 4) .none), .restart (.ofNat 2),
          .op (.submit (sampleUpdate "third" "second" 5) .none)]).2.Permanent late := by
  intro en before late
  let r : Receipt := ⟨.str (Ident.streamId "first"), "late", "second", .notApplied,
    some ⟨.str (Ident.streamId "first"), "late", "first", "second"⟩⟩
  have hr : ((en.carryAll before).2.submit late .none).1 = .ok r := by decide +kernel
  exact ⟨r, hr, rfl,
    (sampleEngine_fresh .sqlite (.ofNat 1)).filed_permanent before late .none hr _⟩

end Engine

end ChainFold
