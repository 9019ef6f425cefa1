import ChainFold.Engine.Session
import ChainFold.Proofs.Engine.Indexing
import ChainFold.Proofs.Engine.Permanence
import ChainFold.Proofs.Engine.Traceless

/-!
# Advancing from a row that may be stale

A caller may apply an event to a stream as it remembers it.  Only the tip is compared when
the row is swapped, but stored events are never taken back, so a tip has one lineage and one
content for the rest of a run: the swap finds the content that was folded, or it is lost.
-/

namespace ChainFold

/-! ## A tip decides the content -/

/-- Two rows with one tip give one state, and belong to one stream. -/
theorem Tables.Sound.eq_of_tip_eq {b : Backend} {t : Tables} (hs : t.Sound b)
    {row row' : Stream} {g g' : String} {tip tip' : Event} {chain chain' : List Event}
    {s s' : Fold.State} (hp : t.Projects b row g tip chain s)
    (hp' : t.Projects b row' g' tip' chain' s') (htip : row.tip = row'.tip) :
    row.id = row'.id ∧ Fold.State.ofRow row = Fold.State.ofRow row' := by
  have hcid : tip.cid = tip'.cid := hp.tip_eq.symm.trans (htip.trans hp'.tip_eq)
  obtain rfl := hs.binding.unique _ _ hp.stored hp'.stored hcid
  obtain rfl := hp.lineage.unique hs.binding hp'.lineage
  obtain rfl : s = s' := Except.ok.inj (hp.fold.symm.trans hp'.fold)
  obtain rfl : g = g' := Json.str.inj (hp.genesis_eq.symm.trans hp'.genesis_eq)
  refine ⟨hp.id_eq.trans hp'.id_eq.symm, ?_⟩
  unfold Fold.State.ofRow
  rw [htip, hp.content_eq, hp'.content_eq, hp.model_eq, hp'.model_eq, hp.account_eq,
    hp'.account_eq]

namespace Resolution

variable {b : Backend} {extract : Extractor} {t : Tables} {e : Event} {row row' : Stream}
  {held : Held} {c id : String}

/-- An advance reads no more of a row than the state that it gives. -/
theorem advancement_of_ofRow_eq (hid : row.id = row'.id)
    (hstate : Fold.State.ofRow row = Fold.State.ofRow row') :
    advancement b extract t e row held = advancement b extract t e row' held := by
  have htip : row.tip = row'.tip := congrArg Fold.State.tip hstate
  simp only [advancement, moved, currentOf, hid, htip, hstate]

/-- A swap that expects another tip than the one that stands is lost. -/
theorem moved_of_ne (hn : t.StreamsNamed) (hc : e.cid = .str c) (hid : row'.id = .str id)
    (hrow : t.streams.get? (.text id) = some row) (hobj : row.content.isObject = true)
    {expected : String} (hexpected : e.prev = .str expected) (hne : e.prev ≠ row.tip)
    (s : Fold.State) :
    moved b extract t e row' s = .ok (conflictReceipt (.str id) e row.tip, t) := by
  have hstands : ∀ x, t.streams.get? (.text id) = some x → x.tip ≠ .str expected := by
    intro x hx
    obtain rfl := Option.some.inj (hx.symm.trans hrow)
    exact fun htip => hne (hexpected.trans htip.symm)
  rw [moved, hid, hexpected, hc, Tables.swapTip_of_ne hn hstands, ok_bind]
  simp [tipOf_eq hrow hobj]

end Resolution

namespace Engine

variable {en : Engine} {e : Event} {snapshot row : Stream} {c g id : String} {tip : Event}
  {chain : List Event} {s : Fold.State}

/-! ## The transaction -/

/-- A caller's advance fails and changes no table, or comes to what its advancement comes to. -/
theorem advanceFrom_eq (en : Engine) {k k' : Key} (hk : e.cid.key? = some k)
    (hk' : snapshot.tip.key? = some k') :
    (∃ f d, en.advanceFrom e snapshot = (.error f, { en with desk := d })) ∨
      ∃ r t d, Resolution.advancement en.backend en.extract en.tables e snapshot
          en.desk.heldAt = .ok (r, t) ∧
        en.advanceFrom e snapshot =
          (.ok r, { en with desk := d }.withHoldings ⟨t, en.archive⟩) := by
  unfold advanceFrom
  generalize hbody : (fun t => Resolution.advance en.backend en.extract t e snapshot) = body
  cases hopen : en.checkOpen with
  | error f =>
      have hrun : (en.transaction body).on en.desk = (.error f, en.desk) := by
        rw [transaction, hopen]
        exact Work.on_bind_error (Work.on_ofExcept _)
      exact .inl ⟨f, en.desk, commit_eq hrun⟩
  | ok u =>
      obtain ⟨d, hd, -⟩ := Resolution.advance_on en.backend en.extract en.tables hk hk' en.desk
      have hstart : (en.transaction body).on en.desk =
          (body en.tables >>= fun p => pure (p.1, Holdings.mk p.2 en.archive)).on en.desk := by
        rw [transaction, hopen]
        exact Work.on_bind_ok (Work.on_ofExcept _)
      subst hbody
      cases hres : Resolution.advancement en.backend en.extract en.tables e snapshot
          en.desk.heldAt with
      | error f =>
          rw [hres] at hd
          exact .inl ⟨f, d, commit_eq (hstart.trans (Work.on_bind_error hd))⟩
      | ok p =>
          obtain ⟨r, t⟩ := p
          rw [hres] at hd
          exact .inr ⟨r, t, d, rfl, commit_eq (hstart.trans (Work.on_bind_ok hd))⟩

/-! ## What an advance comes to -/

/-- A row is moved from its own content by an event that follows its tip, and its folder with it. -/
structure Moves (en en' : Engine) (id : String) (e : Event) (row : Stream) (content : Json) :
    Prop where
  found : en.tables.streams.get? (.text id) = some row
  follows : e.prev = row.tip
  patched : ∃ p, e.payload = .ok p ∧ Fold.State.patched e p row.content = .ok content
  streams_eq : en'.tables.streams = en.tables.streams.insert (.text id)
    { row with tip := e.cid, content := en.backend.keptJson content }
  /-- The signal is that of the content, of which the order of keys may have been another. -/
  folders_eq : ∃ folded signal, en.backend.Agree folded content ∧
    en.extract folded = .ok signal ∧ en'.tables.folders = en.tables.folders.insert (.text id)
      ⟨.str id, e.cid, signal.map en.backend.keptJson⟩
  shown : Index.MapsEqual en.extract → ∃ row' f,
    en'.tables.streams.get? (.text id) = some row' ∧
      en'.tables.folders.get? (.text id) = some f ∧ Index.Shows en.extract row' f

/-- An advance moves the row, or leaves every row and every folder as they are. -/
inductive Advances (en : Engine) (id : String) (e : Event) (snapshot : Stream) : Prop
  | moved (row : Stream) (content : Json)
      (current : snapshot.tip = row.tip ∧ snapshot.content = row.content)
      (answer : (en.advanceFrom e snapshot).1 = .ok (Resolution.appliedReceipt (.str id) e))
      (moves : en.Moves (en.advanceFrom e snapshot).2 id e row content)
  | lost (row : Stream) (tip : Json) (hrow : en.tables.streams.get? (.text id) = some row)
      (stale : e.prev ≠ snapshot.tip ∨ e.prev ≠ row.tip)
      (answer : (en.advanceFrom e snapshot).1 = .ok (Resolution.conflictReceipt (.str id) e tip))
      (streams_eq : (en.advanceFrom e snapshot).2.tables.streams = en.tables.streams)
      (folders_eq : (en.advanceFrom e snapshot).2.tables.folders = en.tables.folders)
  | failed (f : Failure) (answer : (en.advanceFrom e snapshot).1 = .error f)
      (holdings_eq : (en.advanceFrom e snapshot).2.holdings = en.holdings)

/-- What moves a row: the state that is folded agrees with the patch of the row's own content. -/
theorem Steady.moves_of_advancement (hst : en.Steady) (hwf : e.WellFormed) (hc : e.cid = .str c)
    (hnew : en.tables.events.get? (.text c) = none)
    (hrow : en.tables.streams.get? (.text id) = some row)
    (hp : en.tables.Projects en.backend row g tip chain s) (hmoves : e.prev = row.tip)
    {r : Receipt} {t : Tables}
    (h : Resolution.advancement en.backend en.extract en.tables e row en.desk.heldAt =
      .ok (r, t)) :
    r = Resolution.appliedReceipt (.str id) e ∧ ∃ content, ∀ en' : Engine, en'.tables = t →
      en.Moves en' id e row content := by
  obtain ⟨id', hkey, hid⟩ := hst.sound.streamsNamed _ row hrow
  obtain rfl : id = id' := Key.text.inj hkey
  obtain ⟨c', hc', -⟩ := (hst.sound.wellFormed_of_stores hp.stored).cid_text
  obtain ⟨s₁, signal, hstate, -, hsignal, rfl, rfl⟩ := Resolution.exists_of_advancement
    hst.sound.streamsNamed hwf hc hnew hid hrow (hp.tip_eq.trans hc') hmoves h
  have hcurrent := agree_currentOf hst.fits hrow hp
  obtain ⟨s₂, hs₂, hagree⟩ := (hcurrent.trans hp.agree.symm).exists_advance hstate
  obtain ⟨p, content, hpayload, hpatched, rfl⟩ := Fold.State.exists_patched_of_advance hs₂
  have hsane := Fold.State.sane_of_advance (hcurrent.sane hp.sane) hstate
  have hkept := hagree.content.keptJson_eq
  refine ⟨rfl, content, ?_⟩
  rintro en' ht
  have hstreams : en'.tables.streams = en.tables.streams.insert (.text id)
      { row with tip := e.cid, content := en.backend.keptJson content } := by
    rw [ht, ← hkept]
    rfl
  have hfolders : en'.tables.folders = en.tables.folders.insert (.text id)
      ⟨.str id, e.cid, signal.map en.backend.keptJson⟩ := by
    rw [ht]
    rfl
  refine ⟨hrow, hmoves, ⟨p, hpayload, hpatched⟩, hstreams,
    ⟨s₁.content, signal, hagree.content, hsignal, hfolders⟩, ?_⟩
  intro hx
  have hshows := hx.shows (b := en.backend)
    { row with tip := e.cid, content := en.backend.keptJson content } hsane.tidy hsane.object
    hsignal hkept.symm
  refine ⟨_, _, by rw [hstreams, Table.get?_insert_self], ?_, hshows⟩
  rw [hfolders, Table.get?_insert_self, hid]

/-- Where the tip that is expected does not stand an advance changes no row and no folder. -/
theorem Steady.lost_of_advancement (hst : en.Steady) (hwf : e.WellFormed) (hc : e.cid = .str c)
    (hnew : en.tables.events.get? (.text c) = none)
    (hp : en.tables.Projects en.backend snapshot g tip chain s)
    (hrow : en.tables.streams.get? (.text (Ident.streamId g)) = some row)
    (hobj : row.content.isObject = true) (hstale : e.prev ≠ snapshot.tip ∨ e.prev ≠ row.tip)
    {r : Receipt} {t : Tables}
    (h : Resolution.advancement en.backend en.extract en.tables e snapshot en.desk.heldAt =
      .ok (r, t)) :
    (∃ stands, r = Resolution.conflictReceipt (.str (Ident.streamId g)) e stands) ∧
      t = en.tables.withEvent c e := by
  obtain ⟨c', hc', -⟩ := (hst.sound.wellFormed_of_stores hp.stored).cid_text
  have htip := hp.tip_eq.trans hc'
  by_cases hfollows : e.prev = snapshot.tip
  · rw [Resolution.advancement_of_eq hwf hc hnew htip hfollows] at h
    obtain ⟨s', -, h⟩ := bind_eq_ok.mp h
    have hne := hstale.resolve_left (not_not_intro hfollows)
    rw [Resolution.moved_of_ne (t := en.tables.withEvent c e) hst.sound.streamsNamed hc hp.id_eq
      hrow hobj (hfollows.trans htip) hne] at h
    obtain ⟨rfl, rfl⟩ := Prod.mk.inj (Except.ok.inj h)
    exact ⟨⟨row.tip, rfl⟩, rfl⟩
  · rw [Resolution.advancement_of_ne hwf hc hnew htip hfollows, hp.id_eq] at h
    obtain ⟨rfl, rfl⟩ := Prod.mk.inj (Except.ok.inj h)
    exact ⟨⟨snapshot.tip, rfl⟩, rfl⟩

/-- From a row that stored events once projected to, an advance does no harm. -/
theorem Steady.advances (hst : en.Steady) (hwf : e.WellFormed) (hc : e.cid = .str c)
    (hnew : en.tables.events.get? (.text c) = none)
    (hp : en.tables.Projects en.backend snapshot g tip chain s) :
    en.Advances (Ident.streamId g) e snapshot := by
  have hs := hst.sound
  obtain ⟨row, x, hrow, -, hid, hobj⟩ := exists_row_of_stores hs hp.stored hp.genesis_eq
  obtain ⟨g', tip', chain', s', hkey, hp'⟩ := hs.projects _ row hrow
  obtain ⟨c', hc'⟩ := hs.binding.text tip hp.stored
  have hk : e.cid.key? = some (.text c) := by rw [hc]; rfl
  have hk' : snapshot.tip.key? = some (.text c') := by rw [hp.tip_eq, hc']; rfl
  rcases en.advanceFrom_eq hk hk' with ⟨f, d, heq⟩ | ⟨r, t, d, hres, heq⟩
  · exact .failed f (by rw [heq]) (by rw [heq]; rfl)
  · by_cases hfollows : e.prev = snapshot.tip ∧ e.prev = row.tip
    · have htips : snapshot.tip = row.tip := hfollows.1.symm.trans hfollows.2
      obtain ⟨hsame, hstate⟩ := hs.eq_of_tip_eq hp hp' htips
      rw [Resolution.advancement_of_ofRow_eq hsame hstate] at hres
      obtain ⟨rfl, content, hmoves⟩ :=
        hst.moves_of_advancement hwf hc hnew hrow hp' hfollows.2 hres
      refine .moved row content ⟨htips, congrArg Fold.State.content hstate⟩ (by rw [heq]) ?_
      rw [heq]
      exact hmoves _ rfl
    · have hstale := Classical.not_and_iff_not_or_not.mp hfollows
      obtain ⟨⟨stands, rfl⟩, rfl⟩ :=
        hst.lost_of_advancement hwf hc hnew hp hrow hobj hstale hres
      exact .lost row stands hrow hstale (by rw [heq]) (by rw [heq]; rfl) (by rw [heq]; rfl)

/-! ## Snapshots of a run -/

theorem carry_sameSetup (en : Engine) (call : Call) : en.SameSetup (en.carry call).2 := by
  cases call with
  | op op => exact perform_sameSetup en op
  | clear | restart => exact ⟨rfl, rfl, rfl, rfl⟩

theorem carryAll_sameSetup (en : Engine) (calls : List Call) :
    en.SameSetup (en.carryAll calls).2 := by
  induction calls generalizing en with
  | nil => exact .refl en
  | cons call rest ih => exact (carry_sameSetup en call).trans (ih (en.carry call).2)

theorem Steady.exists_row_of_getStream (hst : en.Steady) {id : Json}
    (h : (en.getStream id).1 = .ok snapshot) :
    ∃ k, en.tables.streams.get? k = some snapshot := by
  rw [getStream_eq] at h
  obtain ⟨u, hshape, h⟩ := bind_eq_ok.mp h
  obtain ⟨u', -, h⟩ := bind_eq_ok.mp h
  obtain ⟨found?, hread, h⟩ := bind_eq_ok.mp h
  obtain ⟨x, rfl⟩ := exists_text_of_checkShape hshape
  cases found? with
  | none => cases h
  | some found =>
      obtain rfl := Except.ok.inj h
      obtain ⟨row, hrow, -⟩ := Tables.exists_row_of_stream? hread
      obtain ⟨g, tip, chain, s, -, hp⟩ := hst.sound.projects _ row hrow
      rw [Tables.stream?_of_some hrow hp.isObject] at hread
      obtain rfl := Option.some.inj (Except.ok.inj hread)
      exact ⟨_, hrow⟩

/-- What a row once projected is still what its tip projects to. -/
theorem Steady.projects_carryAll (hst : en.Steady) (calls : List Call) {k : Key}
    (hrow : en.tables.streams.get? k = some snapshot) : ∃ g tip chain s,
      (en.carryAll calls).2.tables.Projects (en.carryAll calls).2.backend snapshot g tip chain
        s := by
  obtain ⟨g, tip, chain, s, -, hp⟩ := hst.sound.projects k snapshot hrow
  refine ⟨g, tip, chain, s, ?_⟩
  rw [(carryAll_sameSetup en calls).backend_eq]
  exact hp.mono fun x hx => hst.stores_carryAll calls (.inl hx)

/-- An engine without held states is steady if it is with them. -/
theorem Steady.uncached (hst : en.Steady) : en.uncached.Steady := by
  refine hst.with_desk (d := en.uncached.desk) ?_
  constructor
  · intro k s hs
    exact absurd hs (Desk.not_holds_of_none rfl k s)
  · exact fun _ => rfl

/-- An advance from a row does no harm, whether there are held states to start from or none. -/
structure Harmless (en : Engine) (e : Event) (snapshot : Stream) (id : String) : Prop where
  id_eq : snapshot.id = .str id
  advances : en.Advances id e snapshot
  advances_uncached : en.uncached.Advances id e snapshot

/--
A row that was read at any time in a run over an empty store can be advanced from at any later
time: an event that is not stored yet moves the row that is there, from the content that is
there, or no row and no folder changes.
-/
theorem Fresh.advance_from_stale (h : en.Fresh) (before later : List Call) {id : Json}
    (hsnapshot : ((en.carryAll before).2.getStream id).1 = .ok snapshot) {limit : Option Amount}
    (hvalid : e.validate limit = .ok e)
    (hnew : ∀ x, ((en.carryAll before).2.carryAll later).2.tables.Stores x → x.cid ≠ e.cid) :
    ∃ id, ((en.carryAll before).2.carryAll later).2.Harmless e snapshot id := by
  have hst := h.steady.carryAll before
  have hst' := hst.carryAll later
  obtain ⟨-, hwf⟩ := Event.validate_eq_ok hvalid
  obtain ⟨c, hc, -⟩ := hwf.cid_text
  have hfree := hst'.sound.get?_eq_none hc hnew
  obtain ⟨k, hrow⟩ := hst.exists_row_of_getStream hsnapshot
  obtain ⟨g, tip, chain, s, hp⟩ := hst.projects_carryAll later hrow
  exact ⟨Ident.streamId g, hp.id_eq, hst'.advances hwf hc hfree hp,
    hst'.uncached.advances hwf hc hfree hp⟩

/-- An event that follows the tip of an old row is lost where the stream has moved on. -/
theorem advance_from_stale_sample :
    let en := sampleEngine .sqlite (some (.empty (.ofNat 1)))
    let before := [.op (.submit sampleGenesis sampleOwner)]
    let later := [.op (.submit (sampleUpdate "second" "first" 1) .none), .clear]
    let now := ((en.carryAll before).2.carryAll later).2
    let late := sampleUpdate "late" "first" 3
    ∃ snapshot,
      ((en.carryAll before).2.getStream (.str (Ident.streamId "first"))).1 = .ok snapshot ∧
      (∃ id, now.Harmless late snapshot id) ∧ (now.advanceFrom late snapshot).1 =
        .ok (Resolution.conflictReceipt (.str (Ident.streamId "first")) late "second") := by
  intro en before later now late
  let snapshot : Stream := ⟨.str (Ident.streamId "first"), sampleTenant, "first", .null, .null,
    .obj [("n", .int 0)]⟩
  have hsnapshot : ((en.carryAll before).2.getStream (.str (Ident.streamId "first"))).1 =
      .ok snapshot := by decide +kernel
  have hvalid : late.validate none = .ok late := by decide +kernel
  have hnew : ∀ x, now.tables.Stores x → x.cid ≠ late.cid := by
    have hall : ∀ x ∈ now.tables.events.values, x.cid ≠ late.cid := by decide +kernel
    exact fun x hx => hall x (Table.mem_values_iff.mpr hx)
  exact ⟨snapshot, hsnapshot, (sampleEngine_fresh .sqlite (.ofNat 1)).advance_from_stale before
    later hsnapshot hvalid hnew, by decide +kernel⟩

end Engine

end ChainFold
