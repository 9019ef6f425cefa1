import ChainFold.Proofs.Engine.Soundness
import ChainFold.Proofs.Event.Envelope

/-!
# What a submission files

On sound tables a checked event that is answered has been filed in one of four ways:
it was there before, it created its stream, it was stored beside the tip, or it moved
the tip.  Each way keeps the tables sound.
-/

namespace ChainFold

namespace Tables

def withEvent (t : Tables) (c : String) (e : Event) : Tables :=
  { t with events := t.events.insert (.text c) e }

def withFolder (t : Tables) (id : String) (f : Folder) : Tables :=
  { t with folders := t.folders.insert (.text id) f }

variable {b : Backend} {t : Tables} {e : Event} {c : String}

theorem insertEvent_of_none (hwf : e.WellFormed) (hc : e.cid = .str c)
    (hnew : t.events.get? (.text c) = none) :
    t.insertEvent b e = .ok (true, t.withEvent c e) := by
  have hhas : t.events.has (.text c) = false := Table.has_eq_false_iff.mpr hnew
  rw [insertEvent_eq hwf.storable hc, hhas]
  rfl

end Tables

/-! ## Linkage -/

namespace Linkage

variable {b : Backend} {t : Tables} {e : Event} {c p : String}

theorem ofEvent_of_stored (hs : t.Sound b) (hwf : e.WellFormed) (hc : e.cid = .str c)
    {stored : Event} (hstored : t.events.get? (.text c) = some stored) :
    ofEvent b t e =
      if stored = e then .ok .duplicate
      else .error (broken e "cid collision with a stored event of different content") := by
  rw [ofEvent, hc, Tables.event?_text, hstored, ok_bind]
  simp [(hs.wellFormed _ _ hstored).enclosable.same_eq hwf.enclosable]

theorem ofEvent_of_null (hwf : e.WellFormed) (hc : e.cid = .str c)
    (hnew : t.events.get? (.text c) = none) (hprev : e.prev = .null) :
    ofEvent b t e = .ok .genesis := by
  rw [ofEvent, hc, Tables.event?_text, hnew, ok_bind]
  simp [ofNew, hwf.isGenesis_eq, hprev]

theorem ofEvent_of_missing (hwf : e.WellFormed) (hc : e.cid = .str c)
    (hnew : t.events.get? (.text c) = none) (hprev : e.prev = .str p)
    (hparent : t.events.get? (.text p) = none) :
    ofEvent b t e = .error (broken e "unknown prev") := by
  rw [ofEvent, hc, Tables.event?_text, hnew, ok_bind]
  simp [ofNew, hwf.isGenesis_eq, hprev, hparent]

theorem ofEvent_of_parent (hwf : e.WellFormed) (hc : e.cid = .str c)
    (hnew : t.events.get? (.text c) = none) (hprev : e.prev = .str p) {parent : Event}
    (hparent : t.events.get? (.text p) = some parent) :
    ofEvent b t e =
      if parent.genesis = e.genesis then .ok .extension
      else .error (broken e
        s!"genesis mismatch: prev belongs to {parent.genesis.display}") := by
  obtain ⟨g, hg, -⟩ := hwf.genesis_text
  rw [ofEvent, hc, Tables.event?_text, hnew, ok_bind]
  simp [ofNew, hwf.isGenesis_eq, hprev, hparent, hg, Json.looselySame_text_right]

theorem parent_of_extension (hs : t.Sound b) (hwf : e.WellFormed) (hc : e.cid = .str c)
    (hnew : t.events.get? (.text c) = none) (h : ofEvent b t e = .ok .extension) :
    ∃ parent, t.Stores parent ∧ e.prev = parent.cid ∧ parent.genesis = e.genesis := by
  rcases hwf.prev_text with hprev | ⟨p, hprev⟩
  · simp [ofEvent_of_null hwf hc hnew hprev] at h
  · cases hparent : t.events.get? (.text p) with
    | none => simp [ofEvent_of_missing hwf hc hnew hprev hparent] at h
    | some parent =>
        rw [ofEvent_of_parent hwf hc hnew hprev hparent] at h
        split at h
        · rename_i hgenesis
          exact ⟨parent, ⟨_, hparent⟩, hprev.trans (hs.cid_of_get? hparent).symm, hgenesis⟩
        · simp at h

end Linkage

/-! ## Folders -/

namespace Index

theorem refreshed_eq (b : Backend) (extract : Extractor) (t : Tables) (id tip : String)
    (content : Json) :
    refreshed b extract t (.str id) (.str tip) content =
      match extract content with
      | .error d => .error (.defect d)
      | .ok signal => .ok (t.withFolder id ⟨.str id, .str tip, signal.map b.keptJson⟩) := by
  unfold refreshed folderOf
  cases extract content with
  | error d => rfl
  | ok signal => exact Tables.putFolder_eq rfl rfl

end Index

namespace Resolution

variable {b : Backend} {extract : Extractor} {t : Tables} {e : Event} {c id : String}
  {owner : Uuid} {s : Fold.State} {row : Stream}

/-! ## Creating a stream -/

theorem texts_of_headerFault? (h : headerFault? s = none) :
    (s.account = .null ∨ ∃ x, s.account = .str x) ∧
      (s.model = .null ∨ ∃ x, s.model = .str x) := by
  unfold headerFault? at h
  split at h
  · simp at h
  · rename_i hmodel
    exact ⟨Ident.text_or_null_of_fault? (Option.map_eq_none_iff.mp h),
      Ident.text_or_null_of_fault? hmodel⟩

theorem tipOf_eq (hrow : t.streams.get? (.text id) = some row)
    (hobj : row.content.isObject = true) : tipOf b t (.str id) = .ok row.tip := by
  simp [tipOf, Tables.stream?_of_some hrow hobj]

theorem established_of_fault {reason : String} (h : headerFault? s = some reason) :
    established b extract t e (.str id) owner s = .error (.malformedEvent e.cid reason) := by
  simp [established, checkHeader, h]

/-- The row that a new stream is kept as. -/
def firstRow (b : Backend) (id : String) (owner : Uuid) (s : Fold.State) : Stream :=
  { newStream (.str id) owner s with content := b.keptJson s.content }

theorem insertStream_newStream (hc : e.cid = .str c) (htip : s.tip = e.cid)
    (hheader : headerFault? s = none) :
    t.insertStream b (newStream (.str id) owner s) =
      if b.takes s.content then
        .ok (!t.streams.has (.text id), if t.streams.has (.text id) then t
          else t.setStream (.text id) (firstRow b id owner s))
      else .error b.refusal :=
  Tables.insertStream_eq rfl (htip.trans hc) (texts_of_headerFault? hheader).1
    (texts_of_headerFault? hheader).2

theorem established_of_refused (hc : e.cid = .str c) (htip : s.tip = e.cid)
    (hheader : headerFault? s = none) (htakes : b.takes s.content = false) :
    established b extract t e (.str id) owner s = .error b.refusal := by
  simp [established, checkHeader, hheader, insertStream_newStream hc htip hheader, htakes]

/-- A genesis event whose stream is there already is stored beside its tip. -/
theorem established_of_row (hwf : e.WellFormed) (hc : e.cid = .str c) (htip : s.tip = e.cid)
    (hheader : headerFault? s = none) (htakes : b.takes s.content = true)
    (hnew : t.events.get? (.text c) = none) (hrow : t.streams.get? (.text id) = some row)
    (hobj : row.content.isObject = true) :
    established b extract t e (.str id) owner s =
      .ok (conflictReceipt (.str id) e row.tip, t.withEvent c e) := by
  have hhas : t.streams.has (.text id) = true := Table.has_eq_true_iff.mpr ⟨row, hrow⟩
  have htipOf : tipOf b (t.withEvent c e) (.str id) = .ok row.tip := tipOf_eq hrow hobj
  simp [established, checkHeader, hheader, insertStream_newStream hc htip hheader, htakes, hhas,
    Tables.insertEvent_of_none hwf hc hnew, htipOf]

/-- A genesis event whose stream is not there creates it. -/
theorem established_of_none (hwf : e.WellFormed) (hc : e.cid = .str c) (htip : s.tip = e.cid)
    (hheader : headerFault? s = none) (htakes : b.takes s.content = true)
    (hnew : t.events.get? (.text c) = none) (hrow : t.streams.get? (.text id) = none) :
    established b extract t e (.str id) owner s =
      match extract s.content with
      | .error d => .error (.defect d)
      | .ok signal => .ok (appliedReceipt (.str id) e,
          ((t.setStream (.text id) (firstRow b id owner s)).withEvent c e).withFolder id
            ⟨.str id, e.cid, signal.map b.keptJson⟩) := by
  have hhas : t.streams.has (.text id) = false := Table.has_eq_false_iff.mpr hrow
  have hnew' : (t.setStream (.text id) (firstRow b id owner s)).events.get? (.text c) = none :=
    hnew
  simp only [established, checkHeader, hheader, insertStream_newStream hc htip hheader, htakes,
    hhas, ok_bind, if_true, Bool.not_false, Bool.false_eq_true, if_false,
    Tables.insertEvent_of_none hwf hc hnew', hc, Index.refreshed_eq]
  cases extract s.content <;> rfl

/-! ## Advancing a stream -/

theorem advancement_of_ne (hwf : e.WellFormed) (hc : e.cid = .str c)
    (hnew : t.events.get? (.text c) = none) {tip : String} (htip : row.tip = .str tip)
    (hprev : e.prev ≠ row.tip) (held : Held) :
    advancement b extract t e row held =
      .ok (conflictReceipt row.id e row.tip, t.withEvent c e) := by
  rw [htip] at hprev
  simp [advancement, Tables.insertEvent_of_none hwf hc hnew, htip, hwf.prev_looselySame_text,
    hprev]

theorem advancement_of_eq (hwf : e.WellFormed) (hc : e.cid = .str c)
    (hnew : t.events.get? (.text c) = none) {tip : String} (htip : row.tip = .str tip)
    (hprev : e.prev = row.tip) (held : Held) :
    advancement b extract t e row held =
      (currentOf held row).advance e >>= moved b extract (t.withEvent c e) e row := by
  have hsame : e.prev.looselySame row.tip = true := by
    rw [hprev, htip, Json.looselySame_text]
    simp
  simp [advancement, Tables.insertEvent_of_none hwf hc hnew, hsame]

theorem moved_eq (hn : t.StreamsNamed) (hc : e.cid = .str c) (hid : row.id = .str id)
    (hrow : t.streams.get? (.text id) = some row) {tip : String} (htip : row.tip = .str tip)
    (hprev : e.prev = row.tip) :
    moved b extract t e row s =
      if b.takes s.content then
        match extract s.content with
        | .error d => .error (.defect d)
        | .ok signal => .ok (appliedReceipt row.id e,
            (t.setStream (.text id)
              { row with tip := e.cid, content := b.keptJson s.content }).withFolder id
              ⟨.str id, e.cid, signal.map b.keptJson⟩)
      else .error b.refusal := by
  rw [moved, hid, hprev, htip, hc, Tables.swapTip_of_eq hn hrow htip]
  cases b.takes s.content with
  | false => rfl
  | true =>
      simp only [if_true, ok_bind, Index.refreshed_eq]
      cases extract s.content <;> simp [hid]

/-! ## What is written -/

theorem takes_of_established {p : Receipt × Tables} (hc : e.cid = .str c) (htip : s.tip = e.cid)
    (h : established b extract t e (.str id) owner s = .ok p) :
    headerFault? s = none ∧ b.takes s.content = true := by
  cases hheader : headerFault? s with
  | some reason => simp [established_of_fault hheader] at h
  | none =>
      cases htakes : b.takes s.content with
      | false => simp [established_of_refused hc htip hheader htakes] at h
      | true => exact ⟨rfl, rfl⟩

theorem exists_of_creation {r : Receipt} {t' : Tables} (hwf : e.WellFormed) (hc : e.cid = .str c)
    (hnew : t.events.get? (.text c) = none) (hrow : t.streams.get? (.text id) = none)
    (h : creation b extract t e (.str id) owner = .ok (r, t')) :
    ∃ s signal, Fold.State.ofGenesis e = .ok s ∧ b.takes s.content = true ∧
      extract s.content = .ok signal ∧ r = appliedReceipt (.str id) e ∧
      t' = ((t.setStream (.text id) (firstRow b id owner s)).withEvent c e).withFolder id
        ⟨.str id, e.cid, signal.map b.keptJson⟩ := by
  obtain ⟨s, hstate, h⟩ := bind_eq_ok.mp h
  have htip := Fold.State.tip_of_ofGenesis hstate
  obtain ⟨hheader, htakes⟩ := takes_of_established hc htip h
  rw [established_of_none hwf hc htip hheader htakes hnew hrow] at h
  split at h
  · simp at h
  · rename_i signal hsignal
    obtain ⟨rfl, rfl⟩ := Prod.mk.inj (Except.ok.inj h)
    exact ⟨s, signal, hstate, htakes, hsignal, rfl, rfl⟩

theorem exists_of_advancement {r : Receipt} {t' : Tables} {held : Held} (hn : t.StreamsNamed)
    (hwf : e.WellFormed) (hc : e.cid = .str c) (hnew : t.events.get? (.text c) = none)
    (hid : row.id = .str id) (hrow : t.streams.get? (.text id) = some row) {tip : String}
    (htip : row.tip = .str tip) (hmoves : e.prev = row.tip)
    (h : advancement b extract t e row held = .ok (r, t')) :
    ∃ s signal, (currentOf held row).advance e = .ok s ∧ b.takes s.content = true ∧
      extract s.content = .ok signal ∧ r = appliedReceipt (.str id) e ∧
      t' = ((t.withEvent c e).setStream (.text id)
        { row with tip := e.cid, content := b.keptJson s.content }).withFolder id
          ⟨.str id, e.cid, signal.map b.keptJson⟩ := by
  rw [advancement_of_eq hwf hc hnew htip hmoves] at h
  obtain ⟨s, hstate, h⟩ := bind_eq_ok.mp h
  rw [moved_eq (t := t.withEvent c e) hn hc hid hrow htip hmoves] at h
  split at h
  · rename_i htakes
    split at h
    · simp at h
    · rename_i signal hsignal
      obtain ⟨rfl, rfl⟩ := Prod.mk.inj (Except.ok.inj h)
      exact ⟨s, signal, hstate, htakes, hsignal, by rw [hid], rfl⟩
  · simp at h

end Resolution

namespace Engine

/-! ## The four ways -/

/-- An event continues a stored one of the same chain, or starts a chain. -/
def Joins (t : Tables) (e : Event) : Prop :=
  e.prev = .null ∨ ∃ parent, t.Stores parent ∧ e.prev = parent.cid ∧ parent.genesis = e.genesis

/-- How the tables change, and what is answered, when an event of a stream is filed. -/
inductive Filed (b : Backend) (held : Held) (t : Tables) (e : Event) (c id : String)
    (t' : Tables) : Receipt → Prop
  | duplicate {row : Stream} :
      t.events.get? (.text c) = some e →
      t.streams.get? (.text id) = some row →
      t' = t →
      Filed b held t e c id t' ⟨.str id, e.cid, row.tip, .duplicate, none⟩
  | created {owner : Uuid} {s : Fold.State} :
      t.events.get? (.text c) = none →
      e.prev = .null →
      t.streams.get? (.text id) = none →
      Fold.State.ofGenesis e = .ok s →
      t'.events = t.events.insert (.text c) e →
      t'.streams = t.streams.insert (.text id) (Resolution.firstRow b id owner s) →
      Filed b held t e c id t' (Resolution.appliedReceipt (.str id) e)
  | beside {row : Stream} :
      t.events.get? (.text c) = none →
      Joins t e →
      t.streams.get? (.text id) = some row →
      e.prev ≠ row.tip →
      t' = t.withEvent c e →
      Filed b held t e c id t' (Resolution.conflictReceipt (.str id) e row.tip)
  | advanced {row : Stream} {parent : Event} {s : Fold.State} :
      t.events.get? (.text c) = none →
      t.Stores parent →
      e.prev = parent.cid →
      parent.genesis = e.genesis →
      t.streams.get? (.text id) = some row →
      e.prev = row.tip →
      (Resolution.currentOf held row).advance e = .ok s →
      t'.events = t.events.insert (.text c) e →
      t'.streams = t.streams.insert (.text id)
        { row with tip := e.cid, content := b.keptJson s.content } →
      Filed b held t e c id t' (Resolution.appliedReceipt (.str id) e)

variable {en : Engine} {t t' : Tables} {e : Event} {c g : String} {claim : OwnerClaim}
  {held : Held} {r : Receipt}

theorem exists_row_of_stores (hs : t.Sound en.backend) {x : Event} (hx : t.Stores x)
    (hg : x.genesis = .str g) : ∃ row tip,
      t.streams.get? (.text (Ident.streamId g)) = some row ∧ row.tip = .str tip ∧
        row.id = .str (Ident.streamId g) ∧ row.content.isObject = true := by
  obtain ⟨k, hk⟩ := hx
  obtain ⟨g', row, hg', hrow⟩ := hs.streams k x hk
  obtain rfl : g' = g := by simpa [hg] using hg'.symm
  obtain ⟨g₁, tip, chain, s, hkey, hp⟩ := hs.projects _ row hrow
  obtain ⟨c, hc, -⟩ := (hs.wellFormed_of_stores hp.stored).cid_text
  refine ⟨row, c, hrow, hp.tip_eq.trans hc, ?_, hp.isObject⟩
  rw [hp.id_eq]
  simpa using hkey.symm

theorem filed_of_creation (hs : t.Sound en.backend) (hwf : e.WellFormed) (hc : e.cid = .str c)
    (hnew : t.events.get? (.text c) = none) (hprev : e.prev = .null) {owner : Uuid}
    (h : Resolution.creation en.backend en.extract t e (.str (Ident.streamId g)) owner =
      .ok (r, t')) :
    Filed en.backend held t e c (Ident.streamId g) t' r := by
  cases hrow : t.streams.get? (.text (Ident.streamId g)) with
  | none =>
      obtain ⟨s, signal, hstate, -, -, rfl, rfl⟩ :=
        Resolution.exists_of_creation hwf hc hnew hrow h
      exact .created hnew hprev hrow hstate rfl rfl
  | some row =>
      obtain ⟨s, hstate, h⟩ := bind_eq_ok.mp h
      have htip := Fold.State.tip_of_ofGenesis hstate
      obtain ⟨hheader, htakes⟩ := Resolution.takes_of_established hc htip h
      obtain ⟨g', tip, chain, s', -, hp⟩ := hs.projects _ row hrow
      rw [Resolution.established_of_row hwf hc htip hheader htakes hnew hrow hp.isObject] at h
      obtain ⟨rfl, rfl⟩ := Prod.mk.inj (Except.ok.inj h)
      refine .beside hnew (.inl hprev) hrow ?_ rfl
      obtain ⟨c', hc', -⟩ := (hs.wellFormed_of_stores hp.stored).cid_text
      rw [hprev, hp.tip_eq, hc']
      simp

theorem filed_of_advancement (hs : t.Sound en.backend) (hwf : e.WellFormed) (hc : e.cid = .str c)
    (hnew : t.events.get? (.text c) = none) {parent : Event} (hparent : t.Stores parent)
    (hprev : e.prev = parent.cid) (hgenesis : parent.genesis = e.genesis) {id : String}
    {row : Stream} (hrow : t.streams.get? (.text id) = some row) {tip : String}
    (htip : row.tip = .str tip) (hid : row.id = .str id)
    (h : Resolution.advancement en.backend en.extract t e row held = .ok (r, t')) :
    Filed en.backend held t e c id t' r := by
  by_cases hmoves : e.prev = row.tip
  · obtain ⟨s, signal, hstate, -, -, rfl, rfl⟩ :=
      Resolution.exists_of_advancement hs.streamsNamed hwf hc hnew hid hrow htip hmoves h
    exact .advanced hnew hparent hprev hgenesis hrow hmoves hstate rfl rfl
  · rw [Resolution.advancement_of_ne hwf hc hnew htip hmoves, hid] at h
    obtain ⟨rfl, rfl⟩ := Prod.mk.inj (Except.ok.inj h)
    exact .beside hnew (.inr ⟨parent, hparent, hprev, hgenesis⟩) hrow hmoves rfl

/-- A genesis event that is not stored comes to what its creation comes to. -/
theorem ruling_of_null (hwf : e.WellFormed) (hc : e.cid = .str c)
    (hnew : t.events.get? (.text c) = none) (hprev : e.prev = .null) (stream : Json) :
    en.ruling t e stream claim held = ownerOf en.registry e claim >>= fun owner =>
      Resolution.creation en.backend en.extract t e stream owner := by
  rw [ruling, Linkage.ofEvent_of_null hwf hc hnew hprev]
  rfl

/-- An event behind a stored one of its chain comes to what its advancement comes to. -/
theorem ruling_of_parent (hs : t.Sound en.backend) (hwf : e.WellFormed) (hc : e.cid = .str c)
    (hnew : t.events.get? (.text c) = none) {parent : Event}
    (hparent : t.Stores parent) (hprev : e.prev = parent.cid)
    (hgenesis : parent.genesis = e.genesis) {row : Stream}
    (hrow : t.streams.get? (.text (Ident.streamId g)) = some row) :
    en.ruling t e (.str (Ident.streamId g)) claim held =
      Resolution.advancement en.backend en.extract t e row held := by
  obtain ⟨p, hp⟩ := hs.binding.text parent hparent
  obtain ⟨g', tip, chain, s, -, hprojects⟩ := hs.projects _ row hrow
  rw [ruling, Linkage.ofEvent_of_parent hwf hc hnew (hprev.trans hp)
    (hs.get?_of_stores hparent hp), if_pos hgenesis, ok_bind]
  simp only [Tables.stream?_of_some hrow hprojects.isObject, ok_bind]

/-- An answered event has been filed in one of the four ways. -/
theorem filed_of_ruling (hs : t.Sound en.backend) (hwf : e.WellFormed) (hc : e.cid = .str c)
    (hg : e.genesis = .str g)
    (h : en.ruling t e (.str (Ident.streamId g)) claim held = .ok (r, t')) :
    Filed en.backend held t e c (Ident.streamId g) t' r := by
  cases hstored : t.events.get? (.text c) with
  | some stored =>
      obtain ⟨linkage, hlink, h⟩ := bind_eq_ok.mp h
      rw [Linkage.ofEvent_of_stored hs hwf hc hstored] at hlink
      split at hlink
      · rename_i heq
        obtain rfl := Except.ok.inj hlink
        subst heq
        obtain ⟨row, tip, hrow, -, -, hobj⟩ := exists_row_of_stores hs ⟨_, hstored⟩ hg
        simp only [Tables.stream?_of_some hrow hobj, ok_bind] at h
        obtain ⟨rfl, rfl⟩ := Prod.mk.inj (Except.ok.inj h)
        exact .duplicate hstored hrow rfl
      · simp at hlink
  | none =>
      rcases hwf.prev_text with hprev | ⟨p, hprev⟩
      · rw [ruling_of_null hwf hc hstored hprev] at h
        obtain ⟨owner, -, h⟩ := bind_eq_ok.mp h
        exact filed_of_creation hs hwf hc hstored hprev h
      · cases hparent : t.events.get? (.text p) with
        | none =>
            obtain ⟨linkage, hlink, -⟩ := bind_eq_ok.mp h
            rw [Linkage.ofEvent_of_missing hwf hc hstored hprev hparent] at hlink
            simp at hlink
        | some parent =>
            have hlinked := hprev.trans (hs.cid_of_get? hparent).symm
            by_cases hgenesis : parent.genesis = e.genesis
            · obtain ⟨row, tip, hrow, htip, hid, -⟩ :=
                exists_row_of_stores hs ⟨_, hparent⟩ (hgenesis.trans hg)
              rw [ruling_of_parent hs hwf hc hstored ⟨_, hparent⟩ hlinked hgenesis hrow] at h
              exact filed_of_advancement hs hwf hc hstored ⟨_, hparent⟩ hlinked hgenesis hrow htip
                hid h
            · obtain ⟨linkage, hlink, -⟩ := bind_eq_ok.mp h
              rw [Linkage.ofEvent_of_parent hwf hc hstored hprev hparent, if_neg hgenesis] at hlink
              simp at hlink

/-- The answer to a filed event names its stream, and the tip that the stream then has. -/
theorem Filed.exists_row {b : Backend} {id : String} (h : Filed b held t e c id t' r) :
    r.stream = .str id ∧ ∃ row, t'.streams.get? (.text id) = some row ∧ row.tip = r.tip := by
  cases h with
  | @duplicate row _ hrow ht => exact ⟨rfl, row, ht ▸ hrow, rfl⟩
  | created _ _ _ hstate _ hstreams =>
      refine ⟨rfl, _, by rw [hstreams, Table.get?_insert_self], ?_⟩
      exact Fold.State.tip_of_ofGenesis hstate
  | @beside row _ _ hrow _ ht => exact ⟨rfl, row, ht ▸ hrow, rfl⟩
  | advanced _ _ _ _ _ _ _ _ hstreams =>
      exact ⟨rfl, _, by rw [hstreams, Table.get?_insert_self], rfl⟩

/-! ## Soundness is kept -/

theorem get?_withEvent_of_some {k : Key} {x : Event} (hnew : t.events.get? (.text c) = none)
    (hx : t.events.get? k = some x) : (t.events.insert (.text c) e).get? k = some x := by
  rw [Table.get?_insert_of_ne, hx]
  rintro rfl
  simp [hnew] at hx

theorem stores_of_insert (hnew : t.events.get? (.text c) = none)
    (hevents : t'.events = t.events.insert (.text c) e) : ∀ x, t.Stores x → t'.Stores x := by
  rintro x ⟨k, hx⟩
  exact ⟨k, hevents ▸ get?_withEvent_of_some hnew hx⟩

theorem stores_withEvent (hnew : t.events.get? (.text c) = none) (x : Event) (hx : t.Stores x) :
    (t.withEvent c e).Stores x :=
  stores_of_insert hnew rfl x hx

theorem stores_insert_iff (hnew : t.events.get? (.text c) = none)
    (hevents : t'.events = t.events.insert (.text c) e) (x : Event) :
    t'.Stores x ↔ x = e ∨ t.Stores x := by
  constructor
  · rintro ⟨k, hx⟩
    rw [hevents, Table.get?_insert] at hx
    split at hx
    · exact .inl (Option.some.inj hx).symm
    · exact .inr ⟨k, hx⟩
  · rintro (rfl | hx)
    · exact ⟨.text c, by rw [hevents, Table.get?_insert_self]⟩
    · exact stores_of_insert hnew hevents x hx

/-- Storing an event that joins sound tables, with its stream in place, keeps them sound. -/
theorem sound_of_insert {b : Backend} (hs : t.Sound b) (hwf : e.WellFormed) (hc : e.cid = .str c)
    (hg : e.genesis = .str g) (hnew : t.events.get? (.text c) = none) (hjoins : Joins t e)
    (hevents : t'.events = t.events.insert (.text c) e)
    (hprojects : ∀ k row, t'.streams.get? k = some row →
      ∃ g tip chain s, k = .text (Ident.streamId g) ∧ t'.Projects b row g tip chain s)
    (hstreams : ∀ g', g' = g ∨ (∃ row, t.streams.get? (.text (Ident.streamId g')) = some row) →
      ∃ row, t'.streams.get? (.text (Ident.streamId g')) = some row) : t'.Sound b := by
  have hsub := stores_of_insert hnew hevents
  have hcases : ∀ k x, t'.events.get? k = some x → (k = .text c ∧ x = e) ∨
      t.events.get? k = some x := by
    intro k x hx
    rw [hevents, Table.get?_insert] at hx
    split at hx
    · exact .inl ⟨Eq.symm ‹_›, (Option.some.inj hx).symm⟩
    · exact .inr hx
  refine ⟨?_, ?_, ?_, hprojects, ?_⟩
  · intro k x hx
    rcases hcases k x hx with ⟨-, rfl⟩ | hx
    · exact hwf
    · exact hs.wellFormed k x hx
  · intro k x hx
    rcases hcases k x hx with ⟨rfl, rfl⟩ | hx
    · rw [hc]
      rfl
    · exact hs.key_eq k x hx
  · intro k x hx
    rcases hcases k x hx with ⟨-, rfl⟩ | hx
    · rcases hjoins with hprev | ⟨parent, hparent, hprev, hgenesis⟩
      · exact ⟨[x], .first hprev (hwf.genesis_eq_cid hprev)⟩
      · obtain ⟨k', hk'⟩ := hparent
        obtain ⟨chain, hchain⟩ := hs.lineage k' parent hk'
        exact ⟨chain ++ [x], .next (hsub _ ⟨k', hk'⟩) hprev hgenesis (hchain.mono hsub)⟩
    · obtain ⟨chain, hchain⟩ := hs.lineage k x hx
      exact ⟨chain, hchain.mono hsub⟩
  · intro k x hx
    rcases hcases k x hx with ⟨-, rfl⟩ | hx
    · obtain ⟨row, hrow⟩ := hstreams g (.inl rfl)
      exact ⟨g, row, hg, hrow⟩
    · obtain ⟨g', row, hg', hrow⟩ := hs.streams k x hx
      obtain ⟨row', hrow'⟩ := hstreams g' (.inr ⟨row, hrow⟩)
      exact ⟨g', row', hg', hrow'⟩

/-- The row of one stream is new, and it is what the lineage of the stored event projects to. -/
theorem sound_of_row {b : Backend} (hs : t.Sound b) (hwf : e.WellFormed) (hc : e.cid = .str c)
    (hg : e.genesis = .str g) (hnew : t.events.get? (.text c) = none) (hjoins : Joins t e)
    (hevents : t'.events = t.events.insert (.text c) e) {row : Stream}
    (hstreams : t'.streams = t.streams.insert (.text (Ident.streamId g)) row) {chain : List Event}
    {s : Fold.State} (hp : t'.Projects b row g e chain s) : t'.Sound b := by
  refine sound_of_insert hs hwf hc hg hnew hjoins hevents ?_ ?_
  · intro k row' hrow'
    rw [hstreams, Table.get?_insert] at hrow'
    split at hrow'
    · rename_i hk
      obtain rfl := Option.some.inj hrow'
      exact ⟨g, e, chain, s, hk.symm, hp⟩
    · obtain ⟨g', tip, chain', s', hk, hp'⟩ := hs.projects k row' hrow'
      exact ⟨g', tip, chain', s', hk, hp'.mono (stores_of_insert hnew hevents)⟩
  · rintro g' (rfl | ⟨row', hrow'⟩)
    · exact ⟨_, by rw [hstreams, Table.get?_insert_self]⟩
    · rw [hstreams, Table.get?_insert]
      split
      · exact ⟨_, rfl⟩
      · exact ⟨row', hrow'⟩

/-- What is held at the tips of streams agrees with their rows. -/
def Held.Fits (b : Backend) (t : Tables) (held : Held) : Prop :=
  ∀ k row s, t.streams.get? k = some row → held row.tip = some s →
    s.Agree b (Fold.State.ofRow row)

theorem agree_currentOf {b : Backend} (hfits : Held.Fits b t held) {k : Key} {row : Stream}
    (hrow : t.streams.get? k = some row) {tip : Event} {chain : List Event} {s : Fold.State}
    (hp : t.Projects b row g tip chain s) : (Resolution.currentOf held row).Agree b s := by
  unfold Resolution.currentOf
  cases hheld : held row.tip with
  | none => exact hp.agree
  | some s' => exact (hfits k row s' hrow hheld).trans hp.agree

theorem projects_of_creation {b : Backend} (hwf : e.WellFormed) (hg : e.genesis = .str g)
    (he : t.Stores e) (hprev : e.prev = .null) {s : Fold.State}
    (hstate : Fold.State.ofGenesis e = .ok s) (owner : Uuid) :
    t.Projects b (Resolution.firstRow b (Ident.streamId g) owner s) g e [e] s := by
  refine ⟨rfl, Fold.State.tip_of_ofGenesis hstate, he, hg, ?_, ?_, rfl, rfl, rfl⟩
  · exact .first hprev (hwf.genesis_eq_cid hprev)
  · rw [Fold.State.ofChain_singleton, hstate]

theorem projects_of_advance {b : Backend} (hs : t.Sound b) (hfits : Held.Fits b t held)
    (hg : e.genesis = .str g) (hevents : ∀ x, t.Stores x → t'.Stores x) (he : t'.Stores e)
    {row : Stream} (hrow : t.streams.get? (.text (Ident.streamId g)) = some row) {parent : Event}
    (hparent : t.Stores parent) (hprev : e.prev = parent.cid)
    (hgenesis : parent.genesis = e.genesis) (hmoves : e.prev = row.tip) {s : Fold.State}
    (hstate : (Resolution.currentOf held row).advance e = .ok s) :
    ∃ chain s', Lineage t.Stores parent chain ∧ s.Agree b s' ∧
      t'.Projects b { row with tip := e.cid, content := b.keptJson s.content } g e
        (chain ++ [e]) s' := by
  obtain ⟨g', tip, chain, s₁, hkey, hp⟩ := hs.projects _ row hrow
  obtain rfl := hs.binding.unique _ _ hp.stored hparent
    (hp.tip_eq.symm.trans (hmoves.symm.trans hprev))
  obtain rfl : g' = g := by
    have heq := hp.genesis_eq.symm.trans (hgenesis.trans hg)
    simpa using heq
  obtain ⟨s', hs', hagree⟩ := (agree_currentOf hfits hrow hp).exists_advance hstate
  obtain ⟨-, hmodel, haccount⟩ := Fold.State.fixed_of_advance hs'
  refine ⟨chain, s', hp.lineage, hagree, hp.id_eq, rfl, he, hg, ?_, ?_, ?_, ?_, ?_⟩
  · exact .next (hevents _ hparent) hprev hgenesis (hp.lineage.mono hevents)
  · rw [Fold.State.ofChain_concat hp.lineage.ne_nil, hp.fold]
    exact hs'
  · exact hagree.content.keptJson_eq
  · exact hp.model_eq.trans hmodel.symm
  · exact hp.account_eq.trans haccount.symm

theorem Filed.sound {b : Backend} (hs : t.Sound b) (hfits : Held.Fits b t held)
    (hwf : e.WellFormed) (hc : e.cid = .str c) (hg : e.genesis = .str g)
    (h : Filed b held t e c (Ident.streamId g) t' r) : t'.Sound b := by
  cases h with
  | duplicate _ _ ht => exact ht ▸ hs
  | @created owner s hnew hprev hrow hstate hevents hstreams =>
      have he : t'.Stores e := (stores_insert_iff hnew hevents e).mpr (.inl rfl)
      exact sound_of_row hs hwf hc hg hnew (.inl hprev) hevents hstreams
        (projects_of_creation hwf hg he hprev hstate owner)
  | @beside row hnew hjoins hrow _ ht =>
      subst ht
      have hsub := stores_withEvent (e := e) hnew
      refine sound_of_insert hs hwf hc hg hnew hjoins rfl ?_ ?_
      · intro k row' hrow'
        obtain ⟨g', tip, chain, s', hk, hp⟩ := hs.projects k row' hrow'
        exact ⟨g', tip, chain, s', hk, hp.mono hsub⟩
      · rintro g' (rfl | hrow')
        · exact ⟨row, hrow⟩
        · exact hrow'
  | @advanced row parent s hnew hparent hprev hgenesis hrow hmoves hstate hevents hstreams =>
      have hsub := stores_of_insert hnew hevents
      have he : t'.Stores e := (stores_insert_iff hnew hevents e).mpr (.inl rfl)
      obtain ⟨chain, s', -, -, hp⟩ := projects_of_advance hs hfits hg hsub he hrow hparent
        hprev hgenesis hmoves hstate
      exact sound_of_row hs hwf hc hg hnew (.inr ⟨parent, hparent, hprev, hgenesis⟩) hevents
        hstreams hp

end Engine

end ChainFold
