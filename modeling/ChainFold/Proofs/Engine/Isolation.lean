import ChainFold.Proofs.Engine.Indifference

/-!
# Streams are isolated

A submission writes under the cid of its event and under the id of its stream, and what it
comes to depends on little more than what stands there: of its predecessor it matters only
whether it is stored as an event of the same chain.  So two events of different streams can
be submitted in either order.
-/

namespace ChainFold

/-! ## Rows under one cid and one stream -/

namespace Tables

/-- Tables with the same rows under a cid and under the id of a stream. -/
structure AgreeAt (c id : String) (t t' : Tables) : Prop where
  event : t'.events.get? (.text c) = t.events.get? (.text c)
  row : t'.streams.get? (.text id) = t.streams.get? (.text id)
  folder : t'.folders.get? (.text id) = t.folders.get? (.text id)

/-- Tables that differ at most under a cid and under the id of a stream. -/
structure AgreeOff (c id : String) (t t' : Tables) : Prop where
  events : ∀ k, k ≠ .text c → t'.events.get? k = t.events.get? k
  streams : ∀ k, k ≠ .text id → t'.streams.get? k = t.streams.get? k
  folders : ∀ k, k ≠ .text id → t'.folders.get? k = t.folders.get? k

variable {c c₁ c₂ id id₁ id₂ : String} {t t' t₁ t₂ t₁₂ t₂₁ : Tables} {e : Event}

theorem AgreeOff.refl (t : Tables) : AgreeOff c id t t :=
  ⟨fun _ _ => rfl, fun _ _ => rfl, fun _ _ => rfl⟩

/-- What is written elsewhere leaves the rows of another cid and another stream. -/
theorem AgreeOff.agreeAt (h : AgreeOff c₂ id₂ t t') (hc : c₁ ≠ c₂) (hid : id₁ ≠ id₂) :
    AgreeAt c₁ id₁ t t' :=
  ⟨h.events _ fun heq => hc (Key.text.inj heq), h.streams _ fun heq => hid (Key.text.inj heq),
    h.folders _ fun heq => hid (Key.text.inj heq)⟩

theorem AgreeAt.symm (h : AgreeAt c id t t') : AgreeAt c id t' t :=
  ⟨h.event.symm, h.row.symm, h.folder.symm⟩

theorem agreeOff_withEvent (t : Tables) (c id : String) (e : Event) :
    AgreeOff c id t (t.withEvent c e) :=
  ⟨fun _ hk => Table.get?_insert_of_ne hk.symm, fun _ _ => rfl, fun _ _ => rfl⟩

/--
Where each of two writers keeps to rows of its own, and writes there the same before and
after the other one, the two orders lead to the same tables.
-/
theorem eq_of_agree (hc : c₁ ≠ c₂) (hid : id₁ ≠ id₂) (h₁ : AgreeOff c₁ id₁ t t₁)
    (h₁₂ : AgreeOff c₂ id₂ t₁ t₁₂) (h₂ : AgreeOff c₂ id₂ t t₂) (h₂₁ : AgreeOff c₁ id₁ t₂ t₂₁)
    (hsame₁ : AgreeAt c₁ id₁ t₁ t₂₁) (hsame₂ : AgreeAt c₂ id₂ t₁₂ t₂) : t₁₂ = t₂₁ := by
  have hat₁ := h₁₂.agreeAt hc hid
  have hat₂ := h₂₁.agreeAt hc.symm hid.symm
  have hevents : t₁₂.events = t₂₁.events := by
    refine Table.ext_get? fun k => ?_
    by_cases hk₁ : k = .text c₁
    · rw [hk₁, hat₁.event, hsame₁.event]
    by_cases hk₂ : k = .text c₂
    · rw [hk₂, hat₂.event, hsame₂.event]
    · rw [h₁₂.events k hk₂, h₁.events k hk₁, h₂₁.events k hk₁, h₂.events k hk₂]
  have hstreams : t₁₂.streams = t₂₁.streams := by
    refine Table.ext_get? fun k => ?_
    by_cases hk₁ : k = .text id₁
    · rw [hk₁, hat₁.row, hsame₁.row]
    by_cases hk₂ : k = .text id₂
    · rw [hk₂, hat₂.row, hsame₂.row]
    · rw [h₁₂.streams k hk₂, h₁.streams k hk₁, h₂₁.streams k hk₁, h₂.streams k hk₂]
  have hfolders : t₁₂.folders = t₂₁.folders := by
    refine Table.ext_get? fun k => ?_
    by_cases hk₁ : k = .text id₁
    · rw [hk₁, hat₁.folder, hsame₁.folder]
    by_cases hk₂ : k = .text id₂
    · rw [hk₂, hat₂.folder, hsame₂.folder]
    · rw [h₁₂.folders k hk₂, h₁.folders k hk₁, h₂₁.folders k hk₁, h₂.folders k hk₂]
  cases t₁₂
  cases t₂₁
  simp_all

end Tables

namespace Engine

variable {en en' : Engine} {t t' : Tables} {e : Event} {c g id : String} {claim : OwnerClaim}
  {held : Held} {r : Receipt} {b : Backend} {extract : Extractor} {s : Fold.State}
  {row : Stream} {α β : Type}

/-! ## What a submission writes -/

/-- An answered event is written under its cid and under the id of its stream. -/
theorem agreeOff_of_ruling (hs : t.Sound en.backend) (hwf : e.WellFormed) (hc : e.cid = .str c)
    (hg : e.genesis = .str g)
    (h : en.ruling t e (.str (Ident.streamId g)) claim held = .ok (r, t')) :
    Tables.AgreeOff c (Ident.streamId g) t t' := by
  cases filed_of_ruling hs hwf hc hg h with
  | duplicate _ _ ht =>
      subst ht
      exact .refl _
  | beside _ _ _ _ ht =>
      subst ht
      exact Tables.agreeOff_withEvent t c _ e
  | created hnew hprev hrow =>
      rw [ruling_of_null hwf hc hnew hprev] at h
      obtain ⟨owner, -, h⟩ := bind_eq_ok.mp h
      obtain ⟨s, signal, -, -, -, -, rfl⟩ := Resolution.exists_of_creation hwf hc hnew hrow h
      exact ⟨fun _ hk => Table.get?_insert_of_ne hk.symm,
        fun _ hk => Table.get?_insert_of_ne hk.symm, fun _ hk => Table.get?_insert_of_ne hk.symm⟩
  | @advanced row parent s hnew hparent hprev hgenesis hrow hmoves =>
      rw [ruling_of_parent hs hwf hc hnew hparent hprev hgenesis hrow] at h
      obtain ⟨row', tip, hrow', htip, hid, -⟩ :=
        exists_row_of_stores hs hparent (hgenesis.trans hg)
      obtain rfl := Option.some.inj (hrow.symm.trans hrow')
      obtain ⟨s', signal, -, -, -, -, rfl⟩ := Resolution.exists_of_advancement
        hs.streamsNamed hwf hc hnew hid hrow htip hmoves h
      exact ⟨fun _ hk => Table.get?_insert_of_ne hk.symm,
        fun _ hk => Table.get?_insert_of_ne hk.symm, fun _ hk => Table.get?_insert_of_ne hk.symm⟩

/-! ## What a submission looks at -/

/-- Tables that look the same from an event: in its own rows, and in what it continues. -/
structure LookSame (e : Event) (c id : String) (t t' : Tables) : Prop where
  rows : Tables.AgreeAt c id t t'
  joins : Joins t' e ↔ Joins t e

/--
Results of submitting one event: the same receipt with things that correspond, or the same
failure, up to the reason for which a chain is broken.
-/
inductive Alike (e : Event) (rel : α → α → Prop) :
    Except Failure (Receipt × α) → Except Failure (Receipt × α) → Prop
  | ok {r : Receipt} {a a' : α} : rel a a' → Alike e rel (.ok (r, a)) (.ok (r, a'))
  | error (f : Failure) : Alike e rel (.error f) (.error f)
  | broken (reason reason' : String) :
      Alike e rel (.error (Linkage.broken e reason)) (.error (Linkage.broken e reason'))

theorem Alike.bind {rel : α → α → Prop} {rel' : β → β → Prop}
    {x x' : Except Failure (Receipt × α)} {w w' : Receipt × α → Except Failure (Receipt × β)}
    (h : Alike e rel x x') (hw : ∀ r a a', rel a a' → Alike e rel' (w (r, a)) (w' (r, a'))) :
    Alike e rel' (x >>= w) (x' >>= w') := by
  cases h with
  | ok ha => exact hw _ _ _ ha
  | error f => exact .error f
  | broken reason reason' => exact .broken reason reason'

/-- With the event stored in both, tables that look the same have the same rows. -/
theorem LookSame.withEvent (h : LookSame e c id t t') :
    Tables.AgreeAt c id (t.withEvent c e) (t'.withEvent c e) :=
  ⟨by simp only [Tables.withEvent, Table.get?_insert_self], h.rows.row, h.rows.folder⟩

theorem established_alike (h : LookSame e c id t t') (hs : t.Sound b) (hwf : e.WellFormed)
    (hc : e.cid = .str c) (hnew : t.events.get? (.text c) = none) (htip : s.tip = e.cid)
    (owner : Uuid) : Alike e (Tables.AgreeAt c id)
      (Resolution.established b extract t e (.str id) owner s)
      (Resolution.established b extract t' e (.str id) owner s) := by
  have hnew' := h.rows.event.trans hnew
  cases hheader : Resolution.headerFault? s with
  | some reason =>
      rw [Resolution.established_of_fault hheader, Resolution.established_of_fault hheader]
      exact .error _
  | none =>
      cases htakes : b.takes s.content with
      | false =>
          rw [Resolution.established_of_refused hc htip hheader htakes,
            Resolution.established_of_refused hc htip hheader htakes]
          exact .error _
      | true =>
          cases hrow : t.streams.get? (.text id) with
          | some row =>
              obtain ⟨g, tip, chain, f, -, hp⟩ := hs.projects _ row hrow
              rw [Resolution.established_of_row hwf hc htip hheader htakes hnew hrow hp.isObject,
                Resolution.established_of_row hwf hc htip hheader htakes hnew'
                  (h.rows.row.trans hrow) hp.isObject]
              exact .ok h.withEvent
          | none =>
              rw [Resolution.established_of_none hwf hc htip hheader htakes hnew hrow,
                Resolution.established_of_none hwf hc htip hheader htakes hnew'
                  (h.rows.row.trans hrow)]
              cases extract s.content with
              | error d => exact .error _
              | ok signal =>
                  refine .ok ⟨?_, ?_, ?_⟩ <;>
                    simp only [Tables.withFolder, Tables.withEvent, Tables.setStream,
                      Table.get?_insert_self]

theorem advancement_alike (h : LookSame e c id t t') (hn : t.StreamsNamed)
    (hn' : t'.StreamsNamed) (hwf : e.WellFormed) (hc : e.cid = .str c)
    (hnew : t.events.get? (.text c) = none) (hrow : t.streams.get? (.text id) = some row)
    (hid : row.id = .str id) {tip : String} (htip : row.tip = .str tip) (held : Held) :
    Alike e (Tables.AgreeAt c id) (Resolution.advancement b extract t e row held)
      (Resolution.advancement b extract t' e row held) := by
  have hnew' := h.rows.event.trans hnew
  by_cases hmoves : e.prev = row.tip
  · rw [Resolution.advancement_of_eq hwf hc hnew htip hmoves,
      Resolution.advancement_of_eq hwf hc hnew' htip hmoves]
    cases (Resolution.currentOf held row).advance e with
    | error f => exact .error f
    | ok s =>
        rw [ok_bind, ok_bind,
          Resolution.moved_eq (t := t.withEvent c e) hn hc hid hrow htip hmoves,
          Resolution.moved_eq (t := t'.withEvent c e) hn' hc hid (h.rows.row.trans hrow) htip
            hmoves]
        cases b.takes s.content with
        | false => exact .error _
        | true =>
            cases extract s.content with
            | error d => exact .error _
            | ok signal =>
                refine .ok ⟨?_, ?_, ?_⟩ <;>
                  simp only [Tables.withFolder, Tables.withEvent, Tables.setStream,
                    Table.get?_insert_self]
  · rw [Resolution.advancement_of_ne hwf hc hnew htip hmoves,
      Resolution.advancement_of_ne hwf hc hnew' htip hmoves]
    exact .ok h.withEvent

/-- An event that is not stored, and continues no stored event of its chain, breaks the chain. -/
theorem exists_broken_of_not_joins (hs : t.Sound en.backend) (hwf : e.WellFormed)
    (hc : e.cid = .str c) (hnew : t.events.get? (.text c) = none) (h : ¬ Joins t e)
    (stream : Json) (claim : OwnerClaim) (held : Held) : ∃ reason,
      en.ruling t e stream claim held = .error (Linkage.broken e reason) := by
  rcases hwf.prev_text with hprev | ⟨prev, hprev⟩
  · exact absurd (.inl hprev) h
  · cases hparent : t.events.get? (.text prev) with
    | none =>
        rw [ruling, Linkage.ofEvent_of_missing hwf hc hnew hprev hparent]
        exact ⟨_, rfl⟩
    | some parent =>
        have hforeign : parent.genesis ≠ e.genesis := fun hgenesis => h (.inr ⟨parent,
          ⟨_, hparent⟩, hprev.trans (hs.cid_of_get? hparent).symm, hgenesis⟩)
        rw [ruling, Linkage.ofEvent_of_parent hwf hc hnew hprev hparent, if_neg hforeign]
        exact ⟨_, rfl⟩

/-- An event that is stored under its cid, or another one that is, is met alike. -/
theorem ruling_alike_of_stored (hs : t.Sound en.backend) (hs' : t'.Sound en.backend)
    (hwf : e.WellFormed) (hc : e.cid = .str c) (hg : e.genesis = .str g)
    (h : LookSame e c (Ident.streamId g) t t') {stored : Event}
    (hstored : t.events.get? (.text c) = some stored) :
    Alike e (Tables.AgreeAt c (Ident.streamId g))
      (en.ruling t e (.str (Ident.streamId g)) claim held)
      (en.ruling t' e (.str (Ident.streamId g)) claim held) := by
  unfold ruling
  rw [Linkage.ofEvent_of_stored hs hwf hc hstored,
    Linkage.ofEvent_of_stored hs' hwf hc (h.rows.event.trans hstored)]
  split
  · rename_i heq
    subst heq
    obtain ⟨row, tip, hrow, -, -, hobj⟩ := exists_row_of_stores hs ⟨_, hstored⟩ hg
    simp only [ok_bind, Tables.stream?_of_some hrow hobj,
      Tables.stream?_of_some (h.rows.row.trans hrow) hobj]
    exact .ok h.rows
  · exact .error _

/-- An event that starts a chain, or continues one, comes to the same. -/
theorem ruling_alike_of_joins (hs : t.Sound en.backend) (hs' : t'.Sound en.backend)
    (hwf : e.WellFormed) (hc : e.cid = .str c) (hg : e.genesis = .str g)
    (h : LookSame e c (Ident.streamId g) t t') (hnew : t.events.get? (.text c) = none)
    (hjoins : Joins t e) :
    Alike e (Tables.AgreeAt c (Ident.streamId g))
      (en.ruling t e (.str (Ident.streamId g)) claim held)
      (en.ruling t' e (.str (Ident.streamId g)) claim held) := by
  have hnew' := h.rows.event.trans hnew
  have hjoins' := h.joins.mpr hjoins
  rcases hjoins with hprev | ⟨parent, hparent, hprev, hgenesis⟩
  · rw [ruling_of_null hwf hc hnew hprev, ruling_of_null hwf hc hnew' hprev]
    cases ownerOf en.registry e claim with
    | error f => exact .error f
    | ok owner =>
        rw [ok_bind, ok_bind]
        unfold Resolution.creation
        cases hstate : Fold.State.ofGenesis e with
        | error f => exact .error f
        | ok s =>
            exact established_alike h hs hwf hc hnew (Fold.State.tip_of_ofGenesis hstate) owner
  · obtain ⟨p, hp⟩ := hs.binding.text parent hparent
    rcases hjoins' with hnull | ⟨parent', hparent', hprev', hgenesis'⟩
    · cases (hnull.symm.trans hprev).trans hp
    · obtain ⟨row, tip, hrow, htip, hid, -⟩ :=
        exists_row_of_stores hs hparent (hgenesis.trans hg)
      rw [ruling_of_parent hs hwf hc hnew hparent hprev hgenesis hrow,
        ruling_of_parent hs' hwf hc hnew' hparent' hprev' hgenesis' (h.rows.row.trans hrow)]
      exact advancement_alike h hs.streamsNamed hs'.streamsNamed hwf hc hnew hrow hid htip held

/-- A checked event comes to the same in tables that look the same from it. -/
theorem ruling_alike (hs : t.Sound en.backend) (hs' : t'.Sound en.backend) (hwf : e.WellFormed)
    (hc : e.cid = .str c) (hg : e.genesis = .str g) (h : LookSame e c (Ident.streamId g) t t') :
    Alike e (Tables.AgreeAt c (Ident.streamId g))
      (en.ruling t e (.str (Ident.streamId g)) claim held)
      (en.ruling t' e (.str (Ident.streamId g)) claim held) := by
  cases hstored : t.events.get? (.text c) with
  | some stored => exact ruling_alike_of_stored hs hs' hwf hc hg h hstored
  | none =>
      by_cases hjoins : Joins t e
      · exact ruling_alike_of_joins hs hs' hwf hc hg h hstored hjoins
      · have hjoins' : ¬ Joins t' e := fun h' => hjoins (h.joins.mp h')
        obtain ⟨reason, hbroken⟩ := exists_broken_of_not_joins hs hwf hc hstored hjoins
          (.str (Ident.streamId g)) claim held
        obtain ⟨reason', hbroken'⟩ := exists_broken_of_not_joins hs' hwf hc
          (h.rows.event.trans hstored) hjoins' (.str (Ident.streamId g)) claim held
        rw [hbroken, hbroken']
        exact .broken reason reason'

/-- Engines that look the same from an event: they are set up alike, and so is what it meets. -/
structure SameSight (e : Event) (c id : String) (en en' : Engine) : Prop where
  setup : en.SameSetup en'
  registry_eq : en'.registry = en.registry
  tables : LookSame e c id en.tables en'.tables
  archive : en.archive.SameRoom c en'.archive

theorem settlement_alike (hwf : e.WellFormed) (hc : e.cid = .str c) {id : String}
    (h : en.archive.SameRoom c en'.archive) (r : Receipt) {t t' : Tables}
    (ht : Tables.AgreeAt c id t t') :
    Alike e (fun h h' => Tables.AgreeAt c id h.tables h'.tables) (en.settlement e r t)
      (en'.settlement e r t') := by
  obtain ⟨bs, hbs⟩ := hwf.exists_envelope
  unfold settlement
  rw [hbs, ok_bind, ok_bind, hc]
  rcases h.put bs with ⟨p, p', hp, hp'⟩ | ⟨f, hf, hf'⟩
  · rw [hp, hp']
    exact .ok ht
  · rw [hf, hf']
    exact .error f

theorem acceptance_alike (hs : en.tables.Sound en.backend) (hs' : en'.tables.Sound en'.backend)
    (hwf : e.WellFormed) (hc : e.cid = .str c) (hg : e.genesis = .str g)
    (h : SameSight e c (Ident.streamId g) en en') (held : Held) :
    Alike e (fun h h' => Tables.AgreeAt c (Ident.streamId g) h.tables h'.tables)
      (en.acceptance e claim held) (en'.acceptance e claim held) := by
  have hruling : en'.ruling en'.tables e (.str (Ident.streamId g)) claim held =
      en.ruling en'.tables e (.str (Ident.streamId g)) claim held := by
    simp only [ruling, h.setup.backend_eq, h.setup.extract_eq, h.registry_eq]
  rw [h.setup.backend_eq] at hs'
  unfold acceptance resolution
  rw [hwf.streamOf_eq hg, ok_bind, ok_bind, checkOpen_congr h.setup, hruling]
  cases en.checkOpen with
  | error f => exact .error f
  | ok u =>
      exact (ruling_alike hs hs' hwf hc hg h.tables).bind fun r t t' ht =>
        settlement_alike hwf hc h.archive r ht

/-! ## What a submission leaves behind -/

theorem Steady.agreeOff_submit (hst : en.Steady) (hc : e.cid = .str c) (hg : e.genesis = .str g)
    (claim : OwnerClaim) :
    Tables.AgreeOff c (Ident.streamId g) en.tables (en.submit e claim).2.tables := by
  cases hst.commits e claim with
  | failed f d heq =>
      rw [heq]
      exact .refl _
  | answered c' g' r h d hadm hwf hc' hg' hres hfiled heq =>
      rw [heq]
      exact agreeOff_of_ruling hst.sound hwf hc hg
        (ruling_of_acceptance (hwf.streamOf_eq hg) hres)

theorem Steady.sameRoom_submit (hst : en.Steady) (e : Event) (claim : OwnerClaim) (c : String) :
    en.archive.SameRoom c (en.submit e claim).2.archive := by
  cases hst.commits e claim with
  | failed f d heq =>
      rw [heq]
      exact .refl c _
  | answered c' g' r h d hadm hwf hc' hg' hres hfiled heq =>
      obtain ⟨bs, written, -, hput⟩ := exists_put_of_acceptance hres
      rw [hc'] at hput
      rw [heq]
      exact Archive.sameRoom_put hput c

/-- An event of another chain is no predecessor that an event could continue. -/
theorem Steady.joins_submit (hst : en.Steady) (claim : OwnerClaim) {x : Event}
    (hx : x.genesis ≠ e.genesis) :
    Joins (en.submit e claim).2.tables x ↔ Joins en.tables x := by
  cases hst.commits e claim with
  | failed f d heq =>
      rw [heq]
      exact .rfl
  | answered c g r h d hadm hwf hc hg hres hfiled heq =>
      rw [heq]
      show Joins h.tables x ↔ Joins en.tables x
      refine or_congr_right ?_
      constructor
      · rintro ⟨parent, hparent, hprev, hgenesis⟩
        rcases hfiled.eq_or_stores hparent with rfl | hstored
        · exact absurd hgenesis.symm hx
        · exact ⟨parent, hstored, hprev, hgenesis⟩
      · rintro ⟨parent, hparent, hprev, hgenesis⟩
        rcases hfiled.duplicate_or_new with ⟨-, -, ht⟩ | ⟨-, hnew, hevents⟩
        · exact ⟨parent, ht ▸ hparent, hprev, hgenesis⟩
        · exact ⟨parent, stores_of_insert hnew hevents _ hparent, hprev, hgenesis⟩

theorem Steady.archive_submit (hst : en.Steady) (hc : e.cid = .str c) {bs : Bytes}
    (hbs : e.envelope = .ok bs) (claim : OwnerClaim) :
    (en.submit e claim).2.archive =
      if (en.submit e claim).1.isOk then en.archive.kept c bs else en.archive := by
  cases hst.commits e claim with
  | failed f d heq =>
      rw [heq]
      rfl
  | answered c' g r h d hadm hwf hc' hg hres hfiled heq =>
      obtain ⟨bs', written, hbs', hput⟩ := exists_put_of_acceptance hres
      obtain rfl := Except.ok.inj (hbs.symm.trans hbs')
      rw [hc] at hput
      rw [heq]
      exact (Archive.kept_of_put hput).symm

/-- Behind an event of another stream an engine looks the same from an event. -/
theorem Steady.sameSight_submit {x : Event} {c' g' : String} (hst : en.Steady)
    (hc : e.cid = .str c) (hg : e.genesis = .str g) (hcid : c' ≠ c)
    (hid : Ident.streamId g' ≠ Ident.streamId g) (hx : x.genesis ≠ e.genesis)
    (claim : OwnerClaim) : SameSight x c' (Ident.streamId g') en (en.submit e claim).2 where
  setup := submit_sameSetup en e claim
  registry_eq := submit_registry en e claim
  tables := ⟨(hst.agreeOff_submit hc hg claim).agreeAt hcid hid, hst.joins_submit claim hx⟩
  archive := hst.sameRoom_submit e claim c'

/-! ## Two submissions in either order -/

/-- The same answer, or two failures that say that an event breaks a chain. -/
def SameOutcome (e : Event) (res res' : Except Failure Receipt) : Prop :=
  res = res' ∨ ∃ reason reason', res = .error (.brokenChain e.cid reason e.prev e.genesis) ∧
    res' = .error (.brokenChain e.cid reason' e.prev e.genesis)

theorem Alike.sameOutcome {rel : α → α → Prop} {x x' : Except Failure (Receipt × α)}
    (h : Alike e rel x x') : SameOutcome e (x.map (·.1)) (x'.map (·.1)) := by
  cases h with
  | ok _ => exact .inl rfl
  | error f => exact .inl rfl
  | broken reason reason' => exact .inr ⟨reason, reason', rfl, rfl⟩

theorem SameOutcome.symm {res res' : Except Failure Receipt} (h : SameOutcome e res res') :
    SameOutcome e res' res := by
  rcases h with h | ⟨reason, reason', h, h'⟩
  · exact .inl h.symm
  · exact .inr ⟨reason', reason, h', h⟩

theorem SameOutcome.isOk_eq {res res' : Except Failure Receipt} (h : SameOutcome e res res') :
    res'.isOk = res.isOk := by
  rcases h with rfl | ⟨reason, reason', rfl, rfl⟩ <;> rfl

/-- Two events can be submitted in either order. -/
structure Commute (en : Engine) (e₁ e₂ : Event) (claim₁ claim₂ : OwnerClaim) : Prop where
  first : SameOutcome e₁ (en.submit e₁ claim₁).1 ((en.submit e₂ claim₂).2.submit e₁ claim₁).1
  second : SameOutcome e₂ ((en.submit e₁ claim₁).2.submit e₂ claim₂).1 (en.submit e₂ claim₂).1
  tables_eq : ((en.submit e₁ claim₁).2.submit e₂ claim₂).2.tables =
    ((en.submit e₂ claim₂).2.submit e₁ claim₁).2.tables
  /-- So is the archive the same, where it tells the cids apart. -/
  archive_eq : en.archive.TellsApart (cidTexts [e₁, e₂]) →
    ((en.submit e₁ claim₁).2.submit e₂ claim₂).2.archive =
      ((en.submit e₂ claim₂).2.submit e₁ claim₁).2.archive

theorem Commute.symm {e₁ e₂ : Event} {claim₁ claim₂ : OwnerClaim}
    (h : en.Commute e₁ e₂ claim₁ claim₂) : en.Commute e₂ e₁ claim₂ claim₁ where
  first := h.second.symm
  second := h.first.symm
  tables_eq := h.tables_eq.symm
  archive_eq := fun hapart => (h.archive_eq (hapart.subset fun c hc => by
    simp only [cidTexts, List.mem_filterMap, List.mem_cons, List.not_mem_nil, or_false] at hc ⊢
    obtain ⟨e, he, htext⟩ := hc
    exact ⟨e, he.symm, htext⟩)).symm

theorem Alike.agreeAt {h h' : Holdings} {id : String}
    {x x' : Except Failure (Receipt × Holdings)}
    (hx : Alike e (fun h h' => Tables.AgreeAt c id h.tables h'.tables) x x')
    (hbefore : Tables.AgreeAt c id h.tables h'.tables) :
    Tables.AgreeAt c id (h.behind x).tables (h'.behind x').tables := by
  cases hx with
  | ok hrows => exact hrows
  | error f => exact hbefore
  | broken reason reason' => exact hbefore

theorem SameSight.submit (h : SameSight e c (Ident.streamId g) en en') (hst : en.Steady)
    (hst' : en'.Steady) (hind : en.Indifferent) (hind' : en'.Indifferent)
    (hadm : en.admission e = .ok e) (hc : e.cid = .str c) (hg : e.genesis = .str g)
    (claim : OwnerClaim) :
    SameOutcome e (en.submit e claim).1 (en'.submit e claim).1 ∧
      Tables.AgreeAt c (Ident.streamId g) (en.submit e claim).2.tables
        (en'.submit e claim).2.tables := by
  obtain ⟨-, hwf, -⟩ := admission_eq_ok hadm
  have hadm' := (admission_congr h.setup e).trans hadm
  obtain ⟨hanswer, hholdings⟩ := hst.submit_outcome hind e claim
  obtain ⟨hanswer', hholdings'⟩ := hst'.submit_outcome hind' e claim
  rw [outcome, hadm, ok_bind] at hanswer hholdings
  rw [outcome, hadm', ok_bind] at hanswer' hholdings'
  have halike : Alike e (fun h h' => Tables.AgreeAt c (Ident.streamId g) h.tables h'.tables)
      (en.acceptance e claim fun _ => none) (en'.acceptance e claim fun _ => none) :=
    acceptance_alike hst.sound hst'.sound hwf hc hg h _
  constructor
  · rw [hanswer, hanswer']
    exact halike.sameOutcome
  · show Tables.AgreeAt c _ (en.submit e claim).2.holdings.tables
      (en'.submit e claim).2.holdings.tables
    rw [hholdings, hholdings']
    exact halike.agreeAt h.tables.rows

variable {e₁ e₂ : Event} {claim₁ claim₂ : OwnerClaim} {c₁ c₂ g₁ g₂ : String}

theorem Steady.commute_of_refused (hst : en.Steady) (hind : en.Indifferent) {f : Failure}
    (hrefused : en.admission e₁ = .error f) : en.Commute e₁ e₂ claim₁ claim₂ := by
  have hout : ∀ {en' : Engine}, en.SameSetup en' → en'.outcome e₁ claim₁ = .error f := by
    intro en' hsetup
    rw [outcome, admission_congr hsetup, hrefused]
    rfl
  obtain ⟨hanswer₁, hholdings₁⟩ := hst.submit_outcome hind e₁ claim₁
  obtain ⟨hanswer₂, hholdings₂⟩ := hst.submit_outcome hind e₂ claim₂
  obtain ⟨hanswer₁₂, hholdings₁₂⟩ := (hst.submit e₁ claim₁).submit_outcome
    (hst.indifferent_perform hind (.submit e₁ claim₁)) e₂ claim₂
  obtain ⟨hanswer₂₁, hholdings₂₁⟩ := (hst.submit e₂ claim₂).submit_outcome
    (hst.indifferent_perform hind (.submit e₂ claim₂)) e₁ claim₁
  rw [hout (.refl en)] at hanswer₁ hholdings₁
  rw [hout (submit_sameSetup en e₂ claim₂)] at hanswer₂₁ hholdings₂₁
  rw [outcome_congr (submit_sameSetup en e₁ claim₁) (submit_registry en e₁ claim₁) hholdings₁]
    at hanswer₁₂ hholdings₁₂
  have hsame : ((en.submit e₁ claim₁).2.submit e₂ claim₂).2.holdings =
      ((en.submit e₂ claim₂).2.submit e₁ claim₁).2.holdings := by
    rw [hholdings₁₂, hholdings₂₁, hholdings₁]
    exact hholdings₂.symm
  exact ⟨.inl (hanswer₁.trans hanswer₂₁.symm), .inl (hanswer₁₂.trans hanswer₂.symm),
    congrArg Holdings.tables hsame, fun _ => congrArg Holdings.archive hsame⟩

theorem Steady.commute_of_admitted (hst : en.Steady) (hind : en.Indifferent)
    (hadm₁ : en.admission e₁ = .ok e₁) (hadm₂ : en.admission e₂ = .ok e₂)
    (hc₁ : e₁.cid = .str c₁) (hc₂ : e₂.cid = .str c₂) (hg₁ : e₁.genesis = .str g₁)
    (hg₂ : e₂.genesis = .str g₂) (hc : c₁ ≠ c₂)
    (hid : Ident.streamId g₁ ≠ Ident.streamId g₂) : en.Commute e₁ e₂ claim₁ claim₂ := by
  have hgenesis : e₁.genesis ≠ e₂.genesis := by
    rw [hg₁, hg₂]
    exact fun heq => hid (congrArg Ident.streamId (Json.str.inj heq))
  have hst₁ := hst.submit e₁ claim₁
  have hst₂ := hst.submit e₂ claim₂
  -- Either event has behind the other one the outcome that it has before it.
  obtain ⟨hout₁, hat₁⟩ :=
    (hst.sameSight_submit hc₂ hg₂ hc hid hgenesis claim₂).submit hst hst₂ hind
      (hst.indifferent_perform hind (.submit e₂ claim₂)) hadm₁ hc₁ hg₁ claim₁
  obtain ⟨hout₂, hat₂⟩ :=
    (hst.sameSight_submit hc₁ hg₁ hc.symm hid.symm hgenesis.symm claim₁).submit hst hst₁ hind
      (hst.indifferent_perform hind (.submit e₁ claim₁)) hadm₂ hc₂ hg₂ claim₂
  refine ⟨hout₁, hout₂.symm, ?_, fun hapart => ?_⟩
  · exact Tables.eq_of_agree hc hid (hst.agreeOff_submit hc₁ hg₁ claim₁)
      (hst₁.agreeOff_submit hc₂ hg₂ claim₂) (hst.agreeOff_submit hc₂ hg₂ claim₂)
      (hst₂.agreeOff_submit hc₁ hg₁ claim₁) hat₁ hat₂.symm
  · obtain ⟨-, hwf₁, -⟩ := admission_eq_ok hadm₁
    obtain ⟨-, hwf₂, -⟩ := admission_eq_ok hadm₂
    obtain ⟨bs₁, hbs₁, -⟩ := hwf₁.enclosable.exists_envelope
    obtain ⟨bs₂, hbs₂, -⟩ := hwf₂.enclosable.exists_envelope
    have hkeys : en.archive.keyOfText c₁ ≠ en.archive.keyOfText c₂ := fun hkey =>
      hc (hapart.eq_of_key (mem_cidTexts (List.mem_cons_self ..) hc₁)
        (mem_cidTexts (List.mem_cons_of_mem _ (List.mem_cons_self ..)) hc₂) hkey)
    rw [hst₁.archive_submit hc₂ hbs₂, hst.archive_submit hc₁ hbs₁,
      hst₂.archive_submit hc₁ hbs₁, hst.archive_submit hc₂ hbs₂, hout₁.isOk_eq, hout₂.isOk_eq]
    cases (en.submit e₁ claim₁).1.isOk <;> cases (en.submit e₂ claim₂).1.isOk
    · rfl
    · rfl
    · rfl
    · exact Archive.kept_comm hkeys bs₁ bs₂

/-! ## Isolation -/

/-- A submission writes at most under the cid of its event and under the id of its stream. -/
structure Isolated (en : Engine) (e : Event) (claim : OwnerClaim) : Prop where
  events : ∀ k, e.cid.key? ≠ some k →
    (en.submit e claim).2.tables.events.get? k = en.tables.events.get? k
  streams : ∀ k, (∀ id, streamOf e = .ok id → k ≠ .text id) →
    (en.submit e claim).2.tables.streams.get? k = en.tables.streams.get? k
  folders : ∀ k, (∀ id, streamOf e = .ok id → k ≠ .text id) →
    (en.submit e claim).2.tables.folders.get? k = en.tables.folders.get? k

theorem Steady.isolated (hst : en.Steady) (e : Event) (claim : OwnerClaim) :
    en.Isolated e claim := by
  cases hst.commits e claim with
  | failed f d heq =>
      have htables : (en.submit e claim).2.tables = en.tables := by
        rw [heq]
        rfl
      exact ⟨fun _ _ => htables ▸ rfl, fun _ _ => htables ▸ rfl, fun _ _ => htables ▸ rfl⟩
  | answered c g r h d hadm hwf hc hg hres hfiled heq =>
      have hoff := hst.agreeOff_submit hc hg claim
      have hid := hwf.streamOf_eq hg
      refine ⟨fun k hk => hoff.events k ?_, fun k hk => hoff.streams k (hk _ hid),
        fun k hk => hoff.folders k (hk _ hid)⟩
      rintro rfl
      exact hk (by rw [hc]; rfl)

theorem Steady.commute (hst : en.Steady) (hind : en.Indifferent) (hcid : e₁.cid ≠ e₂.cid)
    (hgenesis : e₁.genesis ≠ e₂.genesis)
    (hapart : ∀ g₁ g₂, e₁.genesis = .str g₁ → e₂.genesis = .str g₂ →
      Ident.streamId g₁ = Ident.streamId g₂ → g₁ = g₂) : en.Commute e₁ e₂ claim₁ claim₂ := by
  cases hadm₁ : en.admission e₁ with
  | error f => exact hst.commute_of_refused hind hadm₁
  | ok x₁ =>
      cases hadm₂ : en.admission e₂ with
      | error f => exact (hst.commute_of_refused hind hadm₂).symm
      | ok x₂ =>
          obtain ⟨rfl, hwf₁, -⟩ := admission_eq_ok hadm₁
          obtain ⟨rfl, hwf₂, -⟩ := admission_eq_ok hadm₂
          obtain ⟨c₁, hc₁, -⟩ := hwf₁.cid_text
          obtain ⟨c₂, hc₂, -⟩ := hwf₂.cid_text
          obtain ⟨g₁, hg₁, -⟩ := hwf₁.genesis_text
          obtain ⟨g₂, hg₂, -⟩ := hwf₂.genesis_text
          refine hst.commute_of_admitted hind hadm₁ hadm₂ hc₁ hc₂ hg₁ hg₂ ?_ ?_
          · rintro rfl
            exact hcid (hc₁.trans hc₂.symm)
          · intro hid
            obtain rfl := hapart g₁ g₂ hg₁ hg₂ hid
            exact hgenesis (hg₁.trans hg₂.symm)

/--
In every state that a run reaches, a submission writes only under the cid and the stream of
its event, and events with cids and streams of their own can be submitted in either order.
An engine that holds states needs an extractor that does not tell the written order of the
members: what one stream drives out of it, the other one reads back from its row.
-/
theorem Fresh.streams_isolated (h : en.Fresh) (calls : List Call) :
    (∀ e claim, (en.carryAll calls).2.Isolated e claim) ∧
    ((en.desk.recent ≠ none → en.backend.isRelational = true →
        Index.IgnoresKeyOrder en.extract) →
      ∀ e₁ e₂ claim₁ claim₂, e₁.cid ≠ e₂.cid → e₁.genesis ≠ e₂.genesis →
        (∀ g₁ g₂, e₁.genesis = .str g₁ → e₂.genesis = .str g₂ →
          Ident.streamId g₁ = Ident.streamId g₂ → g₁ = g₂) →
        (en.carryAll calls).2.Commute e₁ e₂ claim₁ claim₂) := by
  have hst := h.steady.carryAll calls
  refine ⟨hst.isolated, fun hextract e₁ e₂ claim₁ claim₂ hcid hgenesis hapart => ?_⟩
  have hind := h.steady.indifferent_carryAll (indifferent_of_extract hextract) calls
  exact hst.commute hind hcid hgenesis hapart

/-- An event whose predecessor is of another stream is refused in either order. -/
theorem streams_isolated_sample :
    let en := sampleEngine .sqlite (some (.empty (.ofNat 1)))
    let second := sampleUpdate "second" "first" 1
    let stray : Event := { sampleUpdate "stray" "second" 2 with genesis := .str "other" }
    let now := (en.carryAll [.op (.submit sampleGenesis sampleOwner)]).2
    now.Isolated stray .none ∧ now.Commute second stray .none .none ∧
      ((now.submit second .none).2.submit stray .none).1.isOk = false ∧
      (now.submit stray .none).1 ≠ ((now.submit second .none).2.submit stray .none).1 := by
  intro en second stray now
  obtain ⟨hisolated, hcommute⟩ := (sampleEngine_fresh .sqlite (.ofNat 1)).streams_isolated
    [.op (.submit sampleGenesis sampleOwner)]
  refine ⟨hisolated stray .none, ?_, by decide +kernel, by decide +kernel⟩
  refine hcommute (fun _ _ => Index.ignoresKeyOrder_ownSignal) second stray .none .none
    (by decide) (by decide) ?_
  rintro g₁ g₂ hg₁ hg₂ hid
  obtain rfl : "first" = g₁ := Json.str.inj hg₁
  obtain rfl : "other" = g₂ := Json.str.inj hg₂
  exact absurd hid (by decide +kernel)

end Engine

end ChainFold
