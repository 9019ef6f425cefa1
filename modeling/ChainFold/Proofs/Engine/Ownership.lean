import ChainFold.Proofs.Engine.Mirroring
import ChainFold.Proofs.Engine.Replay

/-!
# Owners are fixed at creation

The owner, the model and the account of a stream are written once, by the genesis
submission that creates it.  An owner that is not given is looked up in the registry at
that moment, and models that are registered later do not count.
-/

namespace ChainFold

/-- What a row is given when its stream is created. -/
structure Stream.Heading where
  owner : Uuid
  model : Json
  account : Json
  deriving DecidableEq

def Stream.heading (row : Stream) : Stream.Heading := ⟨row.owner, row.model, row.account⟩

/-- The heading of the row under a key. -/
def Tables.heading? (t : Tables) (k : Key) : Option Stream.Heading :=
  (t.streams.get? k).map Stream.heading

theorem Tables.heading?_of_row {t : Tables} {k : Key} {row : Stream}
    (hrow : t.streams.get? k = some row) : t.heading? k = some row.heading :=
  congrArg (Option.map Stream.heading) hrow

theorem Tables.exists_row_of_heading? {t : Tables} {k : Key} {h : Stream.Heading}
    (hk : t.heading? k = some h) : ∃ row, t.streams.get? k = some row ∧ row.heading = h :=
  Option.map_eq_some_iff.mp hk

theorem Tables.heading?_insert {t t' : Tables} {k k' : Key} {row : Stream}
    (hstreams : t'.streams = t.streams.insert k row) :
    t'.heading? k' = if k = k' then some row.heading else t.heading? k' := by
  rw [heading?, hstreams, Table.get?_insert]
  split <;> rfl

namespace Engine

variable {en : Engine} {t t' : Tables} {e : Event} {c g id : String} {claim : OwnerClaim}
  {held : Held} {r : Receipt} {b : Backend} {p : Payload} {k : Key} {owner : Uuid}
  {h : Stream.Heading} {ops : List Operation}

/-! ## The owner that a genesis submission names -/

/-- The owner that is given, or else the owner of the model of the header. -/
def Names (reg : Registry) (p : Payload) : OwnerClaim → Uuid → Prop
  | .uuid u, owner => owner = u
  | .text s, owner => Uuid.read s = .ok owner
  | .none, owner => reg.ownerOf p.model = .ok owner

theorem ownerByModel_eq_ok {reg : Registry} {model : Json}
    (h : ownerByModel reg model = .ok owner) : reg.ownerOf model = .ok owner := by
  unfold ownerByModel at h
  by_cases hmodel : model = .null
  · simp [hmodel] at h
  · rw [if_neg hmodel] at h
    unfold Registry.ownerOf Registry.get
    cases hseek : reg.seek model with
    | error d => simp [hseek] at h
    | ok found =>
        cases found with
        | none => simp [hseek] at h
        | some m => simpa [hseek] using h

theorem names_of_ownerOf {reg : Registry} (hp : e.payload = .ok p)
    (howner : ownerOf reg e claim = .ok owner) : Names reg p claim owner := by
  cases claim with
  | uuid u => exact (Except.ok.inj howner).symm
  | text s =>
      cases hread : Uuid.read s with
      | error f => simp [ownerOf, hread] at howner
      | ok u =>
          simp only [ownerOf, hread, Except.ok.injEq] at howner
          exact howner ▸ hread
  | none =>
      simp only [ownerOf, hp, model_eq_bind] at howner
      exact ownerByModel_eq_ok howner

/-- Without a claim an owner is found only for a model that is registered. -/
theorem has_of_names {reg : Registry} (h : Names reg p .none owner) :
    reg.has p.model = .ok true := by
  unfold Names Registry.ownerOf Registry.get at h
  unfold Registry.has
  cases hseek : reg.seek p.model with
  | error d => simp [hseek] at h
  | ok found =>
      cases found with
      | none => simp [hseek] at h
      | some m => rfl

/-! ## Headings stay -/

/-- A genesis event creates the stream of an id. -/
structure Founds (en : Engine) (e : Event) (claim : OwnerClaim) (id : String) : Prop where
  genesis : e.isGenesis = true
  stream_eq : streamOf e = .ok id
  applied : ∃ r, (en.submit e claim).1 = .ok r ∧ r.status = .applied

/-- Filing an event leaves every heading, but for the one of a stream that it creates. -/
theorem Filed.heading?_eq_or_created (h : Filed b held t e c id t' r) (k : Key) :
    t'.heading? k = t.heading? k ∨ k = .text id ∧ e.prev = .null ∧ r.status = .applied := by
  cases h with
  | duplicate _ _ ht => exact .inl (by rw [ht])
  | beside _ _ _ _ ht => exact .inl (by rw [ht]; rfl)
  | created _ hprev _ _ _ hstreams =>
      by_cases hk : .text id = k
      · exact .inr ⟨hk.symm, hprev, rfl⟩
      · refine .inl ?_
        rw [Tables.heading?_insert hstreams, if_neg hk]
  | advanced _ _ _ _ hrow _ _ _ hstreams =>
      refine .inl ?_
      rw [Tables.heading?_insert hstreams]
      by_cases hk : .text id = k
      · subst hk
        rw [if_pos rfl, Tables.heading?_of_row hrow]
        rfl
      · rw [if_neg hk]

/-- A call leaves every heading, but for the one of a stream that it creates. -/
theorem Steady.heading?_perform (hst : en.Steady) (op : Operation) (k : Key) :
    (en.perform op).2.tables.heading? k = en.tables.heading? k ∨
      ∃ e claim id, op = .submit e claim ∧ k = .text id ∧ en.Founds e claim id := by
  cases op with
  | submit e claim =>
      show (en.submit e claim).2.tables.heading? k = _ ∨ _
      cases hst.commits e claim with
      | failed f d heq =>
          rw [heq]
          exact .inl rfl
      | answered c g r holdings d hadm hwf hc hg hres hfiled heq =>
          rcases hfiled.heading?_eq_or_created k with hkept | ⟨hk, hprev, happlied⟩
          · rw [heq]
            exact .inl hkept
          · refine .inr ⟨e, claim, Ident.streamId g, rfl, hk, ?_⟩
            exact ⟨by simp [hwf.isGenesis_eq, hprev], hwf.streamOf_eq hg, r, by rw [heq], happlied⟩
  | rebuild id =>
      refine .inl ?_
      show (en.rebuild id).2.tables.heading? k = _
      rw [Tables.heading?, (hst.rebuild_tables id).2]
      rfl
  | branch | getStream | getFolder | getEvent | loadEvents | listStreams | findByContent
  | queryBySignal | signals | register => exact .inl rfl

/-- A heading as a genesis submission gives it. -/
structure Heads (reg : Registry) (e : Event) (claim : OwnerClaim) (p : Payload)
    (h : Stream.Heading) : Prop where
  payload_eq : e.payload = .ok p
  owner_eq : Names reg p claim h.owner
  model_eq : h.model = p.model
  account_eq : h.account = p.account

/-- A stream that is created was not there, and gets the heading of its genesis submission. -/
theorem Steady.exists_heads_of_founds (hst : en.Steady) (h : en.Founds e claim id) :
    en.tables.heading? (.text id) = none ∧ ∃ p h,
      (en.submit e claim).2.tables.heading? (.text id) = some h ∧
        Heads en.registry e claim p h := by
  obtain ⟨hgenesis, hstream, r, hr, happlied⟩ := h
  cases hst.commits e claim with
  | failed f d heq =>
      rw [heq] at hr
      cases hr
  | answered c g r' holdings d hadm hwf hc hg hres hfiled heq =>
      rw [heq] at hr ⊢
      obtain rfl := Except.ok.inj hr
      obtain rfl : Ident.streamId g = id := Except.ok.inj ((hwf.streamOf_eq hg).symm.trans hstream)
      have hruling := ruling_of_acceptance (hwf.streamOf_eq hg) hres
      have hprev : e.prev = .null := by simpa [hwf.isGenesis_eq] using hgenesis
      cases hfiled with
      | duplicate => cases happlied
      | beside => cases happlied
      | advanced _ hparent hprev' =>
          obtain ⟨c', hc'⟩ := hst.sound.binding.text _ hparent
          rw [hprev, hc'] at hprev'
          cases hprev'
      | created hnew _ hrow =>
          rw [ruling_of_null hwf hc hnew hprev] at hruling
          obtain ⟨owner, howner, hcreated⟩ := bind_eq_ok.mp hruling
          obtain ⟨s, signal, hstate, -, -, -, ht⟩ :=
            Resolution.exists_of_creation hwf hc hnew hrow hcreated
          obtain ⟨p, hp, hmodel, haccount⟩ := Fold.State.header_of_ofGenesis hstate
          have hstreams : holdings.tables.streams = en.tables.streams.insert
              (.text (Ident.streamId g))
              (Resolution.firstRow en.backend (Ident.streamId g) owner s) := by rw [ht]; rfl
          refine ⟨by rw [Tables.heading?, hrow]; rfl, p, ⟨owner, s.model, s.account⟩, ?_, ?_⟩
          · show holdings.tables.heading? _ = _
            rw [Tables.heading?_insert hstreams, if_pos rfl]
            rfl
          · exact ⟨hp, names_of_ownerOf hp howner, hmodel, haccount⟩

theorem Steady.heading?_after (hst : en.Steady) (hk : en.tables.heading? k = some h)
    (ops : List Operation) : (en.after ops).tables.heading? k = some h := by
  induction ops generalizing en with
  | nil => exact hk
  | cons op rest ih =>
      refine ih (hst.perform op) ?_
      rcases hst.heading?_perform op k with hkept | ⟨e, claim, id, -, rfl, hfounds⟩
      · exact hkept.trans hk
      · obtain ⟨hnone, -⟩ := hst.exists_heads_of_founds hfounds
        cases hk.symm.trans hnone

/-! ## Foundings -/

/-- The submission in a run that creates the stream of an id. -/
@[ext]
structure Founding (en : Engine) (ops : List Operation) (id : String) where
  before : List Operation
  event : Event
  claim : OwnerClaim
  later : List Operation
  split_eq : ops = before ++ .submit event claim :: later
  founds : (en.after before).Founds event claim id

namespace Founding

/-- The engine that the submission meets. -/
def moment (f : en.Founding ops id) : Engine := en.after f.before

/-- A run that goes on after a first call founds what it founded. -/
def cons {op : Operation} (f : (en.perform op).2.Founding ops id) :
    en.Founding (op :: ops) id where
  before := op :: f.before
  event := f.event
  claim := f.claim
  later := f.later
  split_eq := congrArg (op :: ·) f.split_eq
  founds := f.founds

theorem moment_steady (hst : en.Steady) (f : en.Founding ops id) : f.moment.Steady :=
  hst.after f.before

theorem after_eq (f : en.Founding ops id) :
    en.after ops = (f.moment.submit f.event f.claim).2.after f.later :=
  (congrArg en.after f.split_eq).trans (after_append en f.before _)

/-- From its founding on a stream has the heading that was given to it. -/
theorem exists_heads (hst : en.Steady) (f : en.Founding ops id) : ∃ p h,
    (en.after ops).tables.heading? (.text id) = some h ∧
      Heads f.moment.registry f.event f.claim p h := by
  obtain ⟨-, p, h, hh, hheads⟩ := (f.moment_steady hst).exists_heads_of_founds f.founds
  refine ⟨p, h, ?_, hheads⟩
  rw [f.after_eq]
  exact ((f.moment_steady hst).submit _ _).heading?_after hh f.later

theorem not_later (hst : en.Steady) {ops' : List Operation} (f : en.Founding ops id)
    (f' : en.Founding ops' id) (between : List Operation)
    (hbefore : f'.before = f.before ++ .submit f.event f.claim :: between) : False := by
  let whole : en.Founding f'.before id := ⟨f.before, f.event, f.claim, between, hbefore, f.founds⟩
  obtain ⟨p, h, hh, -⟩ := whole.exists_heads hst
  obtain ⟨hnone, -⟩ := (f'.moment_steady hst).exists_heads_of_founds f'.founds
  cases hh.symm.trans hnone

theorem eq (hst : en.Steady) (f f' : en.Founding ops id) : f = f' := by
  have hsplit := f.split_eq.symm.trans f'.split_eq
  rcases List.append_eq_append_iff.mp hsplit with
    ⟨between, hbefore, hlater⟩ | ⟨between, hbefore, hlater⟩
  · cases between with
    | nil =>
        obtain ⟨hop, hrest⟩ := List.cons.inj hlater
        obtain ⟨hevent, hclaim⟩ := Operation.submit.inj hop
        exact Founding.ext (by simpa using hbefore.symm) hevent hclaim hrest
    | cons op between =>
        obtain ⟨rfl, -⟩ := List.cons.inj hlater
        exact absurd hbefore fun h => f.not_later hst f' between h
  · cases between with
    | nil =>
        obtain ⟨hop, hrest⟩ := List.cons.inj hlater
        obtain ⟨hevent, hclaim⟩ := Operation.submit.inj hop
        exact Founding.ext (by simpa using hbefore) hevent.symm hclaim.symm hrest.symm
    | cons op between =>
        obtain ⟨rfl, -⟩ := List.cons.inj hlater
        exact absurd hbefore fun h => f'.not_later hst f between h

end Founding

/-- A heading was there before a run, or its stream was founded in it. -/
theorem Steady.heading?_or_founding (hst : en.Steady)
    (hk : (en.after ops).tables.heading? k = some h) :
    en.tables.heading? k = some h ∨ ∃ id, k = .text id ∧ Nonempty (en.Founding ops id) := by
  induction ops generalizing en with
  | nil => exact .inl hk
  | cons op rest ih =>
      rcases ih (hst.perform op) hk with hbefore | ⟨id, hid, ⟨f⟩⟩
      · rcases hst.heading?_perform op k with hkept | ⟨e, claim, id, rfl, rfl, hfounds⟩
        · exact .inl (hkept.symm.trans hbefore)
        · exact .inr ⟨id, rfl, ⟨⟨[], e, claim, rest, rfl, hfounds⟩⟩⟩
      · exact .inr ⟨id, hid, ⟨f.cons⟩⟩

/-! ## Submissions without an owner -/

/-- A genesis event that is answered and was not stored has an owner. -/
theorem exists_ownerOf_of_ruling (hwf : e.WellFormed) (hc : e.cid = .str c)
    (hnew : t.events.get? (.text c) = none) (hprev : e.prev = .null) {stream : Json}
    (h : en.ruling t e stream claim held = .ok (r, t')) :
    ∃ owner, ownerOf en.registry e claim = .ok owner := by
  rw [ruling_of_null hwf hc hnew hprev] at h
  obtain ⟨owner, howner, -⟩ := bind_eq_ok.mp h
  exact ⟨owner, howner⟩

/-- Without a claim and a registered model nothing is stored, and nothing new is answered. -/
theorem Steady.submit_unowned (hst : en.Steady) (hgenesis : e.isGenesis = true)
    (hmodel : ∀ p, e.payload = .ok p → en.registry.has p.model ≠ .ok true) :
    (en.submit e .none).2.tables = en.tables ∧
      ∀ r, (en.submit e .none).1 = .ok r → r.status = .duplicate := by
  cases hst.commits e .none with
  | failed f d heq =>
      rw [heq]
      exact ⟨rfl, by simp⟩
  | answered c g r holdings d hadm hwf hc hg hres hfiled heq =>
      have hprev : e.prev = .null := by simpa [hwf.isGenesis_eq] using hgenesis
      rcases hfiled.duplicate_or_new with ⟨hstatus, -, ht⟩ | ⟨-, hnew, -⟩
      · rw [heq]
        refine ⟨ht, ?_⟩
        intro r' hr'
        exact Except.ok.inj hr' ▸ hstatus
      · obtain ⟨-, -, p, hp⟩ := admission_eq_ok hadm
        obtain ⟨owner, howner⟩ := exists_ownerOf_of_ruling hwf hc hnew hprev
          (ruling_of_acceptance (hwf.streamOf_eq hg) hres)
        exact absurd (has_of_names (names_of_ownerOf hp howner)) (hmodel p hp)

/-! ## Runs -/

/-- What holds of owners, models and accounts after a run. -/
structure Attributed (en : Engine) (ops : List Operation) : Prop where
  founded : ∀ k row, (en.after ops).tables.streams.get? k = some row →
    ∃ id, k = .text id ∧ row.id = .str id ∧ Nonempty (en.Founding ops id)
  founded_once : ∀ id (f f' : en.Founding ops id), f = f'
  /-- The row is attributed by the founding, with the registry as it was then. -/
  attributed : ∀ id (f : en.Founding ops id), ∃ row p,
    (en.after ops).tables.streams.get? (.text id) = some row ∧ f.event.payload = .ok p ∧
      Names f.moment.registry p f.claim row.owner ∧ row.model = p.model ∧ row.account = p.account
  /-- Whatever is called later, the row is there with the same three. -/
  kept : ∀ k row more, (en.after ops).tables.streams.get? k = some row → ∃ row',
    (en.after (ops ++ more)).tables.streams.get? k = some row' ∧ row'.owner = row.owner ∧
      row'.model = row.model ∧ row'.account = row.account
  unowned : ∀ e, e.isGenesis = true →
    (∀ p, e.payload = .ok p → (en.after ops).registry.has p.model ≠ .ok true) →
      ((en.after ops).submit e .none).2.tables = (en.after ops).tables ∧
        ∀ r, ((en.after ops).submit e .none).1 = .ok r → r.status = .duplicate

/--
In every run over an empty store the owner of a stream is the one that its genesis submission
named, or else the one that its model had at that moment; model and account are those of the
header, and no later call changes any of them.
-/
theorem Fresh.ownership_fixed (h : en.Fresh) (ops : List Operation) : en.Attributed ops := by
  have hst := h.steady
  constructor
  case founded =>
    intro k row hrow
    obtain ⟨id, hk, hid⟩ := (hst.after ops).sound.streamsNamed k row hrow
    rcases hst.heading?_or_founding (Tables.heading?_of_row hrow) with hstart | ⟨id', hk', hf⟩
    · simp [Tables.heading?, h.tables_eq, Tables.empty] at hstart
    · obtain rfl : id = id' := Key.text.inj (hk.symm.trans hk')
      exact ⟨id, hk, hid, hf⟩
  case founded_once => exact fun id f f' => f.eq hst f'
  case attributed =>
    intro id f
    obtain ⟨p, heading, hh, hheads⟩ := f.exists_heads hst
    obtain ⟨row, hrow, rfl⟩ := Tables.exists_row_of_heading? hh
    exact ⟨row, p, hrow, hheads.payload_eq, hheads.owner_eq, hheads.model_eq, hheads.account_eq⟩
  case kept =>
    intro k row more hrow
    have hlater := (hst.after ops).heading?_after (Tables.heading?_of_row hrow) more
    rw [← after_append] at hlater
    obtain ⟨row', hrow', heading⟩ := Tables.exists_row_of_heading? hlater
    obtain ⟨howner, hmodel, haccount⟩ := Stream.Heading.mk.inj heading
    exact ⟨row', hrow', howner, hmodel, haccount⟩
  case unowned => exact fun e hgenesis hmodel => (hst.after ops).submit_unowned hgenesis hmodel

/-- A first event whose header names a model and a controller. -/
def sampleHeaded : Event :=
  ⟨"first", .null, "first", [.bytes ((Payload.encode (.obj [("n", .int 0)]) "notes"
    (.arr ["ann", "bob"])).toOption.getD [])]⟩

/-- A stream stays with the first owner of its model after the model has got another one. -/
theorem ownership_fixed_sample :
    let model (owner : Uuid) : Model := ⟨"notes", "notes", owner, [], 0⟩
    let ops := [.register (model ⟨1, by decide⟩), .submit sampleHeaded .none,
      .register (model ⟨2, by decide⟩), .submit sampleHeaded (.uuid ⟨3, by decide⟩),
      .submit (sampleUpdate "second" "first" 1) .none, .rebuild (Ident.streamId "first")]
    let en := sampleEngine .sqlite (some (.empty (.ofNat 1)))
    en.Attributed ops ∧ (en.after ops).tables.heading? (.text (Ident.streamId "first")) =
      some ⟨⟨1, by decide⟩, "notes", "ann"⟩ := by
  intro model ops en
  have hattributed : en.Attributed ops :=
    (sampleEngine_fresh .sqlite (.ofNat 1)).ownership_fixed ops
  exact ⟨hattributed, by decide +kernel⟩

end Engine

end ChainFold
