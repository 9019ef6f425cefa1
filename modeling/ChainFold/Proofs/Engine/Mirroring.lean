import ChainFold.Proofs.Archive
import ChainFold.Proofs.Engine.Provenance
import ChainFold.Proofs.Event.Envelope

/-!
# The archive mirrors the tables

Archiving cannot be undone, and what is once in an archive stays.  Still an archive that
is filled by submissions alone holds, under every cid, the envelope of the event that is
stored under it, and nothing else: an event is archived only once it is filed, and a
cid that has been filed is answered with the same event from then on.  So an event can
be served from the archive when the tables are lost.
-/

namespace ChainFold

/-- An archive holds the envelope of an event under a cid. -/
def Archive.Encloses (a : Archive) (c : String) (e : Event) : Prop :=
  e.Enclosable ∧ ∃ bs, e.envelope = .ok bs ∧ a.get (.str c) = .ok (some bs)

theorem Archive.Encloses.getEvent_eq {a : Archive} {c : String} {e : Event}
    (h : a.Encloses c e) : a.getEvent (.str c) = .ok (some e) := by
  obtain ⟨henclosable, bs, hbs, hget⟩ := h
  obtain ⟨bs', hbs', hread⟩ := henclosable.exists_envelope
  obtain rfl := Except.ok.inj (hbs.symm.trans hbs')
  rw [Archive.getEvent, hget, ok_bind]
  simp [hread]

namespace Engine

variable {en : Engine} {t t' : Tables} {e x : Event} {c c' id : String} {claim : OwnerClaim}
  {held : Held} {r : Receipt} {b : Backend}

/-! ## What is filed -/

/-- The event of a call that is answered as applied or as stored beside the tip. -/
def filed (en : Engine) : Operation → List Event
  | .submit e claim =>
    match (en.submit e claim).1 with
    | .ok r => if r.status = .applied ∨ r.status = .notApplied then [e] else []
    | .error _ => []
  | _ => []

/-- The events of a run that are answered as applied or as stored beside the tip. -/
def filedIn (en : Engine) : List Operation → List Event
  | [] => []
  | op :: rest => en.filed op ++ (en.perform op).2.filedIn rest

/-- What an answer says of the tables: the event was there, or it is new and is there now. -/
theorem Filed.duplicate_or_new (h : Filed b held t e c id t' r) :
    (r.status = .duplicate ∧ t.events.get? (.text c) = some e ∧ t' = t) ∨
      ((r.status = .applied ∨ r.status = .notApplied) ∧ t.events.get? (.text c) = none ∧
        t'.events = t.events.insert (.text c) e) := by
  cases h with
  | duplicate hstored _ ht => exact .inl ⟨rfl, hstored, ht⟩
  | created hnew _ _ _ hevents _ => exact .inr ⟨.inl rfl, hnew, hevents⟩
  | beside hnew _ _ _ ht => exact .inr ⟨.inr rfl, hnew, ht ▸ rfl⟩
  | advanced hnew _ _ _ _ _ _ hevents _ => exact .inr ⟨.inl rfl, hnew, hevents⟩

/-- An event is stored after a call if it was stored before or is filed by the call. -/
theorem Steady.stores_perform_iff (hst : en.Steady) (op : Operation) (x : Event) :
    (en.perform op).2.tables.Stores x ↔ x ∈ en.filed op ∨ en.tables.Stores x := by
  cases op with
  | submit e claim =>
      show (en.submit e claim).2.tables.Stores x ↔ _
      cases hst.commits e claim with
      | failed f d heq =>
          have hnone : en.filed (.submit e claim) = [] := by rw [filed, heq]
          rw [hnone, heq]
          simp [Engine.tables]
      | answered c g r h d hadm hwf hc hg hres hfiled heq =>
          rcases hfiled.duplicate_or_new with ⟨hstatus, -, ht⟩ | ⟨hstatus, hnew, hevents⟩
          · have hnone : en.filed (.submit e claim) = [] := by simp [filed, heq, hstatus]
            rw [hnone, heq]
            show h.tables.Stores x ↔ _
            rw [ht]
            simp
          · have hone : en.filed (.submit e claim) = [e] := by simp [filed, heq, hstatus]
            rw [hone, heq, List.mem_singleton]
            exact stores_insert_iff hnew hevents x
  | rebuild id =>
      have hstores := Tables.stores_of_events_eq (hst.rebuild_tables id).1
      show (en.rebuild id).2.tables.Stores x ↔ _
      rw [hstores]
      simp [filed]
  | branch | getStream | getFolder | getEvent | loadEvents | listStreams | findByContent
  | queryBySignal | signals | register =>
      show en.tables.Stores x ↔ _
      simp [filed]

/-- In a run that starts from an empty store exactly the events that were filed are stored. -/
theorem Fresh.stores_iff (h : en.Fresh) (ops : List Operation) (x : Event) :
    (en.after ops).tables.Stores x ↔ x ∈ en.filedIn ops := by
  have hrun : ∀ (ops : List Operation) (en : Engine), en.Steady →
      ((en.after ops).tables.Stores x ↔ x ∈ en.filedIn ops ∨ en.tables.Stores x) := by
    intro ops
    induction ops with
    | nil => exact fun en _ => by simp [after, filedIn]
    | cons op rest ih =>
        intro en hst
        rw [after, ih _ (hst.perform op), hst.stores_perform_iff op x, filedIn, List.mem_append]
        tauto
  rw [hrun ops en h.steady]
  simp [h.not_stores x]

/-! ## One cid -/

/-- Under a cid the archive holds the envelope of the stored event, or nothing if there is none. -/
structure Mirrors (en : Engine) (c : String) : Prop where
  kept : ∀ e, en.tables.events.get? (.text c) = some e →
    ∃ bs, e.envelope = .ok bs ∧ en.archive.get (.str c) = .ok (some bs)
  missing : en.tables.events.get? (.text c) = none → en.archive.get (.str c) = .ok none

theorem Mirrors.of_eq {en' : Engine} (h : en.Mirrors c)
    (hevents : en'.tables.events = en.tables.events) (harchive : en'.archive = en.archive) :
    en'.Mirrors c := by
  constructor
  · rw [hevents, harchive]
    exact h.kept
  · rw [hevents, harchive]
    exact h.missing

/-- Filing an event under a cid keeps the mirror there: the first event that comes stays. -/
theorem Mirrors.of_filed (hm : en.Mirrors c) {bs : Bytes} {written : Bool} {h : Holdings}
    (hfiled : Filed b held en.tables e c id h.tables r) (hbs : e.envelope = .ok bs)
    (hput : en.archive.put (.str c) bs = .ok (written, h.archive)) (d : Desk) :
    ({ en with desk := d }.withHoldings h).Mirrors c := by
  rcases hfiled.duplicate_or_new with ⟨-, hstored, ht⟩ | ⟨-, hnew, hevents⟩
  · obtain ⟨bs₀, -, hget⟩ := hm.kept e hstored
    exact hm.of_eq (congrArg Tables.events ht) (Archive.put_of_some hget hput)
  · have hget := Archive.get_put_of_none (hm.missing hnew) hput
    have hstored : h.tables.events.get? (.text c) = some e := by
      rw [hevents, Table.get?_insert_self]
    constructor
    · intro x hx
      obtain rfl := Option.some.inj (hstored.symm.trans hx)
      exact ⟨bs, hbs, hget⟩
    · intro hnone
      cases hstored.symm.trans hnone

theorem Mirrors.of_filed_of_ne (hm : en.Mirrors c') {bs : Bytes} {written : Bool} {h : Holdings}
    (hfiled : Filed b held en.tables e c id h.tables r)
    (hput : en.archive.put (.str c) bs = .ok (written, h.archive)) (hne : c ≠ c')
    (hkey : en.archive.keyOfText c ≠ en.archive.keyOfText c') (d : Desk) :
    ({ en with desk := d }.withHoldings h).Mirrors c' := by
  have hevents : h.tables.events.get? (.text c') = en.tables.events.get? (.text c') := by
    rcases hfiled.duplicate_or_new with ⟨-, -, ht⟩ | ⟨-, -, hevents⟩
    · rw [ht]
    · rw [hevents, Table.get?_insert_of_ne fun heq => hne (Key.text.inj heq)]
  have harchive := Archive.get_put_of_ne hkey hput
  constructor
  · show ∀ x, h.tables.events.get? (.text c') = some x →
      ∃ bs, x.envelope = .ok bs ∧ h.archive.get (.str c') = .ok (some bs)
    rw [hevents, harchive]
    exact hm.kept
  · show h.tables.events.get? (.text c') = none → h.archive.get (.str c') = .ok none
    rw [hevents, harchive]
    exact hm.missing

/-! ## Every cid that is used -/

/-- The texts among the cids of events. -/
def cidTexts (es : List Event) : List String := es.filterMap (·.cid.text?)

theorem mem_cidTexts {es : List Event} (he : e ∈ es) (hc : e.cid = .str c) : c ∈ cidTexts es :=
  List.mem_filterMap.mpr ⟨e, he, by rw [hc]; rfl⟩

/-- The archive mirrors the tables under the cids of a list, and tells them apart. -/
structure MirrorsAll (en : Engine) (cids : List String) : Prop where
  apart : en.archive.TellsApart cids
  mirrors : ∀ c ∈ cids, en.Mirrors c

theorem MirrorsAll.of_eq {en' : Engine} {cids : List String} (h : en.MirrorsAll cids)
    (hevents : en'.tables.events = en.tables.events) (harchive : en'.archive = en.archive) :
    en'.MirrorsAll cids :=
  ⟨harchive ▸ h.apart, fun c hc => (h.mirrors c hc).of_eq hevents harchive⟩

theorem Steady.mirrorsAll_submit (hst : en.Steady) {cids : List String} (h : en.MirrorsAll cids)
    (e : Event) (claim : OwnerClaim) (he : ∀ c, e.cid = .str c → c ∈ cids) :
    (en.submit e claim).2.MirrorsAll cids := by
  cases hst.commits e claim with
  | failed f d heq =>
      rw [heq]
      exact h.of_eq rfl rfl
  | answered c g r holdings d hadm hwf hc hg hres hfiled heq =>
      rw [heq]
      obtain ⟨bs, written, hbs, hput⟩ := exists_put_of_acceptance hres
      rw [hc] at hput
      refine ⟨(Archive.tellsApart_put hput).symm ▸ h.apart, fun c' hc' => ?_⟩
      by_cases hsame : c = c'
      · subst hsame
        exact (h.mirrors c hc').of_filed hfiled hbs hput d
      · have hkey : en.archive.keyOfText c ≠ en.archive.keyOfText c' :=
          fun heq => hsame (h.apart.eq_of_key (he c hc) hc' heq)
        exact (h.mirrors c' hc').of_filed_of_ne hfiled hput hsame hkey d

theorem Steady.mirrorsAll_perform (hst : en.Steady) {cids : List String}
    (h : en.MirrorsAll cids) (op : Operation) (hcids : cidTexts (submitted [op]) ⊆ cids) :
    (en.perform op).2.MirrorsAll cids := by
  cases op with
  | submit e claim =>
      exact hst.mirrorsAll_submit h e claim fun c hc =>
        hcids (mem_cidTexts (List.mem_singleton.mpr rfl) hc)
  | rebuild id => exact h.of_eq (hst.rebuild_tables id).1 (hst.rebuild_archive id)
  | branch | getStream | getFolder | getEvent | loadEvents | listStreams | findByContent
  | queryBySignal | signals | register => exact h.of_eq rfl rfl

/-- In every run the archive mirrors the tables under the cids that are used. -/
theorem Steady.mirrorsAll_after (hst : en.Steady) {cids : List String} (h : en.MirrorsAll cids)
    (ops : List Operation) (hcids : cidTexts (submitted ops) ⊆ cids) :
    (en.after ops).MirrorsAll cids := by
  induction ops generalizing en with
  | nil => exact h
  | cons op rest ih =>
      rw [submitted_cons, cidTexts, List.filterMap_append] at hcids
      obtain ⟨hop, hrest⟩ := List.append_subset.mp hcids
      exact ih (hst.perform op) (hst.mirrorsAll_perform h op hop) hrest

theorem Fresh.mirrorsAll (h : en.Fresh) (hempty : en.archive.IsEmpty) {cids : List String}
    (hapart : en.archive.TellsApart cids) : en.MirrorsAll cids := by
  refine ⟨hapart, fun c _ => ⟨?_, fun _ => hempty.get_eq c⟩⟩
  intro e he
  exact absurd ⟨_, he⟩ (h.not_stores e)

/-! ## Events that are asked for -/

/-- What an engine answers for a cid if some events are all that it knows. -/
structure Serves (en : Engine) (c : String) (es : List Event) : Prop where
  event : ∀ e ∈ es, e.cid = .str c → (en.getEvent (.str c)).1 = .ok e
  nothing : (∀ e ∈ es, e.cid ≠ .str c) →
    (en.getEvent (.str c)).1 = .error (.eventNotFound (.str c) .null)

/-- Where the archive mirrors sound tables, the tables hold an event if the archive encloses it. -/
theorem Mirrors.event?_iff (hm : en.Mirrors c) (hs : en.tables.Sound en.backend) (e : Event) :
    en.tables.event? en.backend (.str c) = .ok (some e) ↔ en.archive.Encloses c e := by
  rw [Tables.event?_text]
  constructor
  · intro h
    have hstored := Except.ok.inj h
    exact ⟨(hs.wellFormed _ e hstored).enclosable, hm.kept e hstored⟩
  · rintro ⟨henclosable, bs, hbs, hget⟩
    cases hstored : en.tables.events.get? (.text c) with
    | none => cases (hm.missing hstored).symm.trans hget
    | some e₀ =>
        obtain ⟨bs₀, hbs₀, hget₀⟩ := hm.kept e₀ hstored
        obtain rfl := Option.some.inj (Except.ok.inj (hget₀.symm.trans hget))
        rw [(hs.wellFormed _ e₀ hstored).enclosable.eq_of_envelope henclosable hbs₀ hbs]

theorem getEvent_of_stored (hopen : en.checkOpen = .ok ())
    (h : en.tables.events.get? (.text c) = some e) : (en.getEvent (.str c)).1 = .ok e := by
  rw [getEvent_eq, eventFound, hopen, ok_bind, Tables.event?_text, h]
  rfl

theorem getEvent_of_archived (hopen : en.checkOpen = .ok ())
    (hnone : en.tables.events.get? (.text c) = none)
    (h : en.archive.getEvent (.str c) = .ok (some e)) : (en.getEvent (.str c)).1 = .ok e := by
  rw [getEvent_eq, eventFound, hopen, ok_bind, Tables.event?_text, hnone, ok_bind, h]
  rfl

theorem getEvent_of_missing (hopen : en.checkOpen = .ok ())
    (hnone : en.tables.events.get? (.text c) = none) (h : en.archive.get (.str c) = .ok none) :
    (en.getEvent (.str c)).1 = .error (.eventNotFound (.str c) .null) := by
  have harchive : en.archive.getEvent (.str c) = .ok none := by
    rw [Archive.getEvent, h]
    rfl
  rw [getEvent_eq, eventFound, hopen, ok_bind, Tables.event?_text, hnone, ok_bind, harchive]
  rfl

/-- Where the archive mirrors sound tables, an engine serves what it has stored. -/
theorem Mirrors.serves (hm : en.Mirrors c) (hs : en.tables.Sound en.backend)
    (hopen : en.checkOpen = .ok ()) {es : List Event}
    (hes : ∀ x, en.tables.Stores x ↔ x ∈ es) : en.Serves c es := by
  constructor
  · intro e he hc
    exact getEvent_of_stored hopen (hs.get?_of_stores ((hes e).mpr he) hc)
  · intro hne
    have hnone : en.tables.events.get? (.text c) = none := by
      cases hstored : en.tables.events.get? (.text c) with
      | none => rfl
      | some e => exact absurd (hs.cid_of_get? hstored) (hne e ((hes e).mp ⟨_, hstored⟩))
    exact getEvent_of_missing hopen hnone (hm.missing hnone)

/-- An engine over empty tables serves from the archive what the tables held that it mirrors. -/
theorem Mirrors.serves_emptied (hm : en.Mirrors c) (hs : en.tables.Sound en.backend)
    {es : List Event} (hes : ∀ x, en.tables.Stores x ↔ x ∈ es) {en' : Engine}
    (hopen : en'.checkOpen = .ok ()) (hempty : en'.tables = .empty)
    (harchive : en'.archive = en.archive) : en'.Serves c es := by
  have hnone : en'.tables.events.get? (.text c) = none := by
    rw [hempty]
    rfl
  constructor
  · intro e he hc
    have hstored := hs.get?_of_stores ((hes e).mpr he) hc
    have hencloses : en.archive.Encloses c e :=
      (hm.event?_iff hs e).mp (by rw [Tables.event?_text, hstored])
    exact getEvent_of_archived hopen hnone (harchive ▸ hencloses.getEvent_eq)
  · intro hne
    refine getEvent_of_missing hopen hnone (harchive ▸ hm.missing ?_)
    cases hstored : en.tables.events.get? (.text c) with
    | none => rfl
    | some e => exact absurd (hs.cid_of_get? hstored) (hne e ((hes e).mp ⟨_, hstored⟩))

theorem checkOpen_after (hopen : en.checkOpen = .ok ()) (ops : List Operation) :
    (en.after ops).checkOpen = .ok () := by
  have hsetup := after_sameSetup en ops
  have hbackend : (en.after ops).store.backend = en.store.backend := hsetup.backend_eq
  rw [checkOpen, hsetup.isOpen_eq, backend, hbackend]
  exact hopen

/--
An archive that was empty when the store was holds under a cid the envelope of the event that
is stored under it, whatever has been called.  So exactly the events that were answered as
applied, or as stored beside a tip, are served, and still are by an engine whose tables are
empty.
-/
theorem Fresh.archive_mirrors (h : en.Fresh) (hopen : en.checkOpen = .ok ())
    (hempty : en.archive.IsEmpty) (ops : List Operation) (c : String)
    (hapart : en.archive.TellsApart (c :: cidTexts (submitted ops))) :
    (∀ e, (en.after ops).tables.event? en.backend (.str c) = .ok (some e) ↔
      (en.after ops).archive.Encloses c e) ∧
    (en.after ops).Serves c (en.filedIn ops) ∧
    ∀ en' : Engine, en'.checkOpen = .ok () → en'.tables = .empty →
      en'.archive = (en.after ops).archive → en'.Serves c (en.filedIn ops) := by
  have hst := h.steady.after ops
  have hmirrors := (h.steady.mirrorsAll_after (h.mirrorsAll hempty hapart) ops
    (List.subset_cons_self c _)).mirrors c List.mem_cons_self
  have hbackend : en.backend = (en.after ops).backend := (after_sameSetup en ops).backend_eq.symm
  refine ⟨?_, hmirrors.serves hst.sound (checkOpen_after hopen ops) (h.stores_iff ops), ?_⟩
  · rw [hbackend]
    exact hmirrors.event?_iff hst.sound
  · intro en' hopen' hempty' harchive
    exact hmirrors.serves_emptied hst.sound (h.stores_iff ops) hopen' hempty' harchive

/-- An engine of a small run, over empty tables and an archive. -/
def sampleOver (b : Backend) (a : Archive) : Engine := { sampleEngine b none with archive := a }

theorem sampleOver_archive (b : Backend) (a : Archive) : (sampleOver b a).archive = a := rfl

theorem sampleOver_fresh (b : Backend) (a : Archive) : (sampleOver b a).Fresh :=
  ⟨rfl, fun recent hrecent => by cases hrecent⟩

/-- A small run: an event, its successor twice, and a rival that comes too late. -/
def sampleRivals : List Operation :=
  [.submit sampleGenesis sampleOwner, .submit (sampleUpdate "second" "first" 1) .none,
    .submit (sampleUpdate "second" "first" 1) .none,
    .submit (sampleUpdate "late" "first" 3) .none,
    .submit (sampleUpdate "late" "second" 4) .none]

/-- An event that was stored beside the tip, and refused with other bytes, is served from files. -/
theorem archive_mirrors_sample :
    let en := sampleOver .sqlite (.below "archive" true)
    let late := sampleUpdate "late" "first" 3
    en.filedIn sampleRivals = [sampleGenesis, sampleUpdate "second" "first" 1, late] ∧
      (en.after sampleRivals).archive.Encloses "late" late ∧
      ((sampleOver .memory (en.after sampleRivals).archive).getEvent (.str "late")).1 =
        .ok late := by
  intro en late
  have hfiled : en.filedIn sampleRivals =
      [sampleGenesis, sampleUpdate "second" "first" 1, late] := by
    decide +kernel
  have hfresh : en.Fresh := sampleOver_fresh _ _
  have hapart : en.archive.TellsApart ("late" :: cidTexts (submitted sampleRivals)) := by
    show Archive.DigestsApart _
    unfold Archive.DigestsApart
    decide +kernel
  obtain ⟨hiff, -, hbare⟩ := hfresh.archive_mirrors rfl rfl sampleRivals "late" hapart
  have hlate : late ∈ en.filedIn sampleRivals := by
    rw [hfiled]
    simp
  refine ⟨hfiled, (hiff late).mp (by decide +kernel), ?_⟩
  exact (hbare (sampleOver .memory (en.after sampleRivals).archive) rfl rfl
    (sampleOver_archive .memory _)).event late hlate rfl

end Engine

end ChainFold
