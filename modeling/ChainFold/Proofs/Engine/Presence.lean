import ChainFold.Proofs.Engine.Permanence
import ChainFold.Proofs.Engine.Refusals
import ChainFold.Proofs.Engine.Staleness
import ChainFold.Proofs.Text.Codes

/-!
# The shape of an id hides no stream

A stream is looked up only under a text that has the shape of a stream id.  Every id that
is derived from a genesis cid has that shape, and rows are kept under such ids alone, so in
every run the check changes nothing: a call reports that a stream is not there exactly if no
row has the id, as it would without the check.
-/

namespace ChainFold

/-! ## Ids of streams -/

namespace Ident

theorem streamIdOf_text {g : String} (h : g ≠ "") : streamIdOf (.str g) = .ok (streamId g) := by
  have hpresent : (Json.str g).isPresent = true := by simpa [Json.isPresent] using h
  simp [streamIdOf, hpresent]

theorem eq_streamId_of_text {g id : String} (h : streamIdOf (.str g) = .ok id) :
    id = streamId g := by
  by_cases hg : g = ""
  · subst hg
    cases h
  · rw [streamIdOf_text hg] at h
    exact (Except.ok.inj h).symm

theorem digest_eq_of_streamId_eq {g g' : String} (h : streamId g = streamId g') :
    Digest.sha256Text g = Digest.sha256Text g' := by
  obtain ⟨-, hcode⟩ := List.cons.inj (String.ofList_injective h)
  exact Text.Base32.encode_injective hcode

end Ident

/-! ## Rows and folders -/

namespace Tables

def HasStream (t : Tables) (id : String) : Prop :=
  ∃ k row, t.streams.get? k = some row ∧ row.id = .str id

/-- Rows and folders are kept under the same keys. -/
def Twinned (t : Tables) : Prop :=
  ∀ k, (∃ f, t.folders.get? k = some f) ↔ ∃ row, t.streams.get? k = some row

variable {b : Backend} {t t' : Tables} {id : String}

theorem StreamsNamed.hasStream_iff (h : t.StreamsNamed) (id : String) :
    t.HasStream id ↔ ∃ row, t.streams.get? (.text id) = some row := by
  constructor
  · rintro ⟨k, row, hrow, hid⟩
    obtain ⟨x, rfl, hx⟩ := h k row hrow
    obtain rfl := Json.str.inj (hid.symm.trans hx)
    exact ⟨row, hrow⟩
  · rintro ⟨row, hrow⟩
    obtain ⟨x, hkey, hx⟩ := h _ row hrow
    obtain rfl := Key.text.inj hkey
    exact ⟨_, row, hrow, hx⟩

theorem StreamsNamed.get?_of_not_hasStream (h : t.StreamsNamed) (hmiss : ¬ t.HasStream id) :
    t.streams.get? (.text id) = none := by
  rw [h.hasStream_iff, not_exists] at hmiss
  exact Option.eq_none_iff_forall_ne_some.mpr hmiss

/-- A row is only kept under an id that is derived from a genesis cid. -/
theorem Sound.isStreamId_of_hasStream (hs : t.Sound b) (h : t.HasStream id) :
    Ident.isStreamId (.str id) = true := by
  obtain ⟨row, hrow⟩ := (hs.streamsNamed.hasStream_iff id).mp h
  obtain ⟨g, tip, chain, s, hkey, -⟩ := hs.projects _ row hrow
  obtain rfl := Key.text.inj hkey
  exact Ident.isStreamId_streamId g

theorem twinned_empty : Twinned .empty := by
  intro k
  simp [empty]

theorem Twinned.of_eq (h : t.Twinned) (hstreams : t'.streams = t.streams)
    (hfolders : t'.folders = t.folders) : t'.Twinned := by
  intro k
  rw [hstreams, hfolders]
  exact h k

/-- A row and a folder that are written under one key are twins again. -/
theorem Twinned.insert (h : t.Twinned) {key : Key} {row : Stream} {f : Folder}
    (hstreams : t'.streams = t.streams.insert key row)
    (hfolders : t'.folders = t.folders.insert key f) : t'.Twinned := by
  intro k
  rw [hstreams, hfolders, Table.get?_insert, Table.get?_insert]
  by_cases hk : key = k
  · simp [hk]
  · rw [if_neg hk, if_neg hk]
    exact h k

end Tables

namespace Engine

variable {en : Engine} {t t' : Tables} {e : Event} {c g : String} {claim : OwnerClaim}
  {held : Held} {r : Receipt}

theorem twinned_of_filed (hs : t.Sound en.backend) (htwins : t.Twinned) (hwf : e.WellFormed)
    (hc : e.cid = .str c) (hg : e.genesis = .str g)
    (h : en.ruling t e (.str (Ident.streamId g)) claim held = .ok (r, t')) : t'.Twinned := by
  cases filed_of_ruling hs hwf hc hg h with
  | duplicate _ _ ht => exact ht ▸ htwins
  | beside _ _ _ _ ht => exact ht ▸ htwins.of_eq rfl rfl
  | created hnew hprev hrow =>
      rw [ruling_of_null hwf hc hnew hprev] at h
      obtain ⟨owner, -, h⟩ := bind_eq_ok.mp h
      obtain ⟨s, signal, -, -, -, -, rfl⟩ := Resolution.exists_of_creation hwf hc hnew hrow h
      exact htwins.insert rfl rfl
  | @advanced row parent s hnew hparent hprev hgenesis hrow hmoves hstate =>
      rw [ruling_of_parent hs hwf hc hnew hparent hprev hgenesis hrow] at h
      obtain ⟨g', tip, chain, f, hkey, hp⟩ := hs.projects _ row hrow
      obtain ⟨c', hc', -⟩ := (hs.wellFormed_of_stores hp.stored).cid_text
      have hid : row.id = .str (Ident.streamId g) := by
        rw [hp.id_eq]
        simpa using hkey.symm
      obtain ⟨s', signal, -, -, -, -, rfl⟩ := Resolution.exists_of_advancement
        hs.streamsNamed hwf hc hnew hid hrow (hp.tip_eq.trans hc') hmoves h
      exact htwins.insert rfl rfl

theorem Steady.twinned_submit (hst : en.Steady) (htwins : en.tables.Twinned) (e : Event)
    (claim : OwnerClaim) : (en.submit e claim).2.tables.Twinned := by
  cases hst.commits e claim with
  | failed f d heq =>
      rw [heq]
      exact htwins
  | answered c g r h d hadm hwf hc hg hres hfiled heq =>
      rw [heq]
      exact twinned_of_filed hst.sound htwins hwf hc hg
        (ruling_of_acceptance (hwf.streamOf_eq hg) hres)

/-- A rebuild writes a folder under the key of a row that is there. -/
theorem Steady.twinned_rebuild (hst : en.Steady) (htwins : en.tables.Twinned) (id : Json) :
    (en.rebuild id).2.tables.Twinned := by
  obtain ⟨d, hd, -⟩ := en.rebuild_eq id
  rw [hd]
  cases hres : en.rebuilt id with
  | error f => exact htwins
  | ok p =>
      obtain ⟨row', h⟩ := p
      obtain ⟨-, x, row, g, tip, chain, s, signal, hrefreshes⟩ := exists_refreshes hst.sound hres
      have hstreams : h.tables.streams = en.tables.streams.insert (.text x) row := by
        rw [hrefreshes.tables_eq, Table.insert_of_get? hrefreshes.found]
        rfl
      have hfolders : h.tables.folders = en.tables.folders.insert (.text x)
          ⟨.str x, tip.cid, signal.map en.backend.keptJson⟩ := by
        rw [hrefreshes.tables_eq]
        rfl
      exact htwins.insert hstreams hfolders

theorem Steady.twinned_carry (hst : en.Steady) (htwins : en.tables.Twinned) (call : Call) :
    (en.carry call).2.tables.Twinned := by
  cases call with
  | clear | restart => exact htwins
  | op op =>
      cases op with
      | submit e claim => exact hst.twinned_submit htwins e claim
      | rebuild id => exact hst.twinned_rebuild htwins id
      | branch | getStream | getFolder | getEvent | loadEvents | listStreams | findByContent
      | queryBySignal | signals | register => exact htwins

theorem Steady.twinned_carryAll (hst : en.Steady) (htwins : en.tables.Twinned)
    (calls : List Call) : (en.carryAll calls).2.tables.Twinned := by
  induction calls generalizing en with
  | nil => exact htwins
  | cons call rest ih => exact ih (hst.carry call) (hst.twinned_carry htwins call)

/-! ## The calls without the check -/

section Unchecked

def readAnyStream (en : Engine) (id : Json) : Work Stream :=
  en.reading fun t => Work.ofExcept do found id (← t.stream? en.backend id)

def readAnyFolder (en : Engine) (id : Json) : Work Folder :=
  en.reading fun t => Work.ofExcept do found id (← t.folder? en.backend id)

/-- Load the chain of a stream under any id. -/
def readAnyChain (en : Engine) (id tip : Json) : Work (List Event) :=
  en.reading fun t => Work.ofExcept (chainOf en.backend t id tip)

/-- Fold a stream again under any id. -/
def rebuildingAny (en : Engine) (id : Json) : Work (Stream × Holdings) := do
  let ((row, chain), h) ← en.transaction fun t => do
    let chain ← Work.ofExcept (chainOf en.backend t id .null)
    let s ← Fold.projectAfresh chain
    let row ← Work.ofExcept do found id (← t.stream? en.backend id)
    let (moved, t) ← Work.ofExcept (t.swapTip en.backend id s.tip s.tip s.content)
    if moved then
      let t ← Index.refresh en.backend en.extract t id s.tip s.content
      pure (({ row with content := s.content }, chain), t)
    else throw (.brokenChain s.tip "tip moved during rebuild" .null .null)
  Work.note Log.info logger s!"Rebuilt stream from {chain.length} events" [("stream_id", id)]
  pure (row, h)

variable {α : Type} {id : Json} {w : Work α} {d : Desk}

/-- A computation that reports a missing stream wherever the check does is the same with it. -/
theorem checked_on (hw : Ident.isStreamId id = false → w.on d = (.error (.streamNotFound id), d)) :
    (Work.ofExcept (checkShape id) >>= fun _ => w).on d = w.on d := by
  cases hshape : Ident.isStreamId id with
  | true =>
      have hcheck : checkShape id = .ok () := by simp [checkShape, hshape]
      rw [hcheck, Work.on_bind_ok (Work.on_ofExcept _)]
  | false =>
      have hcheck : checkShape id = .error (.streamNotFound id) := by simp [checkShape, hshape]
      rw [hcheck, Work.on_bind_error (Work.on_ofExcept _), hw hshape]

theorem observe_congr {w' : Work α} (h : w.on en.desk = w'.on en.desk) :
    en.observe w = en.observe w' := by
  unfold observe
  exact congrArg (fun p : Except Failure α × Desk => (p.1, { en with desk := p.2 })) h

theorem commit_congr {w w' : Work (α × Holdings)} (h : w.on en.desk = w'.on en.desk) :
    en.commit w = en.commit w' := by
  unfold commit
  unfold Work.on at h
  rw [h]

theorem reading_on (hopen : en.checkOpen = .ok ()) (r : Tables → Except Failure α) :
    (en.reading fun t => Work.ofExcept (r t)).on d = (r en.tables, d) := by
  unfold reading
  rw [hopen, Work.on_bind_ok (Work.on_ofExcept _), Work.on_ofExcept]

end Unchecked

/-! ## Streams that are missing -/

section Missing

variable {b : Backend} {id : String} {d : Desk}

theorem found_stream_of_none (hmiss : t.streams.get? (.text id) = none) :
    (do found (.str id) (← t.stream? b (.str id))) = .error (.streamNotFound (.str id)) := by
  rw [Tables.stream?_of_none hmiss]
  rfl

theorem found_folder_of_none (hmiss : t.folders.get? (.text id) = none) :
    (do found (.str id) (← t.folder? b (.str id))) = .error (.streamNotFound (.str id)) := by
  rw [Tables.folder?, Backend.seek_text, hmiss]
  rfl

theorem chainOf_of_none (hmiss : t.streams.get? (.text id) = none) (tip : Json) :
    chainOf b t (.str id) tip = .error (.streamNotFound (.str id)) := by
  unfold chainOf
  rw [Tables.stream?_of_none hmiss]
  rfl

theorem rebuildingAny_on (hopen : en.checkOpen = .ok ())
    (hmiss : en.tables.streams.get? (.text id) = none) :
    (en.rebuildingAny (.str id)).on d = (.error (.streamNotFound (.str id)), d) := by
  refine Work.on_bind_error ?_
  unfold transaction
  rw [hopen, Work.on_bind_ok (Work.on_ofExcept _)]
  refine Work.on_bind_error (Work.on_bind_error ?_)
  rw [chainOf_of_none hmiss, Work.on_ofExcept]

end Missing

/-! ## Streams that are there -/

/-- A failure that a stream is not there. -/
def IsMissing (f : Failure) : Prop := ∃ id, f = .streamNotFound id

theorem not_isMissing_refusal (b : Backend) : ¬ IsMissing b.refusal := by
  rintro ⟨id, h⟩
  cases b <;> cases h

section Present

variable {b : Backend} {id : String} {row : Stream}

/-- What a chain is walked back from may not be there, but its stream is not what is missing. -/
theorem startOf_fails (hs : t.Sound b) (id : Json) (cid : String) :
    FailsOnly (fun f => ¬ IsMissing f) (startOf b t id (.str cid)) := by
  unfold startOf
  rw [Tables.event?, Backend.seek_text, ok_bind]
  cases hget : t.events.get? (.text cid) with
  | none => exact .error (by simp [IsMissing])
  | some e =>
      obtain ⟨g, hg, -⟩ := (hs.wellFormed _ e hget).genesis_text
      simp only [(hs.wellFormed _ e hget).streamOf_eq hg, ok_bind]
      split
      · exact .ok e
      · exact .error (by simp [IsMissing])

theorem chainOf_fails (hs : t.Sound b) (hrow : t.streams.get? (.text id) = some row)
    (tip : Option String) :
    FailsOnly (fun f => ¬ IsMissing f) (chainOf b t (.str id) (.ofText? tip)) := by
  obtain ⟨g, last, chain, s, -, hp⟩ := hs.projects _ row hrow
  obtain ⟨c, hc⟩ := hs.binding.text last hp.stored
  have hcid : ∃ cid, (if (Json.ofText? tip).isPresent then Json.ofText? tip else row.tip) =
      .str cid := by
    cases tip with
    | none => exact ⟨c, hp.tip_eq.trans hc⟩
    | some x =>
        split
        · exact ⟨x, rfl⟩
        · exact ⟨c, hp.tip_eq.trans hc⟩
  obtain ⟨cid, hcid⟩ := hcid
  unfold chainOf
  rw [Tables.stream?_of_some hrow hp.isObject]
  simp only [found, ok_bind, hcid]
  refine (startOf_fails hs _ cid).bind fun start hstart => ?_
  obtain ⟨found, hfound, -⟩ := hs.exists_lineage_of_start (Tables.Sound.stores_of_startOf hstart)
  rw [hfound]
  exact .ok found

/-- A rebuild of a stream that is there fails at most in the store or in the extractor. -/
theorem refolded_fails (hs : en.tables.Sound en.backend)
    (hrow : en.tables.streams.get? (.text id) = some row) :
    FailsOnly (fun f => ¬ IsMissing f) (en.refolded (.str id)) := by
  obtain ⟨g, tip, chain, s, hkey, hp⟩ := hs.projects _ row hrow
  obtain rfl : id = Ident.streamId g := Key.text.inj hkey
  obtain ⟨c, hc⟩ := hs.binding.text tip hp.stored
  have htip : row.tip = .str c := hp.tip_eq.trans hc
  have hswap : FailsOnly (fun f => ¬ IsMissing f)
      (en.tables.swapTip en.backend (.str (Ident.streamId g)) s.tip s.tip s.content) := by
    rw [hp.tip_of_fold, hc, Tables.swapTip_of_eq hs.streamsNamed hrow htip]
    split
    · exact .ok _
    · exact .error (not_isMissing_refusal en.backend)
  unfold refolded
  rw [hs.chainOf_tip hrow hp, ok_bind, hp.fold, ok_bind, Tables.stream?_of_some hrow hp.isObject]
  simp only [found, ok_bind]
  refine hswap.bind ?_
  rintro ⟨moved, t⟩ hmoved
  obtain ⟨rfl, rfl⟩ := swapTip_of_projects hs hrow hp hmoved
  dsimp only
  rw [if_pos rfl, hp.tip_of_fold, hc, Index.refreshed_eq]
  cases en.extract s.content with
  | error d => exact .error (by simp [IsMissing])
  | ok signal => exact .ok _

end Present

/-! ## What calls tell of a stream -/

/-- An outcome reports that no stream has an id exactly if no row has it. -/
structure Tells {α : Type} (t : Tables) (id : String) (r : Except Failure α) : Prop where
  absent : ¬ t.HasStream id → r = .error (.streamNotFound (.str id))
  present : t.HasStream id → FailsOnly (fun f => ¬ IsMissing f) r

/-- The calls for a stream are the same without the check, and tell whether the stream is there. -/
structure Unhidden (en : Engine) (id : String) : Prop where
  stream : en.getStream (.str id) = en.observe (en.readAnyStream (.str id)) ∧
    Tells en.tables id (en.getStream (.str id)).1
  folder : en.getFolder (.str id) = en.observe (en.readAnyFolder (.str id)) ∧
    Tells en.tables id (en.getFolder (.str id)).1
  events : ∀ tip, en.loadEvents (.str id) (.ofText? tip) =
      en.observe (en.readAnyChain (.str id) (.ofText? tip)) ∧
    Tells en.tables id (en.loadEvents (.str id) (.ofText? tip)).1
  rebuild : en.rebuild (.str id) = en.commit (en.rebuildingAny (.str id)) ∧
    Tells en.tables id (en.rebuild (.str id)).1

/-- An outcome that is known where a row is missing and where it is there tells which it is. -/
theorem tells_of_cases {α : Type} {id : String} {r : Except Failure α}
    (hs : en.tables.Sound en.backend)
    (hnone : en.tables.streams.get? (.text id) = none → r = .error (.streamNotFound (.str id)))
    (hsome : ∀ row, en.tables.streams.get? (.text id) = some row →
      FailsOnly (fun f => ¬ IsMissing f) r) : Tells en.tables id r where
  absent := fun h => hnone (hs.streamsNamed.get?_of_not_hasStream h)
  present := fun h => by
    obtain ⟨row, hrow⟩ := (hs.streamsNamed.hasStream_iff id).mp h
    exact hsome row hrow

theorem not_hasStream_of_misshapen (hs : en.tables.Sound en.backend) {id : String}
    (hno : Ident.isStreamId (.str id) = false) : ¬ en.tables.HasStream id := by
  intro h
  rw [hs.isStreamId_of_hasStream h] at hno
  cases hno

/-- A call that looks in the tables is the same without the check, and tells what they tell. -/
theorem observe_checked {α : Type} {id : String} {r : Tables → Except Failure α}
    (hs : en.tables.Sound en.backend) (hopen : en.checkOpen = .ok ())
    (h : Tells en.tables id (r en.tables)) :
    let w := en.reading fun t => Work.ofExcept (r t)
    let checked := Work.ofExcept (checkShape (.str id)) >>= fun _ => w
    en.observe checked = en.observe w ∧ Tells en.tables id (en.observe checked).1 := by
  intro w checked
  have hw : w.on en.desk = (r en.tables, en.desk) := reading_on hopen r
  have hsame : en.observe checked = en.observe w :=
    observe_congr (checked_on fun hno => by rw [hw, h.absent (not_hasStream_of_misshapen hs hno)])
  have hobserved : (en.observe w).1 = r en.tables := congrArg Prod.fst hw
  exact ⟨hsame, hsame ▸ hobserved ▸ h⟩

theorem rebuild_checked (hs : en.tables.Sound en.backend) (hopen : en.checkOpen = .ok ())
    (id : String) : en.rebuild (.str id) = en.commit (en.rebuildingAny (.str id)) ∧
      Tells en.tables id (en.rebuild (.str id)).1 := by
  have hsame : en.rebuild (.str id) = en.commit (en.rebuildingAny (.str id)) :=
    commit_congr (checked_on fun hno => rebuildingAny_on hopen
      (hs.streamsNamed.get?_of_not_hasStream (not_hasStream_of_misshapen hs hno)))
  refine ⟨hsame, tells_of_cases hs (fun hmiss => ?_) fun row hrow f hf => ?_⟩
  · rw [hsame]
    unfold commit
    have hon : ((en.rebuildingAny (.str id)).run).run en.desk = _ := rebuildingAny_on hopen hmiss
    rw [hon]
  · obtain ⟨d, hd, -⟩ := en.rebuild_eq (.str id)
    rw [hd] at hf
    have hthere := (hs.streamsNamed.hasStream_iff id).mpr ⟨row, hrow⟩
    have hcheck : checkShape (.str id) = .ok () := by
      simp [checkShape, hs.isStreamId_of_hasStream hthere]
    have hfails : FailsOnly (fun f => ¬ IsMissing f) (en.rebuilt (.str id)) := by
      unfold rebuilt
      rw [hcheck, hopen]
      exact (refolded_fails hs hrow).bind fun _ _ => .ok _
    cases hres : en.rebuilt (.str id) with
    | ok p =>
        rw [hres] at hf
        cases hf
    | error f' =>
        rw [hres] at hf
        obtain rfl : f' = f := Except.error.inj hf
        exact hfails f' hres

theorem unhidden_of_sound (hs : en.tables.Sound en.backend) (htwins : en.tables.Twinned)
    (hopen : en.checkOpen = .ok ()) (id : String) : en.Unhidden id := by
  have hstream : Tells en.tables id
      (do found (.str id) (← en.tables.stream? en.backend (.str id))) := by
    refine tells_of_cases hs found_stream_of_none fun row hrow => ?_
    obtain ⟨g, tip, chain, s, -, hp⟩ := hs.projects _ row hrow
    rw [Tables.stream?_of_some hrow hp.isObject]
    exact .ok row
  have hfolder : Tells en.tables id
      (do found (.str id) (← en.tables.folder? en.backend (.str id))) := by
    refine tells_of_cases hs (fun hmiss => ?_) fun row hrow => ?_
    · refine found_folder_of_none (Option.eq_none_iff_forall_ne_some.mpr fun f hf => ?_)
      obtain ⟨row, hrow⟩ := (htwins (.text id)).mp ⟨f, hf⟩
      rw [hmiss] at hrow
      cases hrow
    · obtain ⟨f, hf⟩ := (htwins (.text id)).mpr ⟨row, hrow⟩
      rw [Tables.folder?, Backend.seek_text, hf]
      exact .ok f
  have hchain : ∀ tip, Tells en.tables id
      (chainOf en.backend en.tables (.str id) (.ofText? tip)) := fun tip =>
    tells_of_cases hs (chainOf_of_none · _) fun row hrow => chainOf_fails hs hrow tip
  exact ⟨observe_checked hs hopen hstream, observe_checked hs hopen hfolder,
    fun tip => observe_checked hs hopen (hchain tip), rebuild_checked hs hopen id⟩

/--
Every genesis cid has an id that passes the check, and ids differ where digests do.  So in
whatever state a run leaves an engine, the calls for a stream report that it is not there
exactly if no row has the id, as they would without the check.
-/
theorem Fresh.streams_unhidden (h : en.Fresh) (hopen : en.store.isOpen = true) :
    (∀ g, g ≠ "" → ∃ id, Ident.streamIdOf (.str g) = .ok id ∧
      Ident.isStreamId (.str id) = true) ∧
    (∀ g g' id, Ident.streamIdOf (.str g) = .ok id → Ident.streamIdOf (.str g') = .ok id →
      Digest.sha256Text g = Digest.sha256Text g') ∧
    ∀ calls id, (en.carryAll calls).2.Unhidden id := by
  refine ⟨?_, ?_, ?_⟩
  · intro g hg
    exact ⟨_, Ident.streamIdOf_text hg, Ident.isStreamId_streamId g⟩
  · intro g g' id hid hid'
    have hsame := (Ident.eq_streamId_of_text hid).symm.trans (Ident.eq_streamId_of_text hid')
    exact Ident.digest_eq_of_streamId_eq hsame
  · intro calls id
    have hempty : en.tables.Twinned := h.tables_eq ▸ Tables.twinned_empty
    have hisOpen : (en.carryAll calls).2.checkOpen = .ok () := by
      rw [checkOpen_congr (carryAll_sameSetup en calls), checkOpen, hopen]
      rfl
    exact unhidden_of_sound (h.steady.carryAll calls).sound
      (h.steady.twinned_carryAll hempty calls) hisOpen id

/-- A stream is found under its id, and not under the cid of its genesis event. -/
theorem streams_unhidden_sample :
    let calls := [.op (.submit sampleGenesis sampleOwner), .clear]
    let en := ((sampleEngine .sqlite (some (.empty (.ofNat 1)))).carryAll calls).2
    en.Unhidden (Ident.streamId "first") ∧ en.Unhidden "first" ∧
      ((en.getStream (.str (Ident.streamId "first"))).1.map Stream.tip,
        (en.rebuild (.str "first")).1.map Stream.tip) =
        (.ok (.str "first"), .error (.streamNotFound (.str "first"))) := by
  intro calls en
  have hfresh := sampleEngine_fresh .sqlite (.ofNat 1)
  obtain ⟨-, -, hunhidden⟩ := hfresh.streams_unhidden rfl
  exact ⟨hunhidden calls _, hunhidden calls _, by decide +kernel⟩

end Engine

end ChainFold
