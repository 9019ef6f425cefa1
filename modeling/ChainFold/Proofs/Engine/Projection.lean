import ChainFold.Proofs.Engine.Run

/-!
# Projecting and rebuilding in steady engines

The chain that a steady engine loads is the lineage of a stored event.  A branch is
projected from it without touching the tables, and a rebuild finds the very row that
it is about to write.
-/

namespace ChainFold

namespace Tables.Sound

variable {b : Backend} {t : Tables}

theorem stores_of_startOf {id cid : Json} {e : Event} (h : Engine.startOf b t id cid = .ok e) :
    t.Stores e := by
  obtain ⟨found, hfound, h⟩ := bind_eq_ok.mp h
  cases found with
  | none => simp at h
  | some x =>
      obtain ⟨stream, -, h⟩ := bind_eq_ok.mp h
      obtain rfl : x = e := by
        split at h
        · exact Except.ok.inj h
        · simp at h
      exact Backend.exists_key_of_seek hfound

/-- From a stored event the chain that is found is its lineage. -/
theorem exists_lineage_of_start (hs : t.Sound b) {e : Event} (he : t.Stores e) :
    ∃ chain, (t.eventsOf b e.genesis >>= fun events => Chain.toTip events e.genesis e.cid) =
      .ok chain ∧ Lineage t.Stores e chain := by
  obtain ⟨k, hk⟩ := he
  obtain ⟨chain, hl⟩ := hs.lineage k e hk
  obtain ⟨g, hg, -⟩ := (hs.wellFormed k e hk).genesis_text
  refine ⟨chain, ?_, hl⟩
  rw [hg]
  exact hs.toTip_eventsOf hl ⟨k, hk⟩ hg

/-- The chain that is loaded up to a tip is the lineage of a stored event. -/
theorem exists_lineage_of_chainOf (hs : t.Sound b) {id tip : Json} {chain : List Event}
    (h : Engine.chainOf b t id tip = .ok chain) : ∃ e, t.Stores e ∧ Lineage t.Stores e chain := by
  obtain ⟨row?, -, h⟩ := bind_eq_ok.mp h
  obtain ⟨row, -, h⟩ := bind_eq_ok.mp h
  obtain ⟨e, hstart, h⟩ := bind_eq_ok.mp h
  have he := stores_of_startOf hstart
  obtain ⟨chain', hchain, hl⟩ := hs.exists_lineage_of_start he
  obtain rfl := Except.ok.inj (hchain.symm.trans h)
  exact ⟨e, he, hl⟩

theorem chainOf_eq (hs : t.Sound b) {row : Stream} {g : String} {e : Event} {chain : List Event}
    (hrow : t.streams.get? (.text (Ident.streamId g)) = some row)
    (hobj : row.content.isObject = true) (he : t.Stores e) (hg : e.genesis = .str g)
    (hl : Lineage t.Stores e chain) {tip : Json}
    (htip : (if tip.isPresent then tip else row.tip) = e.cid) :
    Engine.chainOf b t (.str (Ident.streamId g)) tip = .ok chain := by
  obtain ⟨c, hc⟩ := hs.binding.text e he
  have hstream := (hs.wellFormed_of_stores he).streamOf_eq hg
  have hstart : Engine.startOf b t (.str (Ident.streamId g)) e.cid = .ok e := by
    rw [Engine.startOf, hc, Tables.event?_text, hs.get?_of_stores he hc, ok_bind]
    simp [hstream]
  have hchain := hs.toTip_eventsOf hl he hg
  rw [← hg] at hchain
  rw [Engine.chainOf, Tables.stream?_of_some hrow hobj]
  simp only [Engine.found, ok_bind, htip, hstart]
  exact hchain

/-- The chain that is loaded up to the tip of a stream is the lineage that its row folds. -/
theorem chainOf_tip (hs : t.Sound b) {row : Stream} {g : String} {tip : Event}
    {chain : List Event} {s : Fold.State}
    (hrow : t.streams.get? (.text (Ident.streamId g)) = some row)
    (hp : t.Projects b row g tip chain s) :
    Engine.chainOf b t (.str (Ident.streamId g)) .null = .ok chain :=
  hs.chainOf_eq hrow hp.isObject hp.stored hp.genesis_eq hp.lineage hp.tip_eq

end Tables.Sound

namespace Engine

variable {en : Engine}

/-! ## Branches -/

theorem exists_lineage_of_loaded (hs : en.tables.Sound en.backend) {id tip : Json}
    {chain : List Event} (h : en.loaded id tip = .ok chain) :
    ∃ e, en.tables.Stores e ∧ Lineage en.tables.Stores e chain := by
  obtain ⟨-, -, h⟩ := bind_eq_ok.mp h
  obtain ⟨-, -, h⟩ := bind_eq_ok.mp h
  exact hs.exists_lineage_of_chainOf h

theorem branch_of_error {id tip : Json} {f : Failure} (h : en.loaded id tip = .error f) :
    ∃ d, en.branch id tip = (.error f, { en with desk := d }) ∧ d.recent = en.desk.recent := by
  obtain ⟨d, hd, hrecent⟩ := (en.readChain_isPlain id tip).on_eq en.desk
  rw [h] at hd
  refine ⟨d, ?_, hrecent⟩
  have hrun : ((en.readBranch id tip).run).run en.desk = (.error f, d) := Work.on_bind_error hd
  unfold branch observe
  rw [hrun]

/-- A branch is projected from its chain, and nothing but the desk changes. -/
theorem branch_of_ok {id tip : Json} {chain : List Event} (h : en.loaded id tip = .ok chain) :
    ∃ d, d.recent = en.desk.recent ∧ en.branch id tip =
      (((Fold.project chain).on d).1, { en with desk := ((Fold.project chain).on d).2 }) := by
  obtain ⟨d, hd, hrecent⟩ := (en.readChain_isPlain id tip).on_eq en.desk
  rw [h] at hd
  refine ⟨d, hrecent, ?_⟩
  have hrun : ((en.readBranch id tip).run).run en.desk = (Fold.project chain).on d :=
    Work.on_bind_ok hd
  unfold branch observe
  rw [hrun]

theorem Steady.branch (hst : en.Steady) (id tip : Json) : (en.branch id tip).2.Steady := by
  cases hload : en.loaded id tip with
  | error f =>
      obtain ⟨d, hd, hrecent⟩ := branch_of_error hload
      rw [hd]
      exact hst.with_desk (Desk.keeps_of_recent_eq hrecent)
  | ok chain =>
      obtain ⟨e, he, hl⟩ := exists_lineage_of_loaded hst.sound hload
      obtain ⟨d, hrecent, hd⟩ := branch_of_ok hload
      obtain ⟨r, d', hd', htrusts, -⟩ := Fold.project_trusts hst.sound.scope he hl
        (hst.trusts.keeps (Desk.keeps_of_recent_eq hrecent))
      rw [hd, hd']
      exact ⟨hst.sound, htrusts⟩

/-! ## Rebuilds -/

theorem projectAfresh_isPlain (chain : List Event) :
    (Fold.projectAfresh chain).IsPlain (Fold.State.ofChain chain) :=
  (Work.IsPlain.ofExcept _).and_return fun s => (Work.IsPlain.pure s).note_bind

def refolded (en : Engine) (id : Json) : Except Failure ((Stream × List Event) × Tables) := do
  let chain ← chainOf en.backend en.tables id .null
  let s ← Fold.State.ofChain chain
  let row ← (do found id (← en.tables.stream? en.backend id))
  let (moved, t) ← en.tables.swapTip en.backend id s.tip s.tip s.content
  if moved then
    let t ← Index.refreshed en.backend en.extract t id s.tip s.content
    pure (({ row with content := s.content }, chain), t)
  else throw (.brokenChain s.tip "tip moved during rebuild" .null .null)

/-- What a rebuild comes to. -/
def rebuilt (en : Engine) (id : Json) : Except Failure (Stream × Holdings) := do
  checkShape id
  en.checkOpen
  let ((row, _), t) ← en.refolded id
  pure (row, ⟨t, en.archive⟩)

theorem transaction_isPlain {α : Type} {en : Engine} {body : Tables → Work (α × Tables)}
    {r : Except Failure (α × Tables)} (h : (body en.tables).IsPlain r) :
    (en.transaction body).IsPlain (do
      en.checkOpen
      let (a, t) ← r
      pure (a, Holdings.mk t en.archive)) :=
  (Work.IsPlain.ofExcept _).bind fun _ _ => h.bind fun _ _ => .pure _

theorem refolded_isPlain (en : Engine) (id : Json) :
    Work.IsPlain (do
      let chain ← Work.ofExcept (chainOf en.backend en.tables id .null)
      let s ← Fold.projectAfresh chain
      let row ← Work.ofExcept do found id (← en.tables.stream? en.backend id)
      let (moved, t) ← Work.ofExcept
        (en.tables.swapTip en.backend id s.tip s.tip s.content)
      if moved then
        let t ← Index.refresh en.backend en.extract t id s.tip s.content
        pure (({ row with content := s.content }, chain), t)
      else throw (.brokenChain s.tip "tip moved during rebuild" .null .null))
      (en.refolded id) := by
  refine (Work.IsPlain.ofExcept _).bind fun chain _ => ?_
  refine (projectAfresh_isPlain chain).bind fun s _ => ?_
  refine (Work.IsPlain.ofExcept _).bind fun row _ => ?_
  refine (Work.IsPlain.ofExcept _).bind ?_
  rintro ⟨moved, t⟩ -
  dsimp only
  split
  · exact (Index.refresh_isPlain _ _ t id s.tip s.content).bind fun _ _ => .pure _
  · exact .throw _

theorem rebuilding_isPlain (en : Engine) (id : Json) :
    (en.rebuilding id).IsPlain (en.rebuilt id) := by
  have hnested : en.rebuilt id = (do
      checkShape id
      (do
        en.checkOpen
        let (a, t) ← en.refolded id
        pure (a, Holdings.mk t en.archive)) >>= fun p => Except.ok (p.1.1, p.2)) := by
    unfold rebuilt
    cases checkShape id with
    | error f => rfl
    | ok _ =>
        cases en.checkOpen with
        | error f => rfl
        | ok _ => cases en.refolded id <;> rfl
  rw [hnested]
  refine (Work.IsPlain.ofExcept _).bind fun _ _ => ?_
  refine (transaction_isPlain (refolded_isPlain en id)).bind ?_
  rintro ⟨⟨row, chain⟩, h⟩ -
  exact (Work.IsPlain.pure _).note_bind

/-- A rebuild comes to what folding again comes to, and nothing is newly held. -/
theorem rebuild_eq (en : Engine) (id : Json) :
    ∃ d, en.rebuild id = ((en.rebuilt id).map (·.1), en.behind d (en.rebuilt id)) ∧
      d.recent = en.desk.recent := by
  obtain ⟨d, hd, hrecent⟩ := (en.rebuilding_isPlain id).on_eq en.desk
  exact ⟨d, commit_eq hd, hrecent⟩

theorem exists_text_of_checkShape {id : Json} (h : checkShape id = .ok ()) :
    ∃ x, id = .str x := by
  cases id with
  | str x => exact ⟨x, rfl⟩
  | null | bool | int | double | arr | obj => simp [checkShape, Ident.isStreamId] at h

/-- Moving the tip of a sound stream to where it is, with its own fold, changes nothing. -/
theorem swapTip_of_projects {b : Backend} {t t' : Tables} (hs : t.Sound b) {row : Stream}
    {g : String} {tip : Event} {chain : List Event} {s : Fold.State} {moved : Bool}
    (hrow : t.streams.get? (.text (Ident.streamId g)) = some row)
    (hp : t.Projects b row g tip chain s)
    (h : t.swapTip b (.str (Ident.streamId g)) s.tip s.tip s.content = .ok (moved, t')) :
    moved = true ∧ t' = t := by
  obtain ⟨c, hc⟩ := hs.binding.text tip hp.stored
  have htip : row.tip = .str c := hp.tip_eq.trans hc
  rw [hp.tip_of_fold, hc, Tables.swapTip_of_eq hs.streamsNamed hrow htip] at h
  split at h
  · obtain ⟨rfl, rfl⟩ := Prod.mk.inj (Except.ok.inj h)
    have hsame : { row with tip := .str c, content := b.keptJson s.content } = row := by
      rw [← htip, ← hp.content_eq]
    rw [hsame]
    refine ⟨rfl, ?_⟩
    unfold Tables.setStream
    rw [Table.insert_of_get? hrow]
  · simp at h

/-- What a rebuild of a steady engine writes: the folder of the stream, at its tip. -/
structure Refreshes (en : Engine) (id : String) (t' : Tables) (row : Stream) (g : String)
    (tip : Event) (chain : List Event) (s : Fold.State) (signal : Option Json) : Prop where
  found : en.tables.streams.get? (.text id) = some row
  projects : en.tables.Projects en.backend row g tip chain s
  extracted : en.extract s.content = .ok signal
  tables_eq : t' = en.tables.withFolder id ⟨.str id, tip.cid, signal.map en.backend.keptJson⟩

/-- A rebuild of a steady engine writes the row that is there, and a folder. -/
theorem exists_refreshes (hs : en.tables.Sound en.backend) {id : Json} {row : Stream}
    {h : Holdings} (hres : en.rebuilt id = .ok (row, h)) : h.archive = en.archive ∧
      ∃ x row₀ g tip chain s signal, en.Refreshes x h.tables row₀ g tip chain s signal := by
  obtain ⟨u, hshape, hres⟩ := bind_eq_ok.mp hres
  obtain ⟨v, -, hres⟩ := bind_eq_ok.mp hres
  obtain ⟨⟨⟨row', chain⟩, t⟩, hfold, hres⟩ := bind_eq_ok.mp hres
  obtain rfl : h = ⟨t, en.archive⟩ := (Prod.mk.inj (Except.ok.inj hres)).2.symm
  obtain ⟨x, rfl⟩ := exists_text_of_checkShape hshape
  obtain ⟨chain, hchain, hfold⟩ := bind_eq_ok.mp hfold
  obtain ⟨s, hs', hfold⟩ := bind_eq_ok.mp hfold
  obtain ⟨read, hread, hfold⟩ := bind_eq_ok.mp hfold
  obtain ⟨⟨moved, t₁⟩, hmoved, hfold⟩ := bind_eq_ok.mp hfold
  obtain ⟨found?, hfound, hread⟩ := bind_eq_ok.mp hread
  cases found? with
  | none => simp [found] at hread
  | some stream =>
      obtain ⟨row₀, hrow₀, -⟩ := Tables.exists_row_of_stream? hfound
      obtain ⟨g, tip, chain₀, f, hkey, hp⟩ := hs.projects _ row₀ hrow₀
      obtain rfl : x = Ident.streamId g := by simpa using hkey
      obtain rfl := Except.ok.inj (hchain.symm.trans (hs.chainOf_tip hrow₀ hp))
      obtain rfl := Except.ok.inj (hs'.symm.trans hp.fold)
      obtain ⟨rfl, rfl⟩ := swapTip_of_projects hs hrow₀ hp hmoved
      dsimp only at hfold
      rw [if_pos rfl] at hfold
      obtain ⟨t₂, ht₂, hfold⟩ := bind_eq_ok.mp hfold
      obtain ⟨-, rfl⟩ := Prod.mk.inj (Except.ok.inj hfold)
      obtain ⟨c, hc⟩ := hs.binding.text tip hp.stored
      rw [hp.tip_of_fold, hc, Index.refreshed_eq] at ht₂
      split at ht₂
      · simp at ht₂
      · rename_i signal hsignal
        obtain rfl := Except.ok.inj ht₂
        exact ⟨rfl, _, row₀, g, tip, chain, s, signal, hrow₀, hp, hsignal, by rw [hc]⟩

theorem rebuilt_tables (hs : en.tables.Sound en.backend) {id : Json} {row : Stream} {h : Holdings}
    (hres : en.rebuilt id = .ok (row, h)) :
    h.tables.events = en.tables.events ∧ h.tables.streams = en.tables.streams ∧
      h.archive = en.archive := by
  obtain ⟨harchive, x, row₀, g, tip, chain, s, signal, hrefreshes⟩ := exists_refreshes hs hres
  rw [hrefreshes.tables_eq]
  exact ⟨rfl, rfl, harchive⟩

end Engine

namespace Tables

variable {b : Backend} {t t' : Tables}

/-- Folders do not matter for the soundness of tables. -/
theorem Sound.of_eq (hs : t.Sound b) (hevents : t'.events = t.events)
    (hstreams : t'.streams = t.streams) : t'.Sound b := by
  have hstores := stores_of_events_eq hevents
  refine ⟨?_, ?_, ?_, ?_, ?_⟩
  · exact hevents ▸ hs.wellFormed
  · exact hevents ▸ hs.key_eq
  · rw [hevents, hstores]
    exact hs.lineage
  · intro k row hrow
    obtain ⟨g, tip, chain, s, hk, hp⟩ := hs.projects k row (hstreams ▸ hrow)
    exact ⟨g, tip, chain, s, hk, hp.mono fun e he => hstores ▸ he⟩
  · rw [hevents, hstreams]
    exact hs.streams

theorem accepts_of_eq (hevents : t'.events = t.events) (hstreams : t'.streams = t.streams) :
    t'.Accepts = t.Accepts := by
  funext e
  simp only [Accepts, stores_of_events_eq hevents, hstreams]

end Tables

namespace Engine

variable {en : Engine}

theorem Steady.rebuild (hst : en.Steady) (id : Json) : (en.rebuild id).2.Steady := by
  obtain ⟨d, hd, hrecent⟩ := en.rebuild_eq id
  have htrusts := hst.trusts.keeps (Desk.keeps_of_recent_eq hrecent)
  rw [hd]
  cases hres : en.rebuilt id with
  | error f => exact steady_behind_error hst Stream f htrusts
  | ok p =>
      obtain ⟨row, h⟩ := p
      obtain ⟨hevents, hstreams, -⟩ := rebuilt_tables hst.sound hres
      refine ⟨hst.sound.of_eq hevents hstreams, ?_⟩
      show d.Trusts en.backend h.tables.Stores h.tables.Accepts
      rw [Tables.stores_of_events_eq hevents, Tables.accepts_of_eq hevents hstreams]
      exact htrusts

/-- A rebuild of a steady engine changes neither events nor streams. -/
theorem Steady.rebuild_tables (hst : en.Steady) (id : Json) :
    (en.rebuild id).2.tables.events = en.tables.events ∧
      (en.rebuild id).2.tables.streams = en.tables.streams := by
  obtain ⟨d, hd, -⟩ := en.rebuild_eq id
  rw [hd]
  cases hres : en.rebuilt id with
  | error f => exact ⟨rfl, rfl⟩
  | ok p =>
      obtain ⟨row, h⟩ := p
      obtain ⟨hevents, hstreams, -⟩ := rebuilt_tables hst.sound hres
      exact ⟨hevents, hstreams⟩

theorem Steady.rebuild_archive (hst : en.Steady) (id : Json) :
    (en.rebuild id).2.archive = en.archive := by
  obtain ⟨d, hd, -⟩ := en.rebuild_eq id
  rw [hd]
  cases hres : en.rebuilt id with
  | error f => rfl
  | ok p =>
      obtain ⟨row, h⟩ := p
      obtain ⟨-, -, harchive⟩ := rebuilt_tables hst.sound hres
      exact harchive

/-! ## Runs -/

theorem Steady.reads (hst : en.Steady) {op : Operation} (h : en.Reads op) :
    (en.perform op).2.Steady := by
  obtain ⟨r, hr⟩ := h
  obtain ⟨d, hd, hrecent⟩ := hr en.desk
  have hd : en.perform op = (r, { en with desk := d }) := hd
  rw [hd]
  exact hst.with_desk (Desk.keeps_of_recent_eq hrecent)

theorem Steady.perform (hst : en.Steady) (op : Operation) : (en.perform op).2.Steady := by
  cases op with
  | submit e claim => exact hst.submit e claim
  | rebuild id => exact hst.rebuild id
  | branch id tip => exact hst.branch id tip
  | getStream id => exact hst.reads (reads_getStream en id)
  | getFolder id => exact hst.reads (reads_getFolder en id)
  | getEvent cid => exact hst.reads (reads_getEvent en cid)
  | loadEvents id tip => exact hst.reads (reads_loadEvents en id tip)
  | listStreams f => exact hst.reads (reads_listStreams en f)
  | findByContent model key value => exact hst.reads (reads_findByContent en model key value)
  | queryBySignal p => exact hst.reads (reads_queryBySignal en p)
  | signals => exact hst.reads (reads_signals en)
  | register m => exact ⟨hst.sound, hst.trusts⟩

theorem Steady.after (hst : en.Steady) (ops : List Operation) : (en.after ops).Steady := by
  induction ops generalizing en with
  | nil => exact hst
  | cons op rest ih => exact ih (hst.perform op)

/-- An engine over an empty store, with nothing held, whatever else it is made of. -/
structure Fresh (en : Engine) : Prop where
  tables_eq : en.tables = .empty
  holds_nothing : ∀ recent, en.desk.recent = some recent → recent.entries = []

theorem Fresh.not_stores (h : en.Fresh) (e : Event) : ¬ en.tables.Stores e := by
  rintro ⟨k, hk⟩
  simp [h.tables_eq, Tables.empty] at hk

theorem Fresh.trusts (h : en.Fresh) (known scope : Event → Prop) :
    en.desk.Trusts en.backend known scope := by
  rintro e k s - - ⟨recent, hrecent, c, hmem⟩
  simp [h.holds_nothing recent hrecent] at hmem

theorem Fresh.steady (h : en.Fresh) : en.Steady where
  sound := h.tables_eq ▸ Tables.sound_empty en.backend
  trusts := h.trusts _ _

theorem sampleEngine_fresh (b : Backend) (room : Amount) :
    (sampleEngine b (some (.empty room))).Fresh := by
  refine ⟨rfl, ?_⟩
  intro recent hrecent
  exact Option.some.inj hrecent ▸ rfl

end Engine

end ChainFold
