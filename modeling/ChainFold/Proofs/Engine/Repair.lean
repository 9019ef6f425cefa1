import ChainFold.Proofs.Engine.Indexing
import ChainFold.Proofs.Ident
import ChainFold.Proofs.Store.Staging

/-!
# Rebuilding repairs

A row and its folder are always written together, with one content.  Folding the stream
again gives that content up to what the backend does not keep, so a rebuild writes the row
and the folder that the run has left, whatever has become of them since.
-/

namespace ChainFold

namespace Index

/-- A row and its folder are what a backend keeps if both are written with a content. -/
structure Written (b : Backend) (extract : Extractor) (row : Stream) (f : Folder)
    (content : Json) (signal : Option Json) : Prop where
  takes : b.takes content = true
  tidy : content.Tidy
  object : content.isObject = true
  extracted : extract content = .ok signal
  content_eq : row.content = b.keptJson content
  folder_eq : f = ⟨row.id, row.tip, signal.map b.keptJson⟩

variable {b : Backend} {extract : Extractor} {row : Stream} {f : Folder} {content other : Json}
  {signal : Option Json}

/-- Signals that are derived from contents which a backend keeps alike are kept alike. -/
theorem MapsEqual.exists_kept (hx : b.isRelational = true → MapsEqual extract)
    (hagree : b.Agree content other) (hobj : content.isObject = true)
    (hsignal : extract content = .ok signal) :
    ∃ signal', extract other = .ok signal' ∧
      signal'.map b.keptJson = signal.map b.keptJson := by
  rcases hagree.cases with ⟨hb, halike⟩ | ⟨-, rfl⟩
  · have hequal := (hx hb).equal content other hobj halike
    rw [hsignal] at hequal
    cases hother : extract other with
    | error d =>
        rw [hother] at hequal
        cases hequal
    | ok signal' =>
        rw [hother] at hequal
        have hsorted : signal.map Json.sortKeys = signal'.map Json.sortKeys :=
          Except.ok.inj hequal
        have hkept : b.keptJson = Json.sortKeys := by
          funext j
          simp [Backend.keptJson, hb]
        exact ⟨signal', rfl, by rw [hkept, hsorted]⟩
  · exact ⟨signal, hsignal, rfl⟩

/-- Contents that a backend keeps alike are written as the same row and the same folder. -/
theorem Written.of_agree (h : Written b extract row f content signal)
    (hx : b.isRelational = true → MapsEqual extract) (hagree : b.Agree content other) :
    ∃ signal', Written b extract row f other signal' := by
  obtain ⟨signal', hsignal', hkept⟩ := MapsEqual.exists_kept hx hagree h.object h.extracted
  refine ⟨signal', ?_, hagree.symm.tidy_left h.tidy, ?_, hsignal', ?_, ?_⟩
  · rw [← hagree.takes_eq]
    exact h.takes
  · rw [← hagree.isObject_eq]
    exact h.object
  · rw [← hagree.keptJson_eq]
    exact h.content_eq
  · rw [hkept]
    exact h.folder_eq

end Index

namespace Tables

/-- Every row has the folder that is written with its content. -/
def Paired (b : Backend) (extract : Extractor) (t : Tables) : Prop :=
  ∀ k row, t.streams.get? k = some row → ∃ f content signal,
    t.folders.get? k = some f ∧ Index.Written b extract row f content signal

variable {b : Backend} {extract : Extractor} {t t' : Tables}

theorem paired_empty (b : Backend) (extract : Extractor) : Paired b extract .empty := by
  intro k row hrow
  cases hrow

theorem Paired.of_eq (h : t.Paired b extract) (hstreams : t'.streams = t.streams)
    (hfolders : t'.folders = t.folders) : t'.Paired b extract := by
  intro k row hrow
  rw [hstreams] at hrow
  rw [hfolders]
  exact h k row hrow

/-- A row that is written together with its folder leaves the other pairs. -/
theorem Paired.insert (h : t.Paired b extract) {key : Key} {row : Stream} {f : Folder}
    {content : Json} {signal : Option Json}
    (hstreams : t'.streams = t.streams.insert key row)
    (hfolders : t'.folders = t.folders.insert key f)
    (hwritten : Index.Written b extract row f content signal) : t'.Paired b extract := by
  intro k row' hrow'
  rw [hstreams, Table.get?_insert] at hrow'
  rw [hfolders]
  by_cases hk : key = k
  · rw [if_pos hk] at hrow'
    obtain rfl := Option.some.inj hrow'
    exact ⟨f, content, signal, by rw [hk, Table.get?_insert_self], hwritten⟩
  · rw [if_neg hk] at hrow'
    rw [Table.get?_insert_of_ne hk]
    exact h k row' hrow'

/-- The content that a stream folds to is written as the row and the folder that are there. -/
theorem Paired.exists_written (h : t.Paired b extract)
    (hx : b.isRelational = true → Index.MapsEqual extract) {k : Key} {row : Stream} {g : String}
    {tip : Event} {chain : List Event} {s : Fold.State} (hrow : t.streams.get? k = some row)
    (hp : t.Projects b row g tip chain s) : ∃ f signal, t.folders.get? k = some f ∧
      Index.Written b extract row f s.content signal := by
  obtain ⟨f, content, signal, hf, hwritten⟩ := h k row hrow
  have hkept : b.keptJson content = b.keptJson s.content :=
    hwritten.content_eq.symm.trans hp.content_eq
  have hagree : b.Agree content s.content := by
    have hcontent := (Backend.agree_keptJson (b := b) hwritten.tidy).symm
    rw [hkept] at hcontent
    exact hcontent.trans (Backend.agree_keptJson hp.sane.tidy)
  obtain ⟨signal', hwritten'⟩ := hwritten.of_agree hx hagree
  exact ⟨f, signal', hf, hwritten'⟩

/-! ## Damage to one stream -/

/--
Tables with the same events in which the content of one row is any object, and the folder
of that stream any folder or none.
-/
structure Damages (t t' : Tables) (id : String) : Prop where
  events_eq : t'.events = t.events
  damaged : ∃ row content, t.streams.get? (.text id) = some row ∧ content.isObject = true ∧
    t'.streams.get? (.text id) = some { row with content := content }
  streams_eq : ∀ k, .text id ≠ k → t'.streams.get? k = t.streams.get? k
  folders_eq : ∀ k, .text id ≠ k → t'.folders.get? k = t.folders.get? k

/-- No damage at all is damage too. -/
theorem damages_self {id : String} {row : Stream} (hrow : t.streams.get? (.text id) = some row)
    (hobj : row.content.isObject = true) : t.Damages t id where
  events_eq := rfl
  damaged := ⟨row, row.content, hrow, hobj, hrow⟩
  streams_eq := fun _ _ => rfl
  folders_eq := fun _ _ => rfl

variable {id : String} {row : Stream}

theorem Damages.exists_content (h : t.Damages t' id)
    (hrow : t.streams.get? (.text id) = some row) : ∃ content, content.isObject = true ∧
      t'.streams.get? (.text id) = some { row with content := content } := by
  obtain ⟨row', content, hrow', hobj, hdamaged⟩ := h.damaged
  obtain rfl := Option.some.inj (hrow.symm.trans hrow')
  exact ⟨content, hobj, hdamaged⟩

theorem Damages.streamsNamed (h : t.Damages t' id) (hn : t.StreamsNamed) : t'.StreamsNamed := by
  intro k row' hrow'
  by_cases hk : .text id = k
  · subst hk
    obtain ⟨row, content, hrow, -, hdamaged⟩ := h.damaged
    obtain rfl := Option.some.inj (hdamaged.symm.trans hrow')
    exact hn _ row hrow
  · rw [h.streams_eq k hk] at hrow'
    exact hn k row' hrow'

/-- Writing the row and the folder that were there takes all damage back. -/
theorem Damages.undone (h : t.Damages t' id) {f : Folder}
    (hrow : t.streams.get? (.text id) = some row) (hf : t.folders.get? (.text id) = some f) :
    (t'.setStream (.text id) row).withFolder id f = t := by
  have hstreams : t'.streams.insert (.text id) row = t.streams := by
    refine Table.ext_get? fun k => ?_
    rw [Table.get?_insert]
    split
    · rename_i hk
      rw [← hk, hrow]
    · rename_i hk
      exact h.streams_eq k hk
  have hfolders : t'.folders.insert (.text id) f = t.folders := by
    refine Table.ext_get? fun k => ?_
    rw [Table.get?_insert]
    split
    · rename_i hk
      rw [← hk, hf]
    · rename_i hk
      exact h.folders_eq k hk
  unfold setStream withFolder
  rw [hstreams, hfolders, h.events_eq]

theorem Damages.chainOf_eq (h : t.Damages t' id) (hrow : t.streams.get? (.text id) = some row)
    (hobj : row.content.isObject = true) (b : Backend) (tip : Json) :
    Engine.chainOf b t' (.str id) tip = Engine.chainOf b t (.str id) tip := by
  obtain ⟨content, hcontent, hdamaged⟩ := h.exists_content hrow
  have hstart : ∀ cid, Engine.startOf b t' (.str id) cid = Engine.startOf b t (.str id) cid := by
    intro cid
    unfold Engine.startOf event?
    rw [h.events_eq]
  have hevents : ∀ genesis, t'.eventsOf b genesis = t.eventsOf b genesis := by
    intro genesis
    unfold eventsOf
    rw [h.events_eq]
  unfold Engine.chainOf
  rw [stream?_of_some hdamaged hcontent, stream?_of_some hrow hobj]
  simp only [Engine.found, ok_bind, hstart, hevents]

end Tables

/-! ## What a rebuild writes -/

namespace Engine

variable {en en' : Engine} {t t' : Tables} {e : Event} {c g id : String} {claim : OwnerClaim}
  {held : Held} {r : Receipt} {row : Stream}

/-- What a rebuild gives on damaged tables: the row as it was, and the tables as they were. -/
theorem rebuilt_of_damages (hs : t.Sound en.backend) (hpaired : t.Paired en.backend en.extract)
    (hx : en.backend.isRelational = true → Index.MapsEqual en.extract)
    (hopen : en.store.isOpen = true) (hrow : t.streams.get? (.text id) = some row)
    (hdamages : t.Damages en.tables id) : ∃ content, en.backend.Agree content row.content ∧
      en.rebuilt (.str id) = .ok ({ row with content := content }, ⟨t, en.archive⟩) := by
  obtain ⟨g, tip, chain, s, hkey, hp⟩ := hs.projects _ row hrow
  obtain rfl : id = Ident.streamId g := Key.text.inj hkey
  obtain ⟨c, hc⟩ := hs.binding.text tip hp.stored
  obtain ⟨f, signal, hf, hwritten⟩ := hpaired.exists_written hx hrow hp
  obtain ⟨damaged, hobj, hdamaged⟩ := hdamages.exists_content hrow
  have htip : row.tip = .str c := hp.tip_eq.trans hc
  have hshape : checkShape (.str (Ident.streamId g)) = .ok () := by
    simp [checkShape, Ident.isStreamId_streamId]
  have hisOpen : en.checkOpen = .ok () := by simp [checkOpen, hopen]
  have hchain : chainOf en.backend en.tables (.str (Ident.streamId g)) .null = .ok chain := by
    rw [hdamages.chainOf_eq hrow hp.isObject]
    exact hs.chainOf_tip hrow hp
  have hread : en.tables.stream? en.backend (.str (Ident.streamId g)) =
      .ok (some { row with content := damaged }) := Tables.stream?_of_some hdamaged hobj
  -- The swap from the tip to itself finds the damaged row, since damage spares the tip.
  have hswap : en.tables.swapTip en.backend (.str (Ident.streamId g)) s.tip s.tip s.content =
      .ok (true, en.tables.setStream (.text (Ident.streamId g)) row) := by
    rw [hp.tip_of_fold, hc, Tables.swapTip_of_eq (hdamages.streamsNamed hs.streamsNamed) hdamaged
      htip, if_pos hwritten.takes, ← hwritten.content_eq, ← htip]
  have hrefresh : Index.refreshed en.backend en.extract
      (en.tables.setStream (.text (Ident.streamId g)) row) (.str (Ident.streamId g)) s.tip
      s.content = .ok t := by
    have hfolder : f = ⟨.str (Ident.streamId g), .str c, signal.map en.backend.keptJson⟩ := by
      rw [hwritten.folder_eq, hp.id_eq, htip]
    rw [hp.tip_of_fold, hc, Index.refreshed_eq, hwritten.extracted]
    dsimp only
    rw [← hfolder, hdamages.undone hrow hf]
  refine ⟨s.content, ?_, ?_⟩
  · rw [hp.content_eq]
    exact (Backend.agree_keptJson hp.sane.tidy).symm
  · unfold rebuilt refolded
    simp only [hshape, hisOpen, hchain, hp.fold, hread, hswap, hrefresh, found, ok_bind, if_true,
      pure_eq_ok]

/-! ## Rows and folders are written together -/

/-- Filing an event writes a row and its folder together, or neither. -/
theorem paired_of_filed (hs : t.Sound en.backend) (hfits : Held.Fits en.backend t held)
    (hpaired : t.Paired en.backend en.extract) (hwf : e.WellFormed) (hc : e.cid = .str c)
    (hg : e.genesis = .str g)
    (h : en.ruling t e (.str (Ident.streamId g)) claim held = .ok (r, t')) :
    t'.Paired en.backend en.extract := by
  cases filed_of_ruling hs hwf hc hg h with
  | duplicate _ _ ht => exact ht ▸ hpaired
  | beside _ _ _ _ ht => exact ht ▸ hpaired.of_eq rfl rfl
  | created hnew hprev hrow =>
      rw [ruling_of_null hwf hc hnew hprev] at h
      obtain ⟨owner, -, h⟩ := bind_eq_ok.mp h
      obtain ⟨s, signal, hstate, htakes, hsignal, -, rfl⟩ :=
        Resolution.exists_of_creation hwf hc hnew hrow h
      have hsane := Fold.State.sane_of_ofGenesis hstate
      have htip : s.tip = e.cid := Fold.State.tip_of_ofGenesis hstate
      have hwritten : Index.Written en.backend en.extract
          (Resolution.firstRow en.backend (Ident.streamId g) owner s)
          ⟨.str (Ident.streamId g), e.cid, signal.map en.backend.keptJson⟩ s.content signal :=
        ⟨htakes, hsane.tidy, hsane.object, hsignal, rfl, by rw [← htip]; rfl⟩
      exact hpaired.insert rfl rfl hwritten
  | @advanced row parent s hnew hparent hprev hgenesis hrow hmoves hstate =>
      rw [ruling_of_parent hs hwf hc hnew hparent hprev hgenesis hrow] at h
      obtain ⟨g', tip, chain, f, hkey, hp⟩ := hs.projects _ row hrow
      obtain ⟨c', hc', -⟩ := (hs.wellFormed_of_stores hp.stored).cid_text
      have hid : row.id = .str (Ident.streamId g) := by
        rw [hp.id_eq]
        simpa using hkey.symm
      obtain ⟨s', signal, hstate', htakes, hsignal, -, rfl⟩ := Resolution.exists_of_advancement
        hs.streamsNamed hwf hc hnew hid hrow (hp.tip_eq.trans hc') hmoves h
      have hcurrent : (Resolution.currentOf held row).Sane :=
        (agree_currentOf hfits hrow hp).sane hp.sane
      have hsane := Fold.State.sane_of_advance hcurrent hstate'
      have hwritten : Index.Written en.backend en.extract
          { row with tip := e.cid, content := en.backend.keptJson s'.content }
          ⟨.str (Ident.streamId g), e.cid, signal.map en.backend.keptJson⟩ s'.content signal :=
        ⟨htakes, hsane.tidy, hsane.object, hsignal, rfl, by rw [← hid]⟩
      exact hpaired.insert rfl rfl hwritten

theorem Steady.paired_of_submit (hst : en.Steady) (hpaired : en.tables.Paired en.backend en.extract)
    (e : Event) (claim : OwnerClaim) :
    (en.submit e claim).2.tables.Paired en.backend en.extract := by
  cases hst.commits e claim with
  | failed f d heq =>
      rw [heq]
      exact hpaired
  | answered c g r h d hadm hwf hc hg hres hfiled heq =>
      rw [heq]
      exact paired_of_filed hst.sound hst.fits hpaired hwf hc hg
        (ruling_of_acceptance (hwf.streamOf_eq hg) hres)

/-- On tables without damage a rebuild that succeeds changes nothing. -/
theorem Steady.tables_of_rebuild (hst : en.Steady)
    (hpaired : en.tables.Paired en.backend en.extract)
    (hx : en.backend.isRelational = true → Index.MapsEqual en.extract) (id : Json) :
    (en.rebuild id).2.tables = en.tables := by
  obtain ⟨d, hd, -⟩ := en.rebuild_eq id
  rw [hd]
  cases hres : en.rebuilt id with
  | error f => rfl
  | ok p =>
      obtain ⟨row', h⟩ := p
      obtain ⟨-, x, row, g, tip, chain, s, signal, hrefreshes⟩ := exists_refreshes hst.sound hres
      obtain ⟨f, signal', hf, hwritten⟩ :=
        hpaired.exists_written hx hrefreshes.found hrefreshes.projects
      obtain rfl := Except.ok.inj (hwritten.extracted.symm.trans hrefreshes.extracted)
      obtain ⟨x', hkey, hid⟩ := hst.sound.streamsNamed _ row hrefreshes.found
      obtain rfl : x = x' := Key.text.inj hkey
      have hfolder := hwritten.folder_eq
      rw [hid, hrefreshes.projects.tip_eq] at hfolder
      show h.tables = en.tables
      rw [hrefreshes.tables_eq, ← hfolder]
      unfold Tables.withFolder
      rw [Table.insert_of_get? hf]

theorem Steady.paired_of_perform (hst : en.Steady)
    (hpaired : en.tables.Paired en.backend en.extract)
    (hx : en.backend.isRelational = true → Index.MapsEqual en.extract) (op : Operation) :
    (en.perform op).2.tables.Paired en.backend en.extract := by
  cases op with
  | submit e claim => exact hst.paired_of_submit hpaired e claim
  | rebuild id =>
      have htables : (en.perform (.rebuild id)).2.tables = en.tables :=
        hst.tables_of_rebuild hpaired hx id
      rw [htables]
      exact hpaired
  | branch | getStream | getFolder | getEvent | loadEvents | listStreams | findByContent
  | queryBySignal | signals | register => exact hpaired

theorem Steady.paired_after (hst : en.Steady) (hpaired : en.tables.Paired en.backend en.extract)
    (hx : en.backend.isRelational = true → Index.MapsEqual en.extract) (ops : List Operation) :
    (en.after ops).tables.Paired en.backend en.extract := by
  induction ops generalizing en with
  | nil => exact hpaired
  | cons op rest ih =>
      have hsetup := perform_sameSetup en op
      have hstep := hst.paired_of_perform hpaired hx op
      rw [← hsetup.backend_eq, ← hsetup.extract_eq] at hx hstep
      have hrest := ih (hst.perform op) hstep hx
      rw [hsetup.backend_eq, hsetup.extract_eq] at hrest
      exact hrest

/-! ## Damage and repair -/

/--
An engine in which a stream has been damaged: the content of its row and its folder may be
others, and anything may be held.
-/
structure Damaged (en en' : Engine) (id : String) : Prop where
  setup : en.SameSetup en'
  archive_eq : en'.archive = en.archive
  damages : en.tables.Damages en'.tables id

/--
A rebuild succeeds and leaves the holdings that another engine has.  What it returns is the
row, but for the order of the members of its content.
-/
structure Restores (en en' : Engine) (id : String) (row : Stream) : Prop where
  returns : ∃ content, content.canonical = row.content.canonical ∧
    (en'.rebuild (.str id)).1 = .ok { row with content := content }
  tables_eq : (en'.rebuild (.str id)).2.tables = en.tables
  archive_eq : (en'.rebuild (.str id)).2.archive = en.archive

theorem restores_of_damaged (hst : en.Steady) (hpaired : en.tables.Paired en.backend en.extract)
    (hx : en.backend.isRelational = true → Index.MapsEqual en.extract)
    (hopen : en.store.isOpen = true) (hrow : en.tables.streams.get? (.text id) = some row)
    (hdamaged : en.Damaged en' id) : en.Restores en' id row := by
  obtain ⟨hsetup, harchive, hdamages⟩ := hdamaged
  obtain ⟨d, hd, -⟩ := en'.rebuild_eq (.str id)
  obtain ⟨content, hagree, hres⟩ : ∃ content, en'.backend.Agree content row.content ∧
      en'.rebuilt (.str id) = .ok ({ row with content := content }, ⟨en.tables, en'.archive⟩) := by
    refine rebuilt_of_damages ?_ ?_ ?_ (hsetup.isOpen_eq.trans hopen) hrow hdamages
    · rw [hsetup.backend_eq]
      exact hst.sound
    · rw [hsetup.backend_eq, hsetup.extract_eq]
      exact hpaired
    · rw [hsetup.backend_eq, hsetup.extract_eq]
      exact hx
  rw [hres] at hd
  constructor
  case returns => exact ⟨content, hagree.canonical_eq, by rw [hd]; rfl⟩
  case tables_eq => rw [hd]; rfl
  case archive_eq => rw [hd]; exact harchive

/-- What a rebuild does to a stream, whether it is damaged or not. -/
structure Rebuilds (en : Engine) (id : String) (row : Stream) : Prop where
  /-- The row is what is read of the stream. -/
  read : (en.getStream (.str id)).1 = .ok row
  /-- Nothing changes where nothing is damaged. -/
  idle : en.Restores en id row
  /-- All damage to the stream is taken back, and no other stream is touched. -/
  repairs : ∀ en', en.Damaged en' id → en.Restores en' id row

/--
Whatever a run has come to, a rebuild of a stream succeeds.  It gives back exactly the row
and the folder that the run has left, also after the content of the row and the folder
have been replaced, and whatever is held.
-/
theorem Fresh.rebuild_restores (h : en.Fresh) (hopen : en.store.isOpen = true)
    (hx : en.backend.isRelational = true → Index.MapsEqual en.extract) (ops : List Operation)
    {id : String} {row : Stream}
    (hrow : (en.after ops).tables.streams.get? (.text id) = some row) :
    (en.after ops).Rebuilds id row := by
  have hsetup := after_sameSetup en ops
  have hempty : en.tables.Paired en.backend en.extract :=
    h.tables_eq ▸ Tables.paired_empty en.backend en.extract
  have hst := h.steady.after ops
  have hpaired := h.steady.paired_after hempty hx ops
  rw [← hsetup.backend_eq, ← hsetup.extract_eq] at hpaired hx
  have hisOpen : (en.after ops).store.isOpen = true := hsetup.isOpen_eq.trans hopen
  obtain ⟨g, tip, chain, s, hkey, hp⟩ := hst.sound.projects _ row hrow
  obtain rfl : id = Ident.streamId g := Key.text.inj hkey
  have hrepairs : ∀ en', (en.after ops).Damaged en' (Ident.streamId g) →
      (en.after ops).Restores en' (Ident.streamId g) row :=
    fun en' hdamaged => restores_of_damaged hst hpaired hx hisOpen hrow hdamaged
  constructor
  case read =>
    rw [getStream_eq]
    unfold streamFound
    rw [Tables.stream?_of_some hrow hp.isObject]
    simp [checkShape, Ident.isStreamId_streamId, checkOpen, hisOpen, found]
  case idle =>
    exact hrepairs _ ⟨.refl _, rfl, Tables.damages_self hrow hp.isObject⟩
  case repairs => exact hrepairs

/-- An engine with another content of a stream, another folder of it, and nothing held. -/
def spoiled (en : Engine) (id : String) (row : Stream) (content : Json) (f : Folder) : Engine :=
  { en with desk := { en.desk with recent := none } }.withHoldings
    ⟨(en.tables.setStream (.text id) { row with content := content }).withFolder id f, en.archive⟩

theorem damaged_spoiled (hrow : en.tables.streams.get? (.text id) = some row) {content : Json}
    (hobj : content.isObject = true) (f : Folder) :
    en.Damaged (en.spoiled id row content f) id where
  setup := ⟨rfl, rfl, rfl, rfl⟩
  archive_eq := rfl
  damages := by
    refine ⟨rfl, ⟨row, content, hrow, hobj, Table.get?_insert_self⟩, ?_, ?_⟩
    · intro k hk
      exact Table.get?_insert_of_ne hk
    · intro k hk
      exact Table.get?_insert_of_ne hk

/-- The content of a stream has been lost and its folder is an old one; a rebuild mends both. -/
theorem rebuild_restores_sample :
    let en := (sampleEngine .sqlite (some (.empty (.ofNat 1)))).after
      [.submit sampleGenesis sampleOwner,
        .submit (sampleSignal "second" "first" (some (.obj [("kind", .str "a")]))) .none,
        .submit (sampleUpdate "third" "first" 3) .none]
    let id := Ident.streamId "first"
    let row := en.tables.streams.values.headD ⟨.null, ⟨0, by decide⟩, .null, .null, .null, .null⟩
    let spoilt := en.spoiled id row (.obj []) ⟨.str id, .str "first", none⟩
    en.Rebuilds id row ∧ spoilt.tables ≠ en.tables ∧
      (spoilt.rebuild (.str id)).2.tables = en.tables := by
  intro en id row spoilt
  have hfresh := sampleEngine_fresh .sqlite (.ofNat 1)
  have hrow : en.tables.streams.get? (.text id) = some row := by decide +kernel
  have hrebuilds := hfresh.rebuild_restores rfl (fun _ => Index.mapsEqual_ownSignal) _ hrow
  have hdamaged : en.Damaged spoilt id := damaged_spoiled hrow rfl _
  refine ⟨hrebuilds, by decide +kernel, ?_⟩
  exact (hrebuilds.repairs spoilt hdamaged).tables_eq

end Engine

end ChainFold
