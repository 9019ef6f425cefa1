import ChainFold.Proofs.Engine.Provenance
import ChainFold.Proofs.Json.Reading
import ChainFold.Proofs.Signal

/-!
# The index is never stale

In every run that starts from an empty store each stream has one folder, with the tip of
the stream and the signal of its content, and no other folder is there.  Look-ups by
signal therefore find exactly the streams whose contents yield a signal that is asked for.
-/

namespace ChainFold

/-! ## Extractors -/

namespace Index

/-- An extractor that derives equal signals, or none, from equal objects. -/
structure MapsEqual (extract : Extractor) : Prop where
  equal : ∀ x y, x.isObject = true → x.Alike y →
    (extract x).map (Option.map Json.sortKeys) = (extract y).map (Option.map Json.sortKeys)
  tidy : ∀ x signal, x.isObject = true → x.Tidy → extract x = .ok (some signal) → signal.Tidy

end Index

namespace Signal

open Json

variable {ms : Members} {signal : Json}

theorem tidy_of_among? (h : (obj ms).Tidy) (hsignal : among? ms = some signal) : signal.Tidy := by
  obtain ⟨hget, -⟩ := Option.filter_eq_some_iff.mp hsignal
  exact (tidy_obj_iff.mp h).2 _ (Members.mem_of_get? hget)

theorem tidy_of_decodeWith {decoder : List Char → Except Text.Base64.Fault Bytes}
    {cs : List Char} (h : decodeWith decoder cs = some ms) : (obj ms).Tidy := by
  unfold decodeWith at h
  split at h
  · cases h
  · split at h
    · rename_i j hread
      have htidy := tidy_of_readBytes hread
      cases j with
      | obj ns =>
          obtain rfl := Option.some.inj h
          exact htidy
      | null | bool | int | double | str | arr => cases h
    · cases h

theorem tidy_of_options? {j : Json} (hj : j.Tidy) (h : options? j = some ms) : (obj ms).Tidy := by
  cases j with
  | obj ns =>
      obtain rfl := Option.some.inj h
      exact hj
  | str s =>
      simp only [options?] at h
      split at h
      · cases h
      · rcases Option.or_eq_some_iff.mp h with h | ⟨-, h⟩
        · exact tidy_of_decodeWith h
        · exact tidy_of_decodeWith h
  | null | bool | int | double | arr => cases h

theorem tidy_of_ofContent? {content : Json} (hcontent : content.Tidy)
    (h : ofContent? content = some signal) : signal.Tidy := by
  cases content with
  | obj ns =>
      rcases Option.or_eq_some_iff.mp h with h | ⟨-, h⟩
      · exact tidy_of_among? hcontent h
      · obtain ⟨os, hoptions, hsignal⟩ := Option.bind_eq_some_iff.mp h
        exact tidy_of_among? (tidy_of_options? (hcontent.field "options") hoptions) hsignal
  | null | bool | int | double | str | arr => cases h

end Signal

namespace Index

/-- The extractor that is used when no other is given is one of them. -/
theorem mapsEqual_ownSignal : MapsEqual ownSignal where
  equal := fun x y _ h => ignoresKeyOrder_ownSignal x y h
  tidy := fun _ _ _ htidy h => Signal.tidy_of_ofContent? htidy (Except.ok.inj h)

/-! ## Folders that are up to date -/

/-- A folder shows a row: its tip, and the signal that is derived from its content. -/
structure Shows (extract : Extractor) (row : Stream) (f : Folder) : Prop where
  stream_eq : f.stream = row.id
  tip_eq : f.tip = row.tip
  signal_alike : ∃ signal, extract row.content = .ok signal ∧ Json.AlikePart f.signal signal

variable {extract : Extractor} {b : Backend} {row : Stream} {f : Folder}

/-- A folder that is written with a content shows the row that keeps the content. -/
theorem MapsEqual.shows (h : MapsEqual extract) (row : Stream) {content : Json}
    (htidy : content.Tidy) (hobj : content.isObject = true) {signal : Option Json}
    (hsignal : extract content = .ok signal)
    (hrow : row.content = b.keptJson content) :
    Shows extract row ⟨row.id, row.tip, signal.map b.keptJson⟩ := by
  have hkept : row.content.Alike content := hrow ▸ Backend.alike_keptJson htidy
  have hrowObj : row.content.isObject = true := hkept.isObject_eq.trans hobj
  have hequal := h.equal row.content content hrowObj hkept
  rw [hsignal] at hequal
  cases hextract : extract row.content with
  | error d =>
      rw [hextract] at hequal
      cases hequal
  | ok found =>
      rw [hextract] at hequal
      have hsorted : found.map Json.sortKeys = signal.map Json.sortKeys := Except.ok.inj hequal
      refine ⟨rfl, rfl, found, hextract, Json.alikePart_iff.mpr ⟨?_, ?_, ?_⟩⟩
      · intro x hx
        obtain ⟨j, rfl, rfl⟩ := Option.map_eq_some_iff.mp hx
        exact (Backend.alike_keptJson (h.tidy content j hobj htidy hsignal)).left
      · intro y hy
        subst hy
        exact h.tidy row.content y hrowObj hkept.left hextract
      · rw [hsorted, Option.map_map]
        cases signal with
        | none => rfl
        | some j =>
            have hj := h.tidy content j hobj htidy hsignal
            exact congrArg some (Backend.alike_keptJson hj).sorted

theorem Shows.canonical_eq (h : Shows extract row f) : ∃ signal,
    extract row.content = .ok signal ∧ f.signal.map Json.canonical = signal.map Json.canonical := by
  obtain ⟨signal, hsignal, halike⟩ := h.signal_alike
  refine ⟨signal, hsignal, ?_⟩
  rcases halike.cases with ⟨hx, hy⟩ | ⟨x, y, hx, hy, halike⟩
  · rw [hx, hy]
  · rw [hx, hy]
    exact congrArg some halike.canonical_eq

/-- A folder yields what is asked for exactly if the content of its stream does. -/
theorem Shows.any_contains_iff (h : Shows extract row f) (wanted : Json) :
    f.signal.any (Signal.contains · wanted) = true ↔
      ∃ signal, extract row.content = .ok (some signal) ∧
        Signal.contains signal wanted = true := by
  obtain ⟨signal, hsignal, hpart⟩ := h.signal_alike
  rcases hpart.cases with ⟨hx, rfl⟩ | ⟨x, y, hx, rfl, halike⟩
  · simp [hx, hsignal]
  · simp [hx, hsignal, Signal.contains_eq_of_alike halike]

end Index

/-! ## Tables with an index -/

namespace Tables

/-- Each stream has a folder that shows it, and there is no other folder. -/
structure Indexed (extract : Extractor) (t : Tables) : Prop where
  shown : ∀ k row, t.streams.get? k = some row →
    ∃ f, t.folders.get? k = some f ∧ Index.Shows extract row f
  no_other : ∀ k f, t.folders.get? k = some f → ∃ row, t.streams.get? k = some row

variable {extract : Extractor} {b : Backend} {t t' : Tables}

theorem indexed_empty (extract : Extractor) : Indexed extract .empty := by
  constructor
  · intro k row hrow
    simp [empty] at hrow
  · intro k f hf
    simp [empty] at hf

theorem Indexed.of_eq (h : t.Indexed extract) (hstreams : t'.streams = t.streams)
    (hfolders : t'.folders = t.folders) : t'.Indexed extract := by
  constructor
  · rw [hstreams, hfolders]
    exact h.shown
  · rw [hstreams, hfolders]
    exact h.no_other

theorem Indexed.insert (h : t.Indexed extract) {key : Key} {row : Stream} {f : Folder}
    (hstreams : t'.streams = t.streams.insert key row)
    (hfolders : t'.folders = t.folders.insert key f) (hshows : Index.Shows extract row f) :
    t'.Indexed extract := by
  constructor
  · intro k row' hrow'
    rw [hstreams, Table.get?_insert] at hrow'
    rw [hfolders]
    by_cases hk : key = k
    · rw [if_pos hk] at hrow'
      obtain rfl := Option.some.inj hrow'
      exact ⟨f, by rw [hk, Table.get?_insert_self], hshows⟩
    · rw [if_neg hk] at hrow'
      rw [Table.get?_insert_of_ne hk]
      exact h.shown k row' hrow'
  · intro k f' hf'
    rw [hfolders, Table.get?_insert] at hf'
    rw [hstreams]
    by_cases hk : key = k
    · exact ⟨row, by rw [hk, Table.get?_insert_self]⟩
    · rw [if_neg hk] at hf'
      rw [Table.get?_insert_of_ne hk]
      exact h.no_other k f' hf'

/-! ## Look-ups -/

/-- A look-up for an object collects the streams of the folders that yield it. -/
theorem matching_eq {wanted : Json} (hobj : wanted.isObject = true) (fs : List Folder) :
    Index.matching (.contains wanted) fs =
      .ok ((fs.filter fun f => f.signal.any (Signal.contains · wanted)).map Folder.stream) := by
  induction fs with
  | nil => rfl
  | cons f rest ih =>
      have hsatisfies : Signal.satisfies f.signal (.contains wanted) =
          .ok (f.signal.any (Signal.contains · wanted)) := by
        unfold Signal.satisfies
        cases f.signal with
        | none => rfl
        | some j => simp [hobj]
      unfold Index.matching
      simp only [hsatisfies, ih, List.filter_cons]
      cases f.signal.any (Signal.contains · wanted) <;> rfl

/-- The streams of some folders, in the order of their keys. -/
theorem exists_ids {rows : List (Key × Folder)} (hasc : rows.Pairwise fun a b => a.1.before b.1)
    (hnamed : ∀ p ∈ rows, ∃ id, p.1 = .text id ∧ p.2.stream = .str id) (test : Folder → Bool) :
    ∃ ids : List String, ((rows.map (·.2)).filter test).map Folder.stream = ids.map .str ∧
      ids.Pairwise (· < ·) ∧ ∀ id, id ∈ ids ↔ ∃ f, (Key.text id, f) ∈ rows ∧ test f = true := by
  induction rows with
  | nil => exact ⟨[], rfl, .nil, by simp⟩
  | cons p rest ih =>
      obtain ⟨k, f⟩ := p
      obtain ⟨hhead, hrest⟩ := List.pairwise_cons.mp hasc
      obtain ⟨⟨id, rfl, hid⟩, hothers⟩ := List.forall_mem_cons.mp hnamed
      obtain ⟨ids, heq, hids, hmem⟩ := ih hrest hothers
      have hnone : ∀ f', (Key.text id, f') ∉ rest := by
        intro f' hf'
        exact Key.ne_of_before (hhead _ hf') rfl
      cases htest : test f with
      | false =>
          refine ⟨ids, by simpa [htest] using heq, hids, ?_⟩
          intro id'
          rw [hmem id']
          constructor
          · rintro ⟨f', hf', htest'⟩
            exact ⟨f', List.mem_cons_of_mem _ hf', htest'⟩
          · rintro ⟨f', hf', htest'⟩
            rcases List.mem_cons.mp hf' with heq' | hf'
            · obtain ⟨-, rfl⟩ := Prod.mk.inj heq'
              rw [htest] at htest'
              cases htest'
            · exact ⟨f', hf', htest'⟩
      | true =>
          refine ⟨id :: ids, by simpa [htest] using ⟨hid, heq⟩, ?_, ?_⟩
          · refine List.pairwise_cons.mpr ⟨?_, hids⟩
            intro id' hid'
            obtain ⟨f', hf', -⟩ := (hmem id').mp hid'
            simpa using hhead _ hf'
          · intro id'
            rw [List.mem_cons, hmem id']
            constructor
            · rintro (rfl | ⟨f', hf', htest'⟩)
              · exact ⟨f, List.mem_cons_self, htest⟩
              · exact ⟨f', List.mem_cons_of_mem _ hf', htest'⟩
            · rintro ⟨f', hf', htest'⟩
              rcases List.mem_cons.mp hf' with heq' | hf'
              · obtain ⟨hkey, -⟩ := Prod.mk.inj heq'
                exact .inl (Key.text.inj hkey)
              · exact .inr ⟨f', hf', htest'⟩

/-- A look-up for an object finds the streams whose contents yield a signal with it. -/
theorem Indexed.exists_query (h : t.Indexed extract) (hn : t.StreamsNamed) {wanted : Json}
    (hobj : wanted.isObject = true) : ∃ ids : List String,
      Index.query t (.contains wanted) = .ok (ids.map .str) ∧ ids.Pairwise (· < ·) ∧
        ∀ id, id ∈ ids ↔ ∃ row signal, t.streams.get? (.text id) = some row ∧
          extract row.content = .ok (some signal) ∧ Signal.contains signal wanted = true := by
  have hnamed : ∀ k f, t.folders.get? k = some f → ∃ id, k = .text id ∧ f.stream = .str id := by
    intro k f hf
    obtain ⟨row, hrow⟩ := h.no_other k f hf
    obtain ⟨f', hf', hshows⟩ := h.shown k row hrow
    obtain rfl := Option.some.inj (hf.symm.trans hf')
    obtain ⟨id, hk, hid⟩ := hn k row hrow
    exact ⟨id, hk, hshows.stream_eq.trans hid⟩
  have hordered : Backend.ordered t.folders = .ok t.folders.values := by
    refine Backend.ordered_of_texts fun k f hf => ?_
    obtain ⟨id, hk, -⟩ := hnamed k f hf
    exact ⟨id, hk⟩
  obtain ⟨ids, heq, hids, hmem⟩ := exists_ids t.folders.ascending
    (fun p hp => hnamed p.1 p.2 (Table.mem_rows_iff.mp hp))
    (fun f => f.signal.isSome && f.signal.any (Signal.contains · wanted))
  refine ⟨ids, ?_, hids, ?_⟩
  · rw [← heq]
    simp only [Index.query, Tables.signalFolders, hordered, map_ok, ok_bind, matching_eq hobj,
      List.filter_filter, Table.values, Bool.and_comm]
  · intro id
    rw [hmem id]
    constructor
    · rintro ⟨f, hf, htest⟩
      have hget := Table.mem_rows_iff.mp hf
      obtain ⟨row, hrow⟩ := h.no_other _ f hget
      obtain ⟨f', hf', hshows⟩ := h.shown _ row hrow
      obtain rfl := Option.some.inj (hget.symm.trans hf')
      obtain ⟨signal, hsignal, hcontains⟩ :=
        (hshows.any_contains_iff wanted).mp (Bool.and_eq_true _ _ ▸ htest).2
      exact ⟨row, signal, hrow, hsignal, hcontains⟩
    · rintro ⟨row, signal, hrow, hsignal, hcontains⟩
      obtain ⟨f, hf, hshows⟩ := h.shown _ row hrow
      have hany := (hshows.any_contains_iff wanted).mpr ⟨signal, hsignal, hcontains⟩
      refine ⟨f, Table.mem_rows_iff.mpr hf, ?_⟩
      cases hs : f.signal with
      | none => simp [hs] at hany
      | some j => simpa [hs] using hany

end Tables

/-! ## Calls keep the index -/

namespace Engine

variable {en : Engine} {t t' : Tables} {e : Event} {c g : String} {claim : OwnerClaim}
  {held : Held} {r : Receipt}

/-- Filing an event writes a folder with each row that it writes, and no other folder. -/
theorem indexed_of_filed (hx : Index.MapsEqual en.extract) (hs : t.Sound en.backend)
    (hfits : Held.Fits en.backend t held) (hi : t.Indexed en.extract) (hwf : e.WellFormed)
    (hc : e.cid = .str c) (hg : e.genesis = .str g)
    (h : en.ruling t e (.str (Ident.streamId g)) claim held = .ok (r, t')) :
    t'.Indexed en.extract := by
  cases filed_of_ruling hs hwf hc hg h with
  | duplicate _ _ ht => exact ht ▸ hi
  | beside _ _ _ _ ht => exact ht ▸ hi.of_eq rfl rfl
  | created hnew hprev hrow =>
      rw [ruling_of_null hwf hc hnew hprev] at h
      obtain ⟨owner, -, h⟩ := bind_eq_ok.mp h
      obtain ⟨s, signal, hstate, -, hsignal, -, rfl⟩ :=
        Resolution.exists_of_creation hwf hc hnew hrow h
      have hsane := Fold.State.sane_of_ofGenesis hstate
      have htip : s.tip = e.cid := Fold.State.tip_of_ofGenesis hstate
      have hshows := hx.shows (b := en.backend)
        (Resolution.firstRow en.backend (Ident.streamId g) owner s) hsane.tidy hsane.object hsignal
        rfl
      exact hi.insert rfl rfl (htip ▸ hshows)
  | @advanced row parent s hnew hparent hprev hgenesis hrow hmoves hstate =>
      rw [ruling_of_parent hs hwf hc hnew hparent hprev hgenesis hrow] at h
      obtain ⟨g', tip, chain, f, hkey, hp⟩ := hs.projects _ row hrow
      obtain ⟨c', hc', -⟩ := (hs.wellFormed_of_stores hp.stored).cid_text
      have hid : row.id = .str (Ident.streamId g) := by
        rw [hp.id_eq]
        simpa using hkey.symm
      obtain ⟨s', signal, hstate', -, hsignal, -, rfl⟩ := Resolution.exists_of_advancement
        hs.streamsNamed hwf hc hnew hid hrow (hp.tip_eq.trans hc') hmoves h
      have hcurrent : (Resolution.currentOf held row).Sane :=
        (agree_currentOf hfits hrow hp).sane hp.sane
      have hsane := Fold.State.sane_of_advance hcurrent hstate'
      have hshows := hx.shows (b := en.backend)
        { row with tip := e.cid, content := en.backend.keptJson s'.content } hsane.tidy
        hsane.object hsignal rfl
      exact hi.insert rfl rfl (hid ▸ hshows)

theorem Steady.indexed_of_submit (hst : en.Steady) (hx : Index.MapsEqual en.extract)
    (hi : en.tables.Indexed en.extract) (e : Event) (claim : OwnerClaim) :
    (en.submit e claim).2.tables.Indexed en.extract := by
  cases hst.commits e claim with
  | failed f d heq =>
      rw [heq]
      exact hi
  | answered c g r h d hadm hwf hc hg hres hfiled heq =>
      rw [heq]
      exact indexed_of_filed hx hst.sound hst.fits hi hwf hc hg
        (ruling_of_acceptance (hwf.streamOf_eq hg) hres)

/-- A rebuild writes the folder that shows the row that is there. -/
theorem Steady.indexed_of_rebuild (hst : en.Steady) (hx : Index.MapsEqual en.extract)
    (hi : en.tables.Indexed en.extract) (id : Json) :
    (en.rebuild id).2.tables.Indexed en.extract := by
  obtain ⟨d, hd, -⟩ := en.rebuild_eq id
  rw [hd]
  cases hres : en.rebuilt id with
  | error f => exact hi
  | ok p =>
      obtain ⟨row', h⟩ := p
      obtain ⟨-, x, row, g, tip, chain, s, signal, hrefreshes⟩ := exists_refreshes hst.sound hres
      have hp := hrefreshes.projects
      have hshows := hx.shows row hp.sane.tidy hp.sane.object hrefreshes.extracted hp.content_eq
      obtain ⟨id', hkey, hid⟩ := hst.sound.streamsNamed _ row hrefreshes.found
      obtain rfl : x = id' := Key.text.inj hkey
      rw [hid, hp.tip_eq] at hshows
      have hstreams : h.tables.streams = en.tables.streams.insert (.text x) row := by
        rw [hrefreshes.tables_eq, Table.insert_of_get? hrefreshes.found]
        rfl
      have hfolders : h.tables.folders = en.tables.folders.insert (.text x)
          ⟨.str x, tip.cid, signal.map en.backend.keptJson⟩ := by
        rw [hrefreshes.tables_eq]
        rfl
      exact hi.insert hstreams hfolders hshows

theorem Steady.indexed_of_perform (hst : en.Steady) (hx : Index.MapsEqual en.extract)
    (hi : en.tables.Indexed en.extract) (op : Operation) :
    (en.perform op).2.tables.Indexed en.extract := by
  cases op with
  | submit e claim => exact hst.indexed_of_submit hx hi e claim
  | rebuild id => exact hst.indexed_of_rebuild hx hi id
  | branch | getStream | getFolder | getEvent | loadEvents | listStreams | findByContent
  | queryBySignal | signals | register => exact hi

theorem Steady.indexed_after (hst : en.Steady) (hx : Index.MapsEqual en.extract)
    (hi : en.tables.Indexed en.extract) (ops : List Operation) :
    (en.after ops).tables.Indexed en.extract := by
  induction ops generalizing en with
  | nil => exact hi
  | cons op rest ih =>
      have hextract : (en.perform op).2.extract = en.extract := (perform_sameSetup en op).extract_eq
      have hstep := hst.indexed_of_perform hx hi op
      rw [← hextract] at hx hstep
      have hrest := ih (hst.perform op) hx hstep
      rw [hextract] at hrest
      exact hrest

theorem queryBySignal_eq (en : Engine) (p : Signal.Predicate) :
    (en.queryBySignal p).1 = en.checkOpen >>= fun _ => Index.query en.tables p := by
  obtain ⟨d, hd, -⟩ := observe_of_isPlain (w := en.readBySignal p)
    (reading_isPlain (r := fun t => Index.query t p) (.ofExcept _)) en
  rw [queryBySignal, hd]

/-- What holds of the index of an engine. -/
structure IndexFresh (en : Engine) : Prop where
  /-- A stream and its folder have the same key, so each stream has one folder. -/
  one_each : ∀ k, (∃ f, en.tables.folders.get? k = some f) ↔
    ∃ row, en.tables.streams.get? k = some row
  current : ∀ k row f, en.tables.streams.get? k = some row → en.tables.folders.get? k = some f →
    f.stream = row.id ∧ f.tip = row.tip ∧ ∃ signal, en.extract row.content = .ok signal ∧
      f.signal.map Json.canonical = signal.map Json.canonical
  /-- A look-up for an object finds exactly the streams that yield it, in the order of ids. -/
  query_eq : ∀ wanted, wanted.isObject = true → ∃ ids : List String,
    (en.queryBySignal (.contains wanted)).1 = .ok (ids.map .str) ∧ ids.Pairwise (· < ·) ∧
      ∀ id, id ∈ ids ↔ ∃ row signal, en.tables.streams.get? (.text id) = some row ∧
        en.extract row.content = .ok (some signal) ∧ Signal.contains signal wanted = true

/--
Whatever is submitted, refused, rebuilt and read after the store was empty, the index shows
each stream as it is.
-/
theorem Fresh.index_current (h : en.Fresh) (hopen : en.store.isOpen = true)
    (hx : Index.MapsEqual en.extract) (ops : List Operation) : (en.after ops).IndexFresh := by
  have hsetup := after_sameSetup en ops
  have hempty : en.tables.Indexed en.extract := h.tables_eq ▸ Tables.indexed_empty en.extract
  have hi := h.steady.indexed_after hx hempty ops
  rw [← hsetup.extract_eq] at hi
  have hnamed := (h.steady.after ops).sound.streamsNamed
  constructor
  case one_each =>
    intro k
    constructor
    · rintro ⟨f, hf⟩
      exact hi.no_other k f hf
    · rintro ⟨row, hrow⟩
      obtain ⟨f, hf, -⟩ := hi.shown k row hrow
      exact ⟨f, hf⟩
  case current =>
    intro k row f hrow hf
    obtain ⟨f', hf', hshows⟩ := hi.shown k row hrow
    obtain rfl := Option.some.inj (hf.symm.trans hf')
    exact ⟨hshows.stream_eq, hshows.tip_eq, hshows.canonical_eq⟩
  case query_eq =>
    intro wanted hobj
    have hisOpen : (en.after ops).checkOpen = .ok () := by
      simp [checkOpen, hsetup.isOpen_eq, hopen]
    rw [queryBySignal_eq, hisOpen, ok_bind]
    exact hi.exists_query hnamed hobj

/-- An event behind another one that sets the signal, or takes it away. -/
def sampleSignal (cid prev : String) (signal : Option Json) : Event :=
  sampleEvent cid (.str prev) (.arr [match signal with
    | some j => .obj [("op", .str "add"), ("path", .str "/signal"), ("value", j)]
    | none => .obj [("op", .str "remove"), ("path", .str "/signal")]])

/-- A stream is found by the signal that has come back, and not by one that lost the tip. -/
theorem index_current_sample :
    let signal (kind : String) : Json := .obj [("kind", .str kind), ("n", .int 1)]
    let en := (sampleEngine .sqlite (some (.empty (.ofNat 1)))).after
      [.submit sampleGenesis sampleOwner,
        .submit (sampleSignal "second" "first" (some (signal "a"))) .none,
        .submit (sampleSignal "other" "first" (some (signal "b"))) .none,
        .submit (sampleSignal "third" "second" none) .none,
        .submit (sampleSignal "fourth" "third" (some (signal "c"))) .none]
    let found (kind : String) := (en.queryBySignal (.contains (.obj [("kind", .str kind)]))).1
    en.IndexFresh ∧ [found "b", found "c"] = [.ok [], .ok [.str (Ident.streamId "first")]] := by
  intro signal en found
  have hfresh := sampleEngine_fresh .sqlite (.ofNat 1)
  have hcurrent : en.IndexFresh := hfresh.index_current rfl Index.mapsEqual_ownSignal _
  exact ⟨hcurrent, by decide +kernel⟩

end Engine

end ChainFold
