import ChainFold.Proofs.Signal
import ChainFold.Proofs.Store.Listing
import ChainFold.Proofs.Store.Staging
import ChainFold.Store.Call

/-!
# Tables as a backend keeps them

A relational backend keeps the rows that memory keeps, with the members of contents and
signals in the order of their keys.  Calls with texts for identifiers leave that so: they
are answered what memory answers, as the backend keeps it.
-/

namespace ChainFold

namespace Table

variable {α β : Type}

def map (f : α → β) (t : Table α) : Table β where
  rows := t.rows.map fun p => (p.1, f p.2)
  ascending := List.pairwise_map.mpr t.ascending

theorem lookup_map (f : α → β) (key : Key) (rows : List (Key × α)) :
    lookup key (rows.map fun p => (p.1, f p.2)) = (lookup key rows).map f := by
  induction rows with
  | nil => rfl
  | cons p rest ih =>
      obtain ⟨k, a⟩ := p
      rw [List.map_cons, lookup, lookup, ih]
      split <;> rfl

@[simp] theorem get?_map (f : α → β) (t : Table α) (key : Key) :
    (t.map f).get? key = (t.get? key).map f :=
  lookup_map f key t.rows

@[simp] theorem has_map (f : α → β) (t : Table α) (key : Key) : (t.map f).has key = t.has key := by
  rw [has, has, get?_map, Option.isSome_map]

@[simp] theorem values_map (f : α → β) (t : Table α) : (t.map f).values = t.values.map f := by
  simp only [values, map, List.map_map]
  rfl

theorem map_insert (f : α → β) (t : Table α) (key : Key) (row : α) :
    (t.insert key row).map f = (t.map f).insert key (f row) := by
  refine ext_get? fun k => ?_
  rw [get?_map, get?_insert, get?_insert, get?_map]
  split <;> rfl

theorem map_congr {f g : α → β} {t : Table α}
    (h : ∀ key row, t.get? key = some row → f row = g row) : t.map f = t.map g := by
  refine ext_get? fun k => ?_
  rw [get?_map, get?_map]
  cases hrow : t.get? k with
  | none => rfl
  | some row => rw [Option.map_some, Option.map_some, h k row hrow]

theorem map_map {γ : Type} (f : α → β) (g : β → γ) (t : Table α) :
    (t.map f).map g = t.map fun row => g (f row) := by
  refine ext_get? fun k => ?_
  rw [get?_map, get?_map, get?_map, Option.map_map]
  rfl

theorem map_id (t : Table α) : t.map (fun row => row) = t := by
  refine ext_get? fun k => ?_
  rw [get?_map, Option.map_id']

end Table

/-! ## What is kept -/

namespace Backend

def keptRow (b : Backend) (s : Stream) : Stream := { s with content := b.keptJson s.content }

def keptEntry (b : Backend) (f : Folder) : Folder := { f with signal := f.signal.map b.keptJson }

theorem keptRow_memory : Backend.memory.keptRow = fun s => s := rfl

theorem keptEntry_memory : Backend.memory.keptEntry = fun f => f := by
  funext f
  obtain ⟨stream, tip, signal⟩ := f
  cases signal <;> rfl

end Backend

namespace Tables

variable {b : Backend} {t : Tables}

/-- The tables in which a backend keeps what memory keeps in the given ones. -/
def kept (b : Backend) (t : Tables) : Tables :=
  { events := t.events
    streams := t.streams.map b.keptRow
    folders := t.folders.map b.keptEntry }

/-- Memory keeps tables as they are. -/
theorem kept_memory (t : Tables) : t.kept .memory = t := by
  rw [kept, Backend.keptRow_memory, Backend.keptEntry_memory, Table.map_id, Table.map_id]

theorem kept_empty (b : Backend) : (empty : Tables).kept b = .empty := rfl

theorem kept_setStream (key : Key) (s : Stream) :
    (t.setStream key s).kept b = (t.kept b).setStream key (b.keptRow s) := by
  simp only [kept, setStream, Table.map_insert]

theorem kept_insert_folder (key : Key) (f : Folder) :
    { t with folders := t.folders.insert key f }.kept b =
      { t.kept b with folders := (t.kept b).folders.insert key (b.keptEntry f) } := by
  simp only [kept, Table.map_insert]

end Tables

namespace Answer

def kept (b : Backend) : Answer → Answer
  | .stream s => .stream (s.map b.keptRow)
  | .streams ss => .streams (ss.map b.keptRow)
  | .folder f => .folder (f.map b.keptEntry)
  | .folders fs => .folders (fs.map b.keptEntry)
  | a => a

end Answer

/-! ## What is shown -/

def Stream.shown (s : Stream) : Stream := { s with content := .str s.content.canonical }

def Folder.shown (f : Folder) : Folder :=
  { f with signal := f.signal.map fun j => .str j.canonical }

def Tables.shown (t : Tables) : Tables :=
  { events := t.events
    streams := t.streams.map Stream.shown
    folders := t.folders.map Folder.shown }

namespace Backend

variable {b : Backend}

theorem shown_keptRow {s : Stream} (h : s.content.Tidy) : (b.keptRow s).shown = s.shown := by
  simp only [Stream.shown, keptRow, (alike_keptJson h).canonical_eq]

theorem shown_keptEntry {f : Folder} (h : ∀ j, f.signal = some j → j.Tidy) :
    (b.keptEntry f).shown = f.shown := by
  obtain ⟨stream, tip, signal⟩ := f
  cases signal with
  | none => rfl
  | some j =>
      have hj : j.Tidy := h j rfl
      simp only [Folder.shown, keptEntry, Option.map_some, (alike_keptJson hj).canonical_eq]

end Backend

namespace Answer

def shown : Answer → Answer
  | .stream s => .stream (s.map Stream.shown)
  | .streams ss => .streams (ss.map Stream.shown)
  | .folder f => .folder (f.map Folder.shown)
  | .folders fs => .folders (fs.map Folder.shown)
  | a => a

/-- An answer whose contents and signals have no key twice. -/
def Tidy : Answer → Prop
  | .stream s => ∀ row, s = some row → row.content.Tidy
  | .streams ss => ∀ row ∈ ss, row.content.Tidy
  | .folder f => ∀ row, f = some row → ∀ j, row.signal = some j → j.Tidy
  | .folders fs => ∀ row ∈ fs, ∀ j, row.signal = some j → j.Tidy
  | _ => True

theorem shown_kept {b : Backend} {a : Answer} (h : a.Tidy) : (a.kept b).shown = a.shown := by
  cases a with
  | done | flag | event | events => rfl
  | stream s =>
      cases s with
      | none => rfl
      | some row => simp [kept, shown, Backend.shown_keptRow (h row rfl)]
  | streams ss =>
      simp only [kept, shown, List.map_map, Answer.streams.injEq]
      exact List.map_congr_left fun row hrow => Backend.shown_keptRow (h row hrow)
  | folder f =>
      cases f with
      | none => rfl
      | some row => simp [kept, shown, Backend.shown_keptEntry (h row rfl)]
  | folders fs =>
      simp only [kept, shown, List.map_map, Answer.folders.injEq]
      exact List.map_congr_left fun row hrow => Backend.shown_keptEntry (h row hrow)

end Answer

/-! ## What is asked -/

/-- A value that can be written as the text of a content or a signal. -/
structure Json.Storable (j : Json) : Prop where
  tidy : j.Tidy
  finite : j.isFinite = true

/-- The parts of a stream are of the kinds that every backend keeps. -/
structure Stream.Storable (s : Stream) : Prop where
  id_text : ∃ id, s.id = .str id
  tip_text : ∃ tip, s.tip = .str tip
  account_text : s.account = .null ∨ ∃ a, s.account = .str a
  model_text : s.model = .null ∨ ∃ m, s.model = .str m
  content_object : s.content.isObject = true
  content : s.content.Storable

/-- The parts of a folder are of the kinds that every backend keeps. -/
structure Folder.Storable (f : Folder) : Prop where
  stream_text : ∃ id, f.stream = .str id
  tip_text : ∃ tip, f.tip = .str tip
  signal : ∀ j, f.signal = some j → j.Storable

namespace Call

/-- A call with texts for identifiers, and with values that every backend keeps. -/
def Regular : Call → Prop
  | .event? cid => ∃ c, cid = .str c
  | .insertEvent e => e.Storable
  | .eventsOf genesis => ∃ g, genesis = .str g
  | .stream? id => ∃ i, id = .str i
  | .insertStream s => s.Storable
  | .swapTip id expected new content =>
    (∃ i, id = .str i) ∧ (∃ x, expected = .str x) ∧ (∃ n, new = .str n) ∧
      content.isObject = true ∧ content.Storable
  | .listStreams f => f.Regular
  | .findStream model key value =>
    (∃ m, model = .str m) ∧ (∃ k, key = .str k) ∧ value ≠ .null
  | .folder? id => ∃ i, id = .str i
  | .putFolder f => f.Storable
  | .signalFolders => True

/-- A call that looks no key up, or a backend that can look the key up. -/
def Addressed (b : Backend) : Call → Prop
  | .findStream _ (.str key) _ => b = .sqlite → Path.PlainKey key
  | _ => True

end Call

/-! ## What the rows are -/

namespace Tables

variable {b : Backend} {t : Tables}

/-- Tables with what calls with texts for identifiers leave in them. -/
structure Regular (t : Tables) : Prop where
  named : t.StreamsNamed
  contents : ∀ key s, t.streams.get? key = some s → s.content.isObject = true ∧ s.content.Tidy
  folders : ∀ key f, t.folders.get? key = some f →
    (∃ id, key = .text id) ∧ ∀ j, f.signal = some j → j.Tidy

theorem regular_empty : (empty : Tables).Regular := by
  refine ⟨?_, ?_, ?_⟩
  · intro key row hrow
    cases hrow
  · intro key s hs
    cases hs
  · intro key f hf
    cases hf

theorem Regular.content_of_mem (h : t.Regular) {s : Stream} (hs : s ∈ t.streams.values) :
    s.content.isObject = true ∧ s.content.Tidy := by
  obtain ⟨key, hrow⟩ := Table.mem_values_iff.mp hs
  exact h.contents key s hrow

theorem Regular.setStream (h : t.Regular) {id : String} {s : Stream} (hid : s.id = .str id)
    (hobj : s.content.isObject = true) (htidy : s.content.Tidy) :
    (t.setStream (.text id) s).Regular := by
  refine ⟨setStream_streamsNamed h.named hid, ?_, h.folders⟩
  intro key row hrow
  rw [Tables.setStream, Table.get?_insert] at hrow
  by_cases hkey : Key.text id = key
  · rw [if_pos hkey] at hrow
    obtain rfl := Option.some.inj hrow
    exact ⟨hobj, htidy⟩
  · rw [if_neg hkey] at hrow
    exact h.contents key row hrow

theorem Regular.insert_folder (h : t.Regular) (id : String) {f : Folder}
    (htidy : ∀ j, f.signal = some j → j.Tidy) :
    { t with folders := t.folders.insert (.text id) f }.Regular := by
  refine ⟨streamsNamed_of_streams_eq h.named rfl, h.contents, ?_⟩
  intro key f' hf'
  rw [Table.get?_insert] at hf'
  by_cases hkey : Key.text id = key
  · rw [if_pos hkey] at hf'
    obtain rfl := Option.some.inj hf'
    exact ⟨⟨id, hkey.symm⟩, htidy⟩
  · rw [if_neg hkey] at hf'
    exact h.folders key f' hf'

theorem Regular.kept_named (h : t.Regular) : (t.kept b).StreamsNamed := by
  intro key row hrow
  rw [kept, Table.get?_map] at hrow
  obtain ⟨s, hs, rfl⟩ := Option.map_eq_some_iff.mp hrow
  exact h.named key s hs

theorem Regular.kept_content (h : t.Regular) :
    ∀ s ∈ (t.kept b).streams.values, s.content.isObject = true := by
  intro s hs
  rw [kept, Table.values_map] at hs
  obtain ⟨row, hrow, rfl⟩ := List.mem_map.mp hs
  rw [Backend.keptRow, Backend.isObject_keptJson]
  exact (h.content_of_mem hrow).1

theorem Regular.shown_kept (h : t.Regular) : (t.kept b).shown = t.shown := by
  simp only [shown, kept, Table.map_map]
  congr 1
  · exact Table.map_congr fun key s hs => Backend.shown_keptRow (h.contents key s hs).2
  · exact Table.map_congr fun key f hf => Backend.shown_keptEntry (h.folders key f hf).2

/-! ## Calls on kept rows -/

/-- What a call comes to: an answer and tables that each backend gives as it keeps them. -/
structure Means (t : Tables) (c : Call) (a : Answer) (t' : Tables) : Prop where
  regular : t'.Regular
  tidy : a.Tidy
  call_eq : ∀ b, c.Addressed b → (t.kept b).call b c = .ok (a.kept b, t'.kept b)

theorem means_event? (h : t.Regular) (cid : String) :
    t.Means (.event? (.str cid)) (.event (t.events.get? (.text cid))) t := by
  refine ⟨h, trivial, ?_⟩
  intro b _
  simp only [call, event?_text, map_ok]
  rfl

theorem means_insertEvent (h : t.Regular) {e : Event} (he : e.Storable) {cid : String}
    (hcid : e.cid = .str cid) :
    t.Means (.insertEvent e) (.flag (!t.events.has (.text cid)))
      (if t.events.has (.text cid) then t
      else { t with events := t.events.insert (.text cid) e }) := by
  refine ⟨?_, trivial, ?_⟩
  · split
    · exact h
    · exact ⟨streamsNamed_of_streams_eq h.named rfl, h.contents, h.folders⟩
  · intro b _
    rw [call, insertEvent_eq he hcid]
    cases hhas : t.events.has (.text cid) with
    | true => simp [kept, hhas, Except.map, Answer.kept]
    | false => simp [kept, hhas, Except.map, Answer.kept]

theorem means_eventsOf (h : t.Regular) (genesis : String) :
    t.Means (.eventsOf (.str genesis))
      (.events (t.events.values.filter fun e => e.genesis = .str genesis)) t := by
  refine ⟨h, trivial, ?_⟩
  intro b _
  simp only [call, eventsOf_text, map_ok]
  rfl

theorem means_stream? (h : t.Regular) (id : String) :
    t.Means (.stream? (.str id)) (.stream (t.streams.get? (.text id))) t := by
  refine ⟨h, fun row hrow => (h.contents _ row hrow).2, ?_⟩
  intro b _
  have hkept : (t.kept b).streams.get? (.text id) =
      (t.streams.get? (.text id)).map b.keptRow := Table.get?_map b.keptRow t.streams _
  cases hrow : t.streams.get? (.text id) with
  | none =>
      rw [hrow] at hkept
      rw [call, stream?_of_none hkept]
      rfl
  | some row =>
      have hobj : (b.keptRow row).content.isObject = true := by
        rw [Backend.keptRow, Backend.isObject_keptJson]
        exact (h.contents _ row hrow).1
      rw [hrow] at hkept
      rw [call, stream?_of_some hkept hobj]
      rfl

theorem means_insertStream (h : t.Regular) {s : Stream} (hs : s.Storable) {id : String}
    (hid : s.id = .str id) :
    t.Means (.insertStream s) (.flag (!t.streams.has (.text id)))
      (if t.streams.has (.text id) then t else t.setStream (.text id) s) := by
  obtain ⟨tip, htip⟩ := hs.tip_text
  refine ⟨?_, trivial, ?_⟩
  · split
    · exact h
    · exact h.setStream hid hs.content_object hs.content.tidy
  · intro b _
    have htakes : b.takes s.content = true := by simp [Backend.takes, hs.content.finite]
    have hkept : (t.kept b).streams.has (.text id) = t.streams.has (.text id) :=
      Table.has_map b.keptRow t.streams _
    rw [call, insertStream_eq hid htip hs.account_text hs.model_text, htakes, hkept]
    cases t.streams.has (.text id) with
    | true => rfl
    | false =>
        rw [if_pos rfl, if_neg Bool.false_ne_true, if_neg Bool.false_ne_true, kept_setStream]
        rfl

theorem means_swapTip_of_ne (h : t.Regular) {id expected : String}
    (hne : ∀ row, t.streams.get? (.text id) = some row → row.tip ≠ .str expected)
    (new : String) (content : Json) :
    t.Means (.swapTip (.str id) (.str expected) (.str new) content) (.flag false) t := by
  refine ⟨h, trivial, ?_⟩
  intro b _
  rw [call, swapTip_of_ne h.kept_named]
  · rfl
  · intro row hrow
    rw [kept, Table.get?_map] at hrow
    obtain ⟨s, hs, rfl⟩ := Option.map_eq_some_iff.mp hrow
    exact hne s hs

theorem means_swapTip_of_eq (h : t.Regular) {id expected : String} {row : Stream}
    (hrow : t.streams.get? (.text id) = some row) (htip : row.tip = .str expected) (new : String)
    {content : Json} (hobj : content.isObject = true) (hcontent : content.Storable) :
    t.Means (.swapTip (.str id) (.str expected) (.str new) content) (.flag true)
      (t.setStream (.text id) { row with tip := .str new, content := content }) := by
  obtain ⟨id', hkey, hid⟩ := h.named _ row hrow
  obtain rfl : id = id' := Key.text.inj hkey
  refine ⟨h.setStream hid hobj hcontent.tidy, trivial, ?_⟩
  intro b _
  have htakes : b.takes content = true := by simp [Backend.takes, hcontent.finite]
  have hkept : (t.kept b).streams.get? (.text id) = some (b.keptRow row) := by
    rw [kept, Table.get?_map, hrow, Option.map_some]
  rw [call, swapTip_of_eq h.kept_named hkept htip, htakes, if_pos rfl, kept_setStream]
  rfl

theorem cut_map (g : Stream → Stream) (limit : Option Int) (rows : List Stream) :
    cut limit (rows.map g) = (cut limit rows).map g := by
  cases limit with
  | none => rfl
  | some n =>
      simp only [cut]
      split
      · rfl
      · exact (List.map_take).symm

theorem means_listStreams (h : t.Regular) {f : Filter} (hf : f.Regular) :
    t.Means (.listStreams f) (.streams (cut f.word? (t.streams.values.filter (passes f)))) t := by
  refine ⟨h, ?_, ?_⟩
  · intro row hrow
    exact (h.content_of_mem (List.mem_of_mem_filter (mem_of_mem_cut hrow))).2
  · intro b _
    rw [call, listStreams_eq h.kept_named h.kept_content hf, kept, Table.values_map,
      List.filter_map, cut_map]
    rfl

theorem shows_keptRow (key : String) (value : Json) {s : Stream} (h : s.content.Tidy) :
    shows key value (b.keptRow s) = shows key value s := by
  have halike : (b.keptJson s.content).Alike s.content := Backend.alike_keptJson h
  unfold shows
  rw [Backend.keptRow]
  dsimp only
  rcases halike.cases with ⟨heq, -⟩ | ⟨xs, ys, hx, hy⟩ | ⟨ms, ns, hx, hy⟩
  · rw [heq]
  · rw [hx, hy]
  · rw [hx, hy] at halike ⊢
    exact (Signal.alike_field halike key).same_eq true value

theorem means_findStream (h : t.Regular) (model key : String) {value : Json}
    (hvalue : value ≠ .null) :
    t.Means (.findStream (.str model) (.str key) value)
      (.stream ((t.streams.values.filter fun s => s.model = .str model).find?
        (shows key value))) t := by
  refine ⟨h, ?_, ?_⟩
  · intro row hrow
    exact (h.content_of_mem (List.mem_of_mem_filter (List.mem_of_find?_eq_some hrow))).2
  · intro b hb
    have hfind : (t.streams.values.filter fun s => s.model = .str model).find?
          (shows key value ∘ b.keptRow) =
        (t.streams.values.filter fun s => s.model = .str model).find? (shows key value) := by
      rw [← List.head?_filter, ← List.head?_filter]
      congr 1
      refine List.filter_congr fun s hs => ?_
      exact shows_keptRow key value (h.content_of_mem (List.mem_of_mem_filter hs)).2
    rw [call, findStream_eq h.kept_named h.kept_content model hb hvalue, kept, Table.values_map,
      List.filter_map, List.find?_map, map_ok, Answer.kept, ← hfind]
    rfl

theorem means_folder? (h : t.Regular) (id : String) :
    t.Means (.folder? (.str id)) (.folder (t.folders.get? (.text id))) t := by
  refine ⟨h, fun row hrow => (h.folders _ row hrow).2, ?_⟩
  intro b _
  rw [call, folder?, Backend.seek_text, kept, Table.get?_map]
  rfl

theorem means_putFolder (h : t.Regular) {f : Folder} (hf : f.Storable) {id : String}
    (hid : f.stream = .str id) :
    t.Means (.putFolder f) .done { t with folders := t.folders.insert (.text id) f } := by
  obtain ⟨tip, htip⟩ := hf.tip_text
  refine ⟨h.insert_folder id fun j hj => (hf.signal j hj).tidy, trivial, ?_⟩
  intro b _
  rw [call, putFolder_eq hid htip, kept_insert_folder]
  rfl

theorem means_signalFolders (h : t.Regular) :
    t.Means .signalFolders (.folders (t.folders.values.filter (·.signal.isSome))) t := by
  refine ⟨h, ?_, ?_⟩
  · intro row hrow
    obtain ⟨key, hget⟩ := Table.mem_values_iff.mp (List.mem_of_mem_filter hrow)
    exact (h.folders key row hget).2
  · intro b _
    have hkeys : ∀ key f, (t.kept b).folders.get? key = some f → ∃ id, key = .text id := by
      intro key f hf
      rw [kept, Table.get?_map] at hf
      obtain ⟨row, hrow, -⟩ := Option.map_eq_some_iff.mp hf
      exact (h.folders key row hrow).1
    have hsome : ((·.signal.isSome) ∘ b.keptEntry) = fun f : Folder => f.signal.isSome := by
      funext f
      simp [Backend.keptEntry]
    rw [call, signalFolders, Backend.ordered_of_texts hkeys, kept, Table.values_map, map_ok,
      map_ok, List.filter_map, hsome]
    rfl

/-- Every regular call on regular tables comes to one answer and one change of the tables. -/
theorem Regular.exists_means (h : t.Regular) {c : Call} (hc : c.Regular) :
    ∃ a t', t.Means c a t' := by
  cases c with
  | event? cid =>
      obtain ⟨x, rfl⟩ := hc
      exact ⟨_, _, means_event? h x⟩
  | insertEvent e =>
      obtain ⟨x, hx⟩ := Event.Storable.cid_text hc
      exact ⟨_, _, means_insertEvent h hc hx⟩
  | eventsOf genesis =>
      obtain ⟨g, rfl⟩ := hc
      exact ⟨_, _, means_eventsOf h g⟩
  | stream? id =>
      obtain ⟨i, rfl⟩ := hc
      exact ⟨_, _, means_stream? h i⟩
  | insertStream s =>
      obtain ⟨i, hi⟩ := Stream.Storable.id_text hc
      exact ⟨_, _, means_insertStream h hc hi⟩
  | swapTip id expected new content =>
      obtain ⟨⟨i, rfl⟩, ⟨x, rfl⟩, ⟨n, rfl⟩, hobj, hcontent⟩ := hc
      by_cases hthere : ∃ row, t.streams.get? (.text i) = some row ∧ row.tip = .str x
      · obtain ⟨row, hrow, htip⟩ := hthere
        exact ⟨_, _, means_swapTip_of_eq h hrow htip n hobj hcontent⟩
      · have hne : ∀ row, t.streams.get? (.text i) = some row → row.tip ≠ .str x := by
          intro row hrow htip
          exact hthere ⟨row, hrow, htip⟩
        exact ⟨_, _, means_swapTip_of_ne h hne n content⟩
  | listStreams f => exact ⟨_, _, means_listStreams h hc⟩
  | findStream model key value =>
      obtain ⟨⟨m, rfl⟩, ⟨k, rfl⟩, hvalue⟩ := hc
      exact ⟨_, _, means_findStream h m k hvalue⟩
  | folder? id =>
      obtain ⟨i, rfl⟩ := hc
      exact ⟨_, _, means_folder? h i⟩
  | putFolder f =>
      obtain ⟨i, hi⟩ := Folder.Storable.stream_text hc
      exact ⟨_, _, means_putFolder h hc hi⟩
  | signalFolders => exact ⟨_, _, means_signalFolders h⟩

end Tables

end ChainFold
