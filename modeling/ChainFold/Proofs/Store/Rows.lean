import ChainFold.Proofs.Event.WellFormed
import ChainFold.Proofs.Store.Agreement
import ChainFold.Proofs.Store.Table

/-!
# Operations on rows with texts for identifiers

Every backend keeps and compares texts as they are.  On rows whose identifiers are
texts the operations of a store therefore mean the same everywhere, up to the order
of members in JSON and to the contents that a backend has no room for.
-/

namespace ChainFold

namespace Backend

variable {b : Backend}

@[simp] theorem column_text (s : String) : b.column (.str s) = .ok (.str s) := by
  cases b <;> rfl

@[simp] theorem column_null : b.column .null = .ok .null := by
  cases b <;> rfl

@[simp] theorem seek_text {α : Type} (t : Table α) (s : String) :
    b.seek t (.str s) = .ok (t.get? (.text s)) := by
  cases b <;> rfl

@[simp] theorem keyOf_text (s : String) : b.keyOf (.str s) = .ok (.text s) := by
  cases b <;> rfl

theorem takes_keptJson (j : Json) : b.takes (b.keptJson j) = b.takes j := by
  unfold keptJson
  split
  · rw [takes, takes, Json.isFinite_sortKeys]
  · rfl

theorem takes_of_ne_sqlite (h : b ≠ .sqlite) (j : Json) : b.takes j = true := by
  cases b <;> simp_all [takes]

/-! ## Selecting rows -/

theorem comparison_text (s : String) : b.comparison (.str s) = .ok (.text (.str s)) := by
  cases b <;> rfl

theorem compared_text {α : Type} (get : α → Json) (s : String) (rows : List α) :
    compared (.text (.str s)) get rows = .ok (rows.filter fun row => get row = .str s) := by
  induction rows with
  | nil => rfl
  | cons row rest ih =>
      unfold compared
      split
      · rename_i t ht
        by_cases hst : t = s
        · simp [Comparison.holds?, ih, ht, hst]
        · simp [Comparison.holds?, ih, ht, hst]
      · rename_i hnot
        have hne : get row ≠ .str s := hnot s
        simp [ih, hne]

theorem comparedAll_texts {α : Type} {conditions : List (Condition α)}
    (htext : ∀ c ∈ conditions, ∃ s, c.wanted = .str s) (rows : List α) :
    comparedAll rows (conditions.map fun c => (Comparison.text c.wanted, c.get)) =
      .ok (rows.filter fun row => conditions.all fun c => c.get row = c.wanted) := by
  induction conditions generalizing rows with
  | nil => simp [comparedAll]
  | cons c rest ih =>
      obtain ⟨⟨s, hs⟩, hrest⟩ := List.forall_mem_cons.mp htext
      have hrec := ih hrest (rows.filter fun row => c.get row = c.wanted)
      rw [comparedAll] at hrec ⊢
      rw [List.map_cons, List.foldlM_cons, hs, compared_text, ok_bind, ← hs, hrec]
      simp [List.filter_filter, Bool.and_comm]

theorem mapM_comparison {α : Type} {conditions : List (Condition α)}
    (htext : ∀ c ∈ conditions, ∃ s, c.wanted = .str s) :
    conditions.mapM (fun c => do pure (← b.comparison c.wanted, c.get)) =
      .ok (conditions.map fun c => (Comparison.text c.wanted, c.get)) := by
  induction conditions with
  | nil => rfl
  | cons c rest ih =>
      obtain ⟨⟨s, hs⟩, hrest⟩ := List.forall_mem_cons.mp htext
      rw [List.mapM_cons, ih hrest, hs, comparison_text]
      simp [hs]

/-- Rows are selected by texts as if the texts were compared one by one. -/
theorem select_texts {α : Type} {conditions : List (Condition α)}
    (htext : ∀ c ∈ conditions, ∃ s, c.wanted = .str s) (rows : List α) :
    b.select conditions rows =
      .ok (rows.filter fun row => conditions.all fun c => c.get row = c.wanted) := by
  unfold select
  cases hb : b.isRelational with
  | false =>
      simp only [Bool.not_false, if_true, Except.ok.injEq]
      refine List.filter_congr fun row _ => Json.all_eq_of_mem fun c hc => ?_
      obtain ⟨s, hs⟩ := htext c hc
      rw [hs, Json.looselySame_text_right]
  | true =>
      have hplain : ∀ cs : List (Condition α),
          (cs.map fun c => (Comparison.text c.wanted, c.get)).filter (·.1.isPlain) =
            cs.map fun c => (Comparison.text c.wanted, c.get) := by
        intro cs
        refine List.filter_eq_self.mpr fun q hq => ?_
        obtain ⟨c, -, rfl⟩ := List.mem_map.mp hq
        rfl
      have hnone : ∀ cs : List (Condition α),
          (cs.map fun c => (Comparison.text c.wanted, c.get)).filter (!·.1.isPlain) = [] := by
        intro cs
        refine List.filter_eq_nil_iff.mpr fun q hq => ?_
        obtain ⟨c, -, rfl⟩ := List.mem_map.mp hq
        simp [Comparison.isPlain]
      simp only [Bool.not_true, Bool.false_eq_true, if_false]
      rw [mapM_comparison htext, ok_bind, hplain, hnone, comparedAll_texts htext]
      rfl

/-! ## Whatever is selected is there -/

theorem compared_subset {α : Type} {c : Comparison} {get : α → Json} {rows found : List α}
    (h : compared c get rows = .ok found) : ∀ row ∈ found, row ∈ rows := by
  induction rows generalizing found with
  | nil =>
      obtain rfl := Except.ok.inj h
      simp
  | cons row rest ih =>
      unfold compared at h
      split at h
      · split at h
        · simp at h
        · obtain ⟨others, hothers, rfl⟩ := map_eq_ok.mp h
          intro r hr
          split at hr
          · rcases List.mem_cons.mp hr with rfl | hr
            · exact List.mem_cons_self
            · exact List.mem_cons_of_mem _ (ih hothers r hr)
          · exact List.mem_cons_of_mem _ (ih hothers r hr)
      · exact fun r hr => List.mem_cons_of_mem _ (ih h r hr)

theorem comparedAll_subset {α : Type} {cs : List (Comparison × (α → Json))} {rows found : List α}
    (h : comparedAll rows cs = .ok found) : ∀ row ∈ found, row ∈ rows := by
  induction cs generalizing rows with
  | nil =>
      obtain rfl := Except.ok.inj h
      exact fun _ hr => hr
  | cons c rest ih =>
      obtain ⟨some, hsome, hrest⟩ := bind_eq_ok.mp h
      exact fun r hr => compared_subset hsome r (ih hrest r hr)

theorem select_subset {α : Type} {conditions : List (Condition α)} {rows found : List α}
    (h : b.select conditions rows = .ok found) : ∀ row ∈ found, row ∈ rows := by
  unfold select at h
  split at h
  · obtain rfl := Except.ok.inj h
    exact fun r hr => List.mem_of_mem_filter hr
  · obtain ⟨cs, -, h⟩ := bind_eq_ok.mp h
    obtain ⟨some, hsome, hrest⟩ := bind_eq_ok.mp h
    exact fun r hr => comparedAll_subset hsome r (comparedAll_subset hrest r hr)

theorem exists_key_of_seek {α : Type} {t : Table α} {id : Json} {row : α}
    (h : b.seek t id = .ok (some row)) : ∃ k, t.get? k = some row := by
  unfold seek at h
  split at h
  · exact ⟨_, Except.ok.inj h⟩
  · split at h
    · exact ⟨_, Except.ok.inj h⟩
    · simp at h
  · split at h
    · rename_i rows hrows
      obtain ⟨q, hq, rfl⟩ := Option.map_eq_some_iff.mp (Except.ok.inj h)
      exact ⟨q.1, Table.mem_rows_iff.mp (select_subset hrows q (List.mem_of_head? hq))⟩
    · simp at h

theorem ordered_of_texts {α : Type} {t : Table α}
    (h : ∀ k row, t.get? k = some row → ∃ s, k = .text s) : ordered t = .ok t.values := by
  have htexts : ∀ k ∈ t.keys, k.isText = true ∧ k.isNumber = false := by
    intro k hk
    obtain ⟨⟨k, row⟩, hrow, rfl⟩ := List.mem_map.mp hk
    obtain ⟨s, rfl⟩ := h k row (Table.mem_rows_iff.mp hrow)
    exact ⟨rfl, rfl⟩
  have hcomparable : Key.comparable t.keys = true := by
    have hall : t.keys.all Key.isText = true := List.all_eq_true.mpr fun k hk => (htexts k hk).1
    simp [Key.comparable, hall]
  unfold ordered Table.sorted?
  rw [hcomparable]
  by_cases hempty : t.rows = []
  · simp [Table.values, hempty]
  · obtain ⟨k, hk⟩ : ∃ k, k ∈ t.keys := by
      obtain ⟨p, hp⟩ := List.exists_mem_of_ne_nil _ hempty
      exact ⟨p.1, List.mem_map_of_mem hp⟩
    have hnumbers : ¬ t.keys.all Key.isNumber = true := by
      intro hall
      have hnumber := List.all_eq_true.mp hall k hk
      rw [(htexts k hk).2] at hnumber
      cases hnumber
    simp [hnumbers]

end Backend

namespace Tables

variable {b : Backend} {t : Tables}

/-! ## Events -/

@[simp] theorem event?_text (c : String) : t.event? b (.str c) = .ok (t.events.get? (.text c)) :=
  Backend.seek_text t.events c

theorem keptEvent_eq {e : Event} (h : e.Storable) : b.keptEvent e = .ok e := by
  unfold Backend.keptEvent
  split
  · rfl
  · obtain ⟨bss, hbss, hmap⟩ := h.mapM_stored
    obtain ⟨c, hc⟩ := h.cid_text
    obtain ⟨g, hg⟩ := h.genesis_text
    have hprev : b.column e.prev = .ok e.prev := by
      rcases h.prev_text with hp | ⟨p, hp⟩ <;> simp [hp]
    cases e
    simp_all

theorem insertEvent_eq {e : Event} (h : e.Storable) {c : String} (hc : e.cid = .str c) :
    t.insertEvent b e = .ok (!t.events.has (.text c),
      if t.events.has (.text c) then t else { t with events := t.events.insert (.text c) e }) := by
  obtain ⟨g, hg⟩ := h.genesis_text
  have hcomplete : b.isCompleteEvent e = true := by
    have hne : e.blocks.isEmpty = false := by simpa using h.blocks_ne_nil
    simp [Backend.isCompleteEvent, hg, hne]
  rw [insertEvent, keptEvent_eq h, ok_bind, hc, Backend.keyOf_text, ok_bind, hcomplete]
  cases t.events.has (.text c) <;> simp [Backend.refusesRow]

theorem eventsOf_text (g : String) :
    t.eventsOf b (.str g) = .ok (t.events.values.filter fun e => e.genesis = .str g) := by
  rw [eventsOf, Backend.select_texts]
  · simp
  · simp

/-! ## Streams -/

theorem stream?_of_none {id : String} (h : t.streams.get? (.text id) = none) :
    t.stream? b (.str id) = .ok none := by
  simp [stream?, row?, h]

theorem readStream_eq {s : Stream} (h : s.content.isObject = true) : b.readStream s = .ok s := by
  obtain ⟨id, owner, tip, account, model, content⟩ := s
  cases content with
  | obj ms => cases b <;> rfl
  | null | bool | int | double | str | arr => simp [Json.isObject, Json.members?] at h

theorem stream?_of_some {id : String} {row : Stream} (h : t.streams.get? (.text id) = some row)
    (hobj : row.content.isObject = true) : t.stream? b (.str id) = .ok (some row) := by
  simp [stream?, row?, h, readStream_eq hobj]

/-- What is read back of a stream has the id and the tip of its row. -/
theorem exists_row_of_stream? {id : String} {s : Stream}
    (h : t.stream? b (.str id) = .ok (some s)) :
    ∃ row, t.streams.get? (.text id) = some row ∧ s.id = row.id ∧ s.tip = row.tip := by
  obtain ⟨found, hrow, h⟩ := bind_eq_ok.mp h
  rw [row?, Backend.seek_text] at hrow
  obtain rfl := Except.ok.inj hrow
  cases hget : t.streams.get? (.text id) with
  | none => simp [hget] at h
  | some row =>
      refine ⟨row, rfl, ?_⟩
      simp only [hget] at h
      obtain ⟨s', hs', heq⟩ := map_eq_ok.mp h
      obtain rfl := Option.some.inj heq
      unfold Backend.readStream at hs'
      split at hs'
      · obtain rfl := Except.ok.inj hs'
        exact ⟨rfl, rfl⟩
      · simp at hs'

theorem keptStream_eq {s : Stream} {id tip : String} (hid : s.id = .str id)
    (htip : s.tip = .str tip) (haccount : s.account = .null ∨ ∃ x, s.account = .str x)
    (hmodel : s.model = .null ∨ ∃ x, s.model = .str x) :
    b.keptStream s = .ok { s with content := b.keptJson s.content } := by
  unfold Backend.keptStream Backend.keptJson
  cases b.isRelational with
  | false => rfl
  | true =>
      have ha : b.column s.account = .ok s.account := by
        rcases haccount with h | ⟨x, h⟩ <;> simp [h]
      have hm : b.column s.model = .ok s.model := by
        rcases hmodel with h | ⟨x, h⟩ <;> simp [h]
      simp [hid, htip, ha, hm]

theorem insertStream_eq {s : Stream} {id tip : String} (hid : s.id = .str id)
    (htip : s.tip = .str tip) (haccount : s.account = .null ∨ ∃ x, s.account = .str x)
    (hmodel : s.model = .null ∨ ∃ x, s.model = .str x) :
    t.insertStream b s =
      if b.takes s.content then
        .ok (!t.streams.has (.text id),
          if t.streams.has (.text id) then t
          else t.setStream (.text id) { s with content := b.keptJson s.content })
      else .error b.refusal := by
  have hcomplete : b.isCompleteStream { s with content := b.keptJson s.content } =
      b.takes s.content := by
    cases hb : b.isRelational with
    | true => simp [Backend.isCompleteStream, hb, htip, Backend.takes_keptJson]
    | false =>
        rw [Backend.takes_of_ne_sqlite (by rintro rfl; simp [Backend.isRelational] at hb)]
        simp [Backend.isCompleteStream, hb]
  rw [insertStream, keptStream_eq hid htip haccount hmodel, ok_bind, hid, Backend.keyOf_text,
    ok_bind, ← hid, hcomplete]
  cases htakes : b.takes s.content with
  | false =>
      have hb : b = .sqlite := by
        by_contra hne
        simp [Backend.takes_of_ne_sqlite hne] at htakes
      simp [Backend.refusesRow, hb]
  | true => cases t.streams.has (.text id) <;> simp [Backend.refusesRow]

/-- Every row of a stream is kept under the text that is its id. -/
def StreamsNamed (t : Tables) : Prop :=
  ∀ key row, t.streams.get? key = some row → ∃ id, key = .text id ∧ row.id = .str id

theorem select_stream (hn : t.StreamsNamed) (id expected : String) :
    b.select [⟨.str id, Stream.id⟩, ⟨.str expected, Stream.tip⟩] t.streams.values =
      .ok ((t.streams.get? (.text id)).filter fun row => row.tip = .str expected).toList := by
  rw [Backend.select_texts (by simp), Table.filter_values (.text id)]
  · congr 2
    cases hrow : t.streams.get? (.text id) with
    | none => rfl
    | some row =>
        obtain ⟨id', hkey, hid⟩ := hn _ _ hrow
        obtain rfl : id = id' := by simpa using hkey
        simp [Option.filter, hid]
  · intro key row hrow hall
    obtain ⟨id', hkey, hid⟩ := hn _ _ hrow
    simp only [List.all_cons, hid, Json.str.injEq, Bool.and_eq_true, decide_eq_true_eq] at hall
    rw [hkey, hall.1]

theorem newTip_text (tip : String) (content : Json) :
    newTip b (.str tip) content =
      if b.takes content then .ok (.str tip) else .error b.refusal := by
  cases h : b.takes content <;> simp [newTip, h]

theorem swapTip_of_eq (hn : t.StreamsNamed) {id expected new : String} {content : Json}
    {row : Stream} (hrow : t.streams.get? (.text id) = some row)
    (htip : row.tip = .str expected) :
    t.swapTip b (.str id) (.str expected) (.str new) content =
      if b.takes content then
        .ok (true, t.setStream (.text id)
          { row with tip := .str new, content := b.keptJson content })
      else .error b.refusal := by
  obtain ⟨id', hkey, hid⟩ := hn _ _ hrow
  obtain rfl : id = id' := by simpa using hkey
  rw [swapTip, Backend.column_text, ok_bind, select_stream hn, ok_bind, hrow]
  cases htakes : b.takes content <;> simp [Option.filter, htip, newTip_text, htakes, hid]

theorem swapTip_of_ne (hn : t.StreamsNamed) {id expected : String}
    (h : ∀ row, t.streams.get? (.text id) = some row → row.tip ≠ .str expected)
    (new : String) (content : Json) :
    t.swapTip b (.str id) (.str expected) (.str new) content = .ok (false, t) := by
  have hnone : (t.streams.get? (.text id)).filter (fun row => row.tip = .str expected) = none := by
    cases hrow : t.streams.get? (.text id) with
    | none => rfl
    | some row => simp [Option.filter, h row hrow]
  rw [swapTip, Backend.column_text, ok_bind, select_stream hn, ok_bind, hnone]
  rfl

/-! ## Streams under their ids -/

theorem streamsNamed_of_streams_eq (hn : t.StreamsNamed) {t' : Tables}
    (h : t'.streams = t.streams) : t'.StreamsNamed := by
  intro key row hrow
  exact hn key row (h ▸ hrow)

theorem setStream_streamsNamed (hn : t.StreamsNamed) {id : String} {row : Stream}
    (hid : row.id = .str id) : (t.setStream (.text id) row).StreamsNamed := by
  intro key row' hrow'
  rw [setStream, Table.get?_insert] at hrow'
  by_cases hkey : Key.text id = key
  · rw [if_pos hkey] at hrow'
    obtain rfl := Option.some.inj hrow'
    exact ⟨id, hkey.symm, hid⟩
  · rw [if_neg hkey] at hrow'
    exact hn key row' hrow'

theorem StreamsNamed.id_of_stream? (hn : t.StreamsNamed) {id : String} {s : Stream}
    (h : t.stream? b (.str id) = .ok (some s)) : s.id = .str id := by
  obtain ⟨row, hrow, hid, -⟩ := exists_row_of_stream? h
  obtain ⟨id', hkey, hid'⟩ := hn _ row hrow
  obtain rfl : id = id' := Key.text.inj hkey
  exact hid.trans hid'

theorem insertEvent_streamsNamed (hn : t.StreamsNamed) {e : Event} {p : Bool × Tables}
    (h : t.insertEvent b e = .ok p) : p.2.StreamsNamed := by
  obtain ⟨kept, -, h⟩ := bind_eq_ok.mp h
  obtain ⟨k, -, h⟩ := bind_eq_ok.mp h
  dsimp only at h
  split at h
  · simp at h
  · split at h <;> obtain rfl := Except.ok.inj h <;> exact streamsNamed_of_streams_eq hn rfl

theorem insertStream_streamsNamed (hn : t.StreamsNamed) {id : String} {row : Stream}
    (hid : row.id = .str id) {p : Bool × Tables} (h : t.insertStream b row = .ok p) :
    p.2.StreamsNamed := by
  obtain ⟨kept, hkept, h⟩ := bind_eq_ok.mp h
  obtain ⟨k, hk, h⟩ := bind_eq_ok.mp h
  have hkeptId : kept.id = .str id := by
    unfold Backend.keptStream at hkept
    split at hkept
    · exact Except.ok.inj hkept ▸ hid
    · rw [hid, Backend.column_text, ok_bind] at hkept
      obtain ⟨_, -, hkept⟩ := bind_eq_ok.mp hkept
      obtain ⟨_, -, hkept⟩ := bind_eq_ok.mp hkept
      obtain ⟨_, -, hkept⟩ := bind_eq_ok.mp hkept
      exact Except.ok.inj hkept ▸ rfl
  rw [hkeptId, Backend.keyOf_text] at hk
  obtain rfl := Except.ok.inj hk
  dsimp only at h
  split at h
  · simp at h
  · split at h <;> obtain rfl := Except.ok.inj h
    · exact hn
    · exact setStream_streamsNamed hn hkeptId

theorem swapTip_streamsNamed (hn : t.StreamsNamed) {id expected new content : Json}
    {p : Bool × Tables} (h : t.swapTip b id expected new content = .ok p) :
    p.2.StreamsNamed := by
  obtain ⟨new', -, h⟩ := bind_eq_ok.mp h
  obtain ⟨found, hfound, h⟩ := bind_eq_ok.mp h
  cases found with
  | nil =>
      obtain rfl := Except.ok.inj h
      exact hn
  | cons row rest =>
      obtain ⟨key, hrow⟩ :=
        Table.mem_values_iff.mp (Backend.select_subset hfound row List.mem_cons_self)
      obtain ⟨id', -, hid⟩ := hn key row hrow
      obtain ⟨tip, -, h⟩ := bind_eq_ok.mp h
      rw [hid, Backend.keyOf_text, ok_bind] at h
      obtain rfl := Except.ok.inj h
      exact setStream_streamsNamed hn rfl

theorem putFolder_streamsNamed (hn : t.StreamsNamed) {f : Folder} {t' : Tables}
    (h : t.putFolder b f = .ok t') : t'.StreamsNamed := by
  obtain ⟨kept, -, h⟩ := bind_eq_ok.mp h
  obtain ⟨k, -, h⟩ := bind_eq_ok.mp h
  obtain rfl := Except.ok.inj h
  exact streamsNamed_of_streams_eq hn rfl

/-! ## Folders -/

theorem putFolder_eq {f : Folder} {id tip : String} (hid : f.stream = .str id)
    (htip : f.tip = .str tip) :
    t.putFolder b f = .ok { t with
      folders := t.folders.insert (.text id) { f with signal := f.signal.map b.keptJson } } := by
  have hkept : b.keptFolder f = .ok { f with signal := f.signal.map b.keptJson } := by
    unfold Backend.keptFolder
    cases hb : b.isRelational with
    | false =>
        obtain ⟨stream, tip, signal⟩ := f
        cases signal <;> simp [Backend.keptJson, hb]
    | true =>
        obtain ⟨stream, tip, signal⟩ := f
        cases signal <;> simp_all [Backend.keptJson]
  rw [putFolder, hkept, ok_bind, hid, Backend.keyOf_text, ok_bind]
  rfl

end Tables

end ChainFold
