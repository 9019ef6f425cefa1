import ChainFold.Proofs.Store.Path
import ChainFold.Proofs.Store.Rows
import ChainFold.Proofs.Store.Table
import ChainFold.Proofs.Uuid

/-!
# Queries of streams

A filter that asks for texts, for an owner as it is written, and for a limit that can be
reached means the same to every backend: the first rows that pass it, in the order of
their ids.  So does looking for a value under a key, where the key can be looked up by
its path.
-/

/-!
## Rows in the order of their ids

What a query of streams is to answer, said without a query: all the rows with a property,
each once, in the order of their ids; or the first of them, if there is any.  Where rows
are kept under their ids, those of a table that pass a test are such a list.
-/

namespace ChainFold

def Stream.Precedes (s s' : Stream) : Prop :=
  ∃ x y : String, s.id = .str x ∧ s'.id = .str y ∧ x < y

namespace Tables

variable {t : Tables} {p q : Stream → Prop} {rows : List Stream}

/-- A list of all the stored streams with a property, in the order of their ids. -/
structure Enumerates (t : Tables) (p : Stream → Prop) (rows : List Stream) : Prop where
  ascending : rows.Pairwise Stream.Precedes
  mem_iff : ∀ row, row ∈ rows ↔ (∃ k, t.streams.get? k = some row) ∧ p row

/-- The stored stream with a property whose id is least; `none` if no stream has it. -/
def FindsFirst (t : Tables) (p : Stream → Prop) : Option Stream → Prop
  | none => ∀ k row, t.streams.get? k = some row → ¬ p row
  | some row => (∃ k, t.streams.get? k = some row) ∧ p row ∧
      ∀ k row', t.streams.get? k = some row' → p row' → row' = row ∨ row.Precedes row'

theorem StreamsNamed.ascending (hn : t.StreamsNamed) :
    t.streams.values.Pairwise Stream.Precedes := by
  refine List.pairwise_map.mpr (t.streams.ascending.imp_of_mem ?_)
  rintro ⟨k, row⟩ ⟨k', row'⟩ hmem hmem' hbefore
  obtain ⟨x, rfl, hx⟩ := hn k row (Table.mem_rows_iff.mp hmem)
  obtain ⟨y, rfl, hy⟩ := hn k' row' (Table.mem_rows_iff.mp hmem')
  exact ⟨x, y, hx, hy, by simpa using hbefore⟩

theorem StreamsNamed.enumerates (hn : t.StreamsNamed) {test : Stream → Bool}
    (htest : ∀ row, test row = true ↔ p row) :
    t.Enumerates p (t.streams.values.filter test) where
  ascending := hn.ascending.filter test
  mem_iff row := by rw [List.mem_filter, Table.mem_values_iff, htest]

/-- Of all rows with a property the first has the least id. -/
theorem Enumerates.findsFirst (h : t.Enumerates p rows) : t.FindsFirst p rows.head? := by
  cases rows with
  | nil =>
      intro k row hrow hp
      simpa using (h.mem_iff row).mpr ⟨⟨k, hrow⟩, hp⟩
  | cons row rest =>
      obtain ⟨hstored, hp⟩ := (h.mem_iff row).mp List.mem_cons_self
      refine ⟨hstored, hp, ?_⟩
      intro k row' hrow' hp'
      rcases List.mem_cons.mp ((h.mem_iff row').mpr ⟨⟨k, hrow'⟩, hp'⟩) with heq | hrest
      · exact .inl heq
      · exact .inr ((List.pairwise_cons.mp h.ascending).1 row' hrest)

/-- Which of the other streams have the property does not matter, if they are not stored. -/
theorem FindsFirst.congr {found : Option Stream} (h : t.FindsFirst p found)
    (hpq : ∀ k row, t.streams.get? k = some row → (p row ↔ q row)) : t.FindsFirst q found := by
  cases found with
  | none => exact fun k row hrow hq => h k row hrow ((hpq k row hrow).mpr hq)
  | some row =>
      obtain ⟨⟨k, hrow⟩, hp, hleast⟩ := h
      exact ⟨⟨k, hrow⟩, (hpq k row hrow).mp hp,
        fun k' row' hrow' hq => hleast k' row' hrow' ((hpq k' row' hrow').mpr hq)⟩

end Tables

/-! ## Queries of streams -/

/-- A filter that asks for what there can be: texts, a written owner, a limit of 64 bits. -/
structure Filter.Regular (f : Filter) : Prop where
  model : f.model = .null ∨ ∃ s, f.model = .str s
  account : f.account = .null ∨ ∃ s, f.account = .str s
  owner : ∀ text, f.owner = some text → ∃ u : Uuid, text = u.toText
  limit : f.limit = .null ∨ ∃ n : Nat, f.limit = .int n ∧ 0 < n ∧ n < 2 ^ 63

/-- The limit of a filter, if it has one. -/
def Filter.word? (f : Filter) : Option Int :=
  match f.limit with
  | .int n => some n
  | _ => none

namespace Tables

variable {b : Backend} {t : Tables} {f : Filter}

/-! ## Lists in memory -/

theorem StreamsNamed.ordered (hn : t.StreamsNamed) :
    Backend.ordered t.streams = .ok t.streams.values := by
  apply Backend.ordered_of_texts
  intro key row hrow
  obtain ⟨id, hkey, -⟩ := hn key row hrow
  exact ⟨id, hkey⟩

theorem reaches_int (n k : Nat) : reaches (.int n) k = .ok (decide (n ≤ k)) := by
  have hreach : Amount.isAtMost ⟨.int n, .ofInt n⟩ k = decide (n ≤ k) := by
    simp only [Amount.isAtMost, Json.Quantity.below, Json.Quantity.same, Json.Quantity.ofInt]
    rw [Bool.eq_iff_iff]
    simp
    omega
  simp [reaches, Amount.of?, Json.quantity?, hreach]

/-- Without a limit all rows that pass are taken. -/
theorem collect_of_null (hlimit : f.limit = .null) (n : Nat) (rows : List Stream) :
    collect f n rows = .ok (rows.filter (passes f)) := by
  induction rows generalizing n with
  | nil => rfl
  | cons s rest ih =>
      rw [collect, List.filter_cons]
      cases hpass : passes f s with
      | false => simpa using ih n
      | true => simp [reaches, hlimit, ih]

/-- Rows that pass are taken until the limit is reached, and one is taken before it is looked at. -/
theorem collect_of_limit {limit : Nat} (hlimit : f.limit = .int limit) {n : Nat}
    (hn : n < max limit 1) (rows : List Stream) :
    collect f n rows = .ok ((rows.filter (passes f)).take (max limit 1 - n)) := by
  induction rows generalizing n with
  | nil => simp [collect]
  | cons s rest ih =>
      rw [collect, List.filter_cons]
      cases hpass : passes f s with
      | false => simpa using ih hn
      | true =>
          simp only [hlimit, reaches_int, Bool.not_true, Bool.false_eq_true, if_false, if_true]
          by_cases hlast : limit ≤ n + 1
          · have hone : max limit 1 - n = 1 := by omega
            simp [hlast, hone]
          · have hmore : max limit 1 - n = (max limit 1 - (n + 1)) + 1 := by omega
            simp only [hlast, decide_false]
            rw [ih (by omega), hmore, List.take_succ_cons]
            rfl

theorem collect_eq (hf : f.Regular) (rows : List Stream) :
    collect f 0 rows = .ok (cut f.word? (rows.filter (passes f))) := by
  rcases hf.limit with hlimit | ⟨n, hlimit, hpos, -⟩
  · rw [collect_of_null hlimit]
    simp [Filter.word?, hlimit, cut]
  · have hnat : ¬ ((n : Int) < 0) := by omega
    rw [collect_of_limit hlimit (by omega), Nat.max_eq_left hpos]
    simp [Filter.word?, hlimit, cut, hnat]

/-! ## Lists in columns -/

theorem admits_eq {wanted : Json} (h : wanted = .null ∨ ∃ s, wanted = .str s) (found : Json) :
    admits wanted found = (wanted == .null || found == wanted) := by
  rcases h with rfl | ⟨s, rfl⟩
  · rfl
  · simp [admits, Json.looselySame_text_right]
    rfl

/-- A filter asks columns for texts only. -/
theorem conditions_text (hf : f.Regular) : ∀ c ∈ conditions f, ∃ s, c.wanted = .str s := by
  intro c hc
  obtain ⟨hmem, hwanted⟩ := List.mem_filter.mp hc
  simp only [List.mem_cons, List.not_mem_nil, or_false] at hmem
  rcases hmem with rfl | rfl
  · rcases hf.model with h | h
    · simp [h] at hwanted
    · exact h
  · rcases hf.account with h | h
    · simp [h] at hwanted
    · exact h

/-- The rows that meet the conditions of a filter are those that it admits in memory. -/
theorem select_conditions (hf : f.Regular) (rows : List Stream) :
    b.select (conditions f) rows =
      .ok (rows.filter fun s => admits f.model s.model && admits f.account s.account) := by
  rw [Backend.select_texts (conditions_text hf)]
  congr 2
  funext s
  rw [admits_eq hf.model, admits_eq hf.account]
  rcases hf.model with hmodel | ⟨m, hmodel⟩ <;> rcases hf.account with haccount | ⟨a, haccount⟩ <;>
    simp [conditions, hmodel, haccount] <;> rfl

theorem passing_eq (hf : f.Regular) (rows : List Stream) :
    passing b f rows = .ok (rows.filter (passes f)) := by
  unfold passing
  cases howner : f.owner with
  | none =>
      simp only [select_conditions hf]
      congr 2
      funext s
      simp [passes, howner]
  | some text =>
      obtain ⟨u, rfl⟩ := hf.owner text howner
      have hown : ∀ s : Stream, ownedAs s u.toText = (s.owner == u) := by
        intro s
        rw [ownedAs, Bool.eq_iff_iff, beq_iff_eq, beq_iff_eq]
        exact ⟨Uuid.toText_injective, fun h => congrArg _ h⟩
      have hpasses : passes f = fun s : Stream =>
          admits f.model s.model && admits f.account s.account && (s.owner == u) := by
        funext s
        simp [passes, howner, hown]
      simp only [Uuid.readStrict?_toText, select_conditions hf, ok_bind, pure_eq_ok,
        List.filter_filter, hown, hpasses]
      split
      · simp only [Bool.and_comm]
      · rfl

theorem isWord_of_lt {n : Nat} (h : n < 2 ^ 63) : Backend.isWord n = true := by
  have hleast : -Int.pow 2 63 ≤ 0 := by decide
  have hpos : (0 : Int) ≤ n := Int.natCast_nonneg n
  have hmost : (n : Int) < ((2 ^ 63 : Nat) : Int) := Int.ofNat_lt.mpr h
  simp only [Backend.isWord, Bool.and_eq_true, decide_eq_true_eq]
  exact ⟨Int.le_trans hleast hpos, hmost⟩

theorem sqliteLimit_of_word {n : Int} (hword : Backend.isWord n = true) :
    sqliteLimit (.int n) = .ok (some n) := by
  rw [sqliteLimit, hword]
  rfl

theorem duckdbLimit_of_word {n : Int} (hword : Backend.isWord n = true) (hsign : ¬ n < 0) :
    duckdbLimit (.int n) = .ok (some n) := by
  have hguard : (decide (n < 0) || !Backend.isWord n) = false := by
    rw [hword, decide_eq_false hsign]
    rfl
  unfold duckdbLimit
  simp only [pure_eq_ok, ok_bind]
  rw [hguard]
  rfl

/-- A limit that can be reached is the same number to both relational backends. -/
theorem limit_eq (hf : f.Regular) :
    sqliteLimit f.limit = .ok f.word? ∧ duckdbLimit f.limit = .ok f.word? ∧ f.word? ≠ some 0 := by
  rcases hf.limit with h | ⟨n, h, hpos, hword⟩
  · simp [Filter.word?, h, sqliteLimit, duckdbLimit]
  · have hsign : ¬ (n : Int) < 0 := Int.not_lt.mpr (Int.natCast_nonneg n)
    have hlimit : f.word? = some (n : Int) := by rw [Filter.word?, h]
    rw [h, hlimit]
    refine ⟨sqliteLimit_of_word (isWord_of_lt hword),
      duckdbLimit_of_word (isWord_of_lt hword) hsign, ?_⟩
    intro hzero
    have hn : n = 0 := Int.ofNat.inj (Option.some.inj hzero)
    exact Nat.ne_of_gt hpos hn

theorem mapM_readStream {rows : List Stream} (h : ∀ s ∈ rows, s.content.isObject = true) :
    rows.mapM b.readStream = .ok rows := by
  induction rows with
  | nil => rfl
  | cons s rest ih =>
      obtain ⟨hs, hrest⟩ := List.forall_mem_cons.mp h
      rw [List.mapM_cons, readStream_eq hs, ih hrest]
      rfl

theorem mapM_column (hf : f.Regular) :
    (conditions f).mapM (fun c => b.column c.wanted) =
      .ok ((conditions f).map fun c => c.wanted) := by
  have htexts := conditions_text hf
  revert htexts
  induction conditions f with
  | nil => exact fun _ => rfl
  | cons c rest ih =>
      intro htexts
      obtain ⟨⟨s, hs⟩, hrest⟩ := List.forall_mem_cons.mp htexts
      rw [List.mapM_cons, ih hrest, hs, Backend.column_text]
      simp [hs]

theorem mem_of_mem_cut {limit : Option Int} {rows : List Stream} {s : Stream}
    (h : s ∈ cut limit rows) : s ∈ rows := by
  unfold cut at h
  split at h
  · exact h
  · split at h
    · exact h
    · exact List.mem_of_mem_take h

/-- Every backend lists the first rows that pass a filter, in the order of their ids. -/
theorem listStreams_eq (hn : t.StreamsNamed)
    (hobj : ∀ s ∈ t.streams.values, s.content.isObject = true) (hf : f.Regular) :
    t.listStreams b f = .ok (cut f.word? (t.streams.values.filter (passes f))) := by
  unfold listStreams
  cases hb : b.isRelational with
  | false =>
      simp [hn.ordered, collect_eq hf]
  | true =>
      obtain ⟨hsqlite, hduckdb, hzero⟩ := limit_eq hf
      have hread : (cut f.word? (t.streams.values.filter (passes f))).mapM b.readStream =
          .ok (cut f.word? (t.streams.values.filter (passes f))) := by
        refine mapM_readStream fun s hs => hobj s ?_
        exact List.mem_of_mem_filter (mem_of_mem_cut hs)
      simp only [if_true, queryStreams, mapM_column hf, passing_eq hf, hsqlite, hduckdb]
      cases b <;> simp_all

/-! ## Looking for a value -/

/-- Whether the content of a stream has a value under a key. -/
def shows (key : String) (value : Json) (s : Stream) : Bool :=
  match s.content with
  | .obj ms => (Json.field key ms).looselySame value
  | _ => false

theorem findAmong_eq (key : String) (value : Json) {rows : List Stream}
    (hobj : ∀ s ∈ rows, s.content.isObject = true) :
    findAmong b (.str key) value rows = .ok (rows.find? (shows key value)) := by
  induction rows with
  | nil => rfl
  | cons s rest ih =>
      obtain ⟨hs, hrest⟩ := List.forall_mem_cons.mp hobj
      rw [findAmong, readStream_eq hs, ok_bind, ih hrest, List.find?_cons]
      cases hcontent : s.content with
      | obj ms =>
          simp only [fieldOf, shows, hcontent, ok_bind]
          cases (Json.field key ms).looselySame value <;> rfl
      | null | bool | int | double | str | arr =>
          simp [hcontent, Json.isObject, Json.members?] at hs

theorem null_looselySame {value : Json} (h : value ≠ .null) :
    Json.null.looselySame value = false := by
  cases value with
  | null => exact absurd rfl h
  | bool | int | double | str | arr | obj => rfl

/-- Whether the content of a stream has a value other than null under a key. -/
def offers (key : String) (s : Stream) : Bool :=
  match s.content with
  | .obj ms => ((Members.get? key ms).bind Json.nonNull).isSome
  | _ => false

theorem withKey_eq {key : String} {rows : List Stream}
    (hobj : ∀ s ∈ rows, s.content.isObject = true)
    (haddr : ∀ s ∈ rows, ∀ ms, s.content = .obj ms → Path.Addresses key ms) :
    withKey key rows = .ok (rows.filter (offers key)) := by
  induction rows with
  | nil => rfl
  | cons s rest ih =>
      obtain ⟨hs, hrest⟩ := List.forall_mem_cons.mp hobj
      obtain ⟨hfinds, haddrs⟩ := List.forall_mem_cons.mp haddr
      cases hcontent : s.content with
      | obj ms =>
          have hfound : Path.finds key (.obj ms) = _ := hfinds ms hcontent
          simp only [withKey, hcontent, hfound, ih hrest haddrs, map_ok, List.filter_cons, offers]
      | null | bool | int | double | str | arr =>
          simp [hcontent, Json.isObject, Json.members?] at hs

theorem offers_of_shows {key : String} {value : Json} (hvalue : value ≠ .null) {s : Stream}
    (h : shows key value s = true) : offers key s = true := by
  unfold shows at h
  unfold offers
  split at h
  · rename_i ms _
    have hfield : Json.field key ms ≠ .null := by
      intro hnull
      rw [hnull, null_looselySame hvalue] at h
      cases h
    rw [Json.field] at hfield
    cases hget : Members.get? key ms with
    | none => simp [hget] at hfield
    | some found => cases found <;> simp_all [Json.nonNull]
  · cases h

/-- Whether a backend looks at what a content has under a key: one does so unless that is null. -/
def inspects (b : Backend) (key : String) (s : Stream) : Bool := b != .sqlite || offers key s

/--
Every backend finds the first stream of a model that it inspects and that shows a value under a
key; one of them only if the key is found by its path.
-/
theorem findStream_inspected (hn : t.StreamsNamed)
    (hobj : ∀ s ∈ t.streams.values, s.content.isObject = true) (model : String) {key : String}
    (haddr : b = .sqlite → ∀ s ∈ t.streams.values, s.model = .str model →
      ∀ ms, s.content = .obj ms → Path.Addresses key ms) (value : Json) :
    t.findStream b (.str model) (.str key) value = .ok (((t.streams.values.filter fun s =>
      s.model = .str model).filter (inspects b key)).find? (shows key value)) := by
  have hselect : ∀ b : Backend, b.select [⟨.str model, Stream.model⟩] t.streams.values =
      .ok (t.streams.values.filter fun s => s.model = .str model) := by
    intro b
    rw [Backend.select_texts]
    · simp
    · simp
  have hfound : ∀ s ∈ t.streams.values.filter fun s => s.model = .str model,
      s.content.isObject = true := fun s hs => hobj s (List.mem_of_mem_filter hs)
  have hall : ∀ {b : Backend} {rows : List Stream}, b ≠ .sqlite →
      rows.filter (inspects b key) = rows := by
    intro b rows hb
    refine List.filter_eq_self.mpr fun s _ => ?_
    simp [inspects, hb]
  cases b with
  | memory =>
      simp only [findStream, hn.ordered, ok_bind, Json.looselySame_text_right]
      rw [hall (by decide)]
      exact findAmong_eq key value hfound
  | duckdb =>
      simp only [findStream, hselect, ok_bind]
      rw [hall (by decide)]
      exact findAmong_eq key value hfound
  | sqlite =>
      have hpaths : ∀ s ∈ t.streams.values.filter fun s => s.model = .str model,
          ∀ ms, s.content = .obj ms → Path.Addresses key ms := by
        intro s hs
        obtain ⟨hmem, hmodel⟩ := List.mem_filter.mp hs
        exact haddr rfl s hmem (of_decide_eq_true hmodel)
      simp only [findStream, hselect, withKey_eq hfound hpaths, ok_bind]
      exact findAmong_eq key value fun s hs => hfound s (List.mem_of_mem_filter hs)

/-- A value other than null is found wherever it is, by every backend. -/
theorem findStream_eq (hn : t.StreamsNamed)
    (hobj : ∀ s ∈ t.streams.values, s.content.isObject = true) (model : String) {key : String}
    (hkey : b = .sqlite → Path.PlainKey key) {value : Json} (hvalue : value ≠ .null) :
    t.findStream b (.str model) (.str key) value =
      .ok ((t.streams.values.filter fun s => s.model = .str model).find? (shows key value)) := by
  rw [findStream_inspected hn hobj model (fun hb _ _ _ ms _ => Path.finds_of_plain (hkey hb) ms),
    List.find?_filter]
  congr 2
  funext s
  cases hs : shows key value s with
  | false => simp
  | true => simp [inspects, offers_of_shows hvalue hs]

/--
A stream that has a value under nothing but one key is found exactly if the key is plain:
this is exact where labels are compared with keys as they are stored.
-/
theorem findStream_alone_iff {key model id : String} {value : Json} (hvalue : value ≠ .null)
    (hself : value.looselySame value = true) {s : Stream} (hid : s.id = .str id)
    (hmodel : s.model = .str model) (hcontent : s.content = .obj [(key, value)]) :
    (empty.setStream (.text id) s).findStream .sqlite (.str model) (.str key) value =
      .ok (some s) ↔ Path.PlainKey key := by
  have hvalues : (empty.setStream (.text id) s).streams.values = [s] := rfl
  have hmatch : [s].filter (fun s => s.model = .str model) = [s] := by simp [hmodel]
  constructor
  · intro h
    rw [← Path.finds_self_iff hvalue]
    rw [findStream, hvalues, Backend.select_texts (by simp)] at h
    simp only [List.all_cons, List.all_nil, Bool.and_true, hmatch, ok_bind, withKey,
      hcontent] at h
    cases hfinds : Path.finds key (.obj [(key, value)]) with
    | error fault =>
        rw [hfinds] at h
        cases h
    | ok found =>
        rw [hfinds] at h
        cases found with
        | true => rfl
        | false => cases h
  · intro hplain
    have hn : (empty.setStream (.text id) s).StreamsNamed := by
      refine setStream_streamsNamed ?_ hid
      intro k row hrow
      cases hrow
    have hobj : ∀ row ∈ (empty.setStream (.text id) s).streams.values,
        row.content.isObject = true := by
      simp [hvalues, hcontent, Json.isObject, Json.members?]
    have hshows : shows key value s = true := by
      simp [shows, hcontent, Json.field, Members.get?, hself]
    rw [findStream_eq hn hobj model (fun _ => hplain) hvalue, hvalues, hmatch]
    simp [hshows]

end Tables

end ChainFold
