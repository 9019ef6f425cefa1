import ChainFold.Proofs.Engine.Mirroring
import ChainFold.Proofs.Store.Listing

/-!
# Scans of streams

A list of streams asks for a model, an account and a limit, each if it is given.  The
answer is the first of all the rows that match, in the order of their ids, as many as the
limit allows.  A limit of zero still lets one row through in memory, and a limit of more
than 64 bits fails the other backends; the rows are the same in each case.
-/

namespace ChainFold

/-- A model and an account, each if it is given, and how many rows there may be. -/
structure Scan where
  model : Option String
  account : Option String
  limit : Option Nat

namespace Scan

def filter (q : Scan) : Filter :=
  ⟨q.model.elim .null .str, q.account.elim .null .str, none, q.limit.elim .null fun n => .int n⟩

/-- Whether a stream has the model and the account that are given. -/
def Matches (q : Scan) (row : Stream) : Prop :=
  (∀ m, q.model = some m → row.model = .str m) ∧ ∀ a, q.account = some a → row.account = .str a

/-- As many of the first rows as the limit allows. -/
def first (q : Scan) (rows : List Stream) : List Stream := q.limit.elim rows rows.take

/-- Whether a backend keeps to the limit. -/
def Heeded (q : Scan) : Backend → Prop
  | .memory => q.limit ≠ some 0
  | .sqlite | .duckdb => ∀ n, q.limit = some n → n < 2 ^ 63

/-- A filter that asks for the same rows, without a limit. -/
def unlimited (q : Scan) : Filter := { q.filter with limit := .null }

theorem regular_unlimited (q : Scan) : q.unlimited.Regular where
  model := by cases hm : q.model <;> simp [unlimited, filter, hm]
  account := by cases ha : q.account <;> simp [unlimited, filter, ha]
  owner _ h := by cases h
  limit := .inl rfl

theorem passes_filter_iff (q : Scan) (row : Stream) :
    Tables.passes q.filter row = true ↔ q.Matches row := by
  have hmodel := Tables.admits_eq q.regular_unlimited.model row.model
  have haccount := Tables.admits_eq q.regular_unlimited.account row.account
  unfold Tables.passes Matches
  simp only [unlimited] at hmodel haccount
  rw [hmodel, haccount]
  cases hm : q.model <;> cases ha : q.account <;> simp [filter, hm, ha]

theorem length_first_le (q : Scan) (rows : List Stream) {n : Nat} (h : q.limit = some n) :
    (q.first rows).length ≤ n := by
  rw [first, h]
  exact List.length_take_le n rows

theorem cut_eq_first (q : Scan) (rows : List Stream) :
    Tables.cut (q.limit.map Int.ofNat) rows = q.first rows := by
  unfold first
  cases q.limit with
  | none => rfl
  | some n =>
      have hsign : ¬ Int.ofNat n < 0 := Int.not_lt.mpr (Int.natCast_nonneg n)
      rw [Option.map_some, Tables.cut, if_neg hsign]
      rfl

end Scan

namespace Tables

variable {b : Backend} {t : Tables} {q : Scan}

/-! ## In memory -/

theorem collect_scan (q : Scan) (rows : List Stream) : collect q.filter 0 rows =
    .ok (q.limit.elim (rows.filter (passes q.filter))
      fun n => (rows.filter (passes q.filter)).take (max n 1)) := by
  cases hlimit : q.limit with
  | none => exact collect_of_null (by simp [Scan.filter, hlimit]) 0 rows
  | some n =>
      have hint : q.filter.limit = .int n := by simp [Scan.filter, hlimit]
      exact collect_of_limit hint (Nat.lt_of_lt_of_le Nat.one_pos (Nat.le_max_right n 1)) rows

/-! ## In columns -/

theorem limits_of_scan (hlimit : ∀ n, q.limit = some n → n < 2 ^ 63) :
    sqliteLimit q.filter.limit = .ok (q.limit.map Int.ofNat) ∧
      duckdbLimit q.filter.limit = .ok (q.limit.map Int.ofNat) := by
  cases hq : q.limit with
  | none => simp [Scan.filter, hq, sqliteLimit, duckdbLimit]
  | some n =>
      have hword := isWord_of_lt (hlimit n hq)
      have hsign : ¬ (n : Int) < 0 := Int.not_lt.mpr (Int.natCast_nonneg n)
      simp only [Scan.filter, hq, Option.elim_some, Option.map_some]
      exact ⟨sqliteLimit_of_word hword, duckdbLimit_of_word hword hsign⟩

theorem isWord_of_le {n : Nat} (h : 2 ^ 63 ≤ n) : Backend.isWord n = false := by
  have hmost : ((2 ^ 63 : Nat) : Int) ≤ n := Int.ofNat_le.mpr h
  rw [Backend.isWord, Bool.and_eq_false_iff]
  exact .inr (decide_eq_false (Int.not_lt.mpr hmost))

theorem sqliteLimit_of_large {n : Int} (hword : Backend.isWord n = false) :
    sqliteLimit (.int n) = .error (.defect .tooLarge) := by
  rw [sqliteLimit, hword]
  rfl

theorem duckdbLimit_of_large {n : Int} (hword : Backend.isWord n = false) :
    duckdbLimit (.int n) = .error Backend.duckdb.refusal := by
  unfold duckdbLimit
  simp only [pure_eq_ok, ok_bind, hword]
  simp

/-- The query of a scan asks for texts, which columns take, and finds the rows that pass. -/
theorem query_scan (q : Scan) (rows : List Stream) :
    (conditions q.filter).mapM (fun c => b.column c.wanted) =
        .ok ((conditions q.filter).map fun c => c.wanted) ∧
      passing b q.filter rows = .ok (rows.filter (passes q.filter)) :=
  ⟨mapM_column (f := q.unlimited) q.regular_unlimited,
    passing_eq (f := q.unlimited) q.regular_unlimited rows⟩

theorem queryStreams_scan (hb : b ≠ .memory)
    (hobj : ∀ s ∈ t.streams.values, s.content.isObject = true)
    (hlimit : ∀ n, q.limit = some n → n < 2 ^ 63) :
    t.queryStreams b q.filter = .ok (q.first (t.streams.values.filter (passes q.filter))) := by
  obtain ⟨hsqlite, hduckdb⟩ := limits_of_scan hlimit
  obtain ⟨hcolumns, hpassing⟩ := query_scan (b := b) q t.streams.values
  have hread : (q.first (t.streams.values.filter (passes q.filter))).mapM b.readStream =
      .ok (q.first (t.streams.values.filter (passes q.filter))) := by
    refine mapM_readStream fun s hs => hobj s ?_
    rw [← q.cut_eq_first] at hs
    exact List.mem_of_mem_filter (mem_of_mem_cut hs)
  rw [queryStreams, hcolumns, hpassing]
  cases b with
  | memory => exact absurd rfl hb
  | sqlite => simp [hsqlite, q.cut_eq_first, hread]
  | duckdb =>
      by_cases hzero : q.limit.map Int.ofNat = some 0
      · have hnone : q.first (t.streams.values.filter (passes q.filter)) = [] := by
          rw [← q.cut_eq_first, hzero]
          rfl
        simp [hduckdb, hzero, hnone]
      · simp [hduckdb, hzero, q.cut_eq_first, hread]

/-! ## Lists -/

theorem listStreams_memory (hn : t.StreamsNamed) (q : Scan) : t.listStreams .memory q.filter =
    .ok (q.limit.elim (t.streams.values.filter (passes q.filter))
      fun n => (t.streams.values.filter (passes q.filter)).take (max n 1)) := by
  have hmemory : Backend.memory.isRelational = false := rfl
  rw [listStreams, hmemory, hn.ordered]
  exact collect_scan q _

/-- A backend that keeps to the limit lists the first rows that pass. -/
theorem listStreams_scan (hn : t.StreamsNamed)
    (hobj : ∀ s ∈ t.streams.values, s.content.isObject = true) (hheeded : q.Heeded b) :
    t.listStreams b q.filter = .ok (q.first (t.streams.values.filter (passes q.filter))) := by
  cases b with
  | memory =>
      rw [listStreams_memory hn, Scan.first]
      cases hlimit : q.limit with
      | none => rfl
      | some n =>
          have hpos : 1 ≤ n := Nat.one_le_iff_ne_zero.mpr fun hzero => hheeded (hzero ▸ hlimit)
          rw [Option.elim_some, Option.elim_some, Nat.max_eq_left hpos]
  | sqlite => exact queryStreams_scan (b := .sqlite) (by decide) hobj hheeded
  | duckdb => exact queryStreams_scan (b := .duckdb) (by decide) hobj hheeded

/-- A limit of more than 64 bits fails the query, wherever it is looked at. -/
theorem listStreams_large {n : Nat} (t : Tables) (hlimit : q.limit = some n) (hlarge : 2 ^ 63 ≤ n) :
    t.listStreams .sqlite q.filter = .error (.defect .tooLarge) ∧
      t.listStreams .duckdb q.filter = .error Backend.duckdb.refusal := by
  have hword := isWord_of_le hlarge
  have hfilter : q.filter.limit = .int n := by simp [Scan.filter, hlimit]
  constructor
  · obtain ⟨hcolumns, hpassing⟩ := query_scan (b := .sqlite) q t.streams.values
    have hrefused := sqliteLimit_of_large hword
    rw [← hfilter] at hrefused
    show t.queryStreams .sqlite q.filter = _
    rw [queryStreams, hcolumns, hpassing, hrefused]
    rfl
  · have hrefused := duckdbLimit_of_large hword
    rw [← hfilter] at hrefused
    show t.queryStreams .duckdb q.filter = _
    rw [queryStreams, hrefused]
    rfl

theorem Sound.content_isObject (hs : t.Sound b) :
    ∀ s ∈ t.streams.values, s.content.isObject = true := by
  intro s hmem
  obtain ⟨k, hrow⟩ := Table.mem_values_iff.mp hmem
  obtain ⟨g, tip, chain, folded, -, hp⟩ := hs.projects k s hrow
  exact hp.isObject

end Tables

namespace Engine

variable {en : Engine}

theorem listStreams_eq (en : Engine) (f : Filter) :
    (en.listStreams f).1 = en.checkOpen >>= fun _ => en.tables.listStreams en.backend f := by
  obtain ⟨d, hd, -⟩ := observe_of_isPlain (w := en.readStreams f)
    (reading_isPlain (r := fun t => t.listStreams en.backend f) (.ofExcept _)) en
  rw [listStreams, hd]

/-- What holds of the answer to a scan, given all the rows that match. -/
structure Scans (en : Engine) (q : Scan) (rows : List Stream) : Prop where
  complete : en.tables.Enumerates q.Matches rows
  heeded : q.Heeded en.backend → (en.listStreams q.filter).1 = .ok (q.first rows) ∧
    ∀ n, q.limit = some n → (q.first rows).length ≤ n
  /-- In memory a limit of zero is taken for a limit of one. -/
  zero : en.backend = .memory → q.limit = some 0 → (en.listStreams q.filter).1 = .ok (rows.take 1)
  /-- A limit of more than 64 bits is refused by the other backends. -/
  large : ∀ n, q.limit = some n → 2 ^ 63 ≤ n →
    (en.backend = .sqlite → (en.listStreams q.filter).1 = .error (.defect .tooLarge)) ∧
      (en.backend = .duckdb → (en.listStreams q.filter).1 = .error Backend.duckdb.refusal)

/--
In every run over an empty store a scan is answered by the first of the streams that match, in
the order of their ids, with all of them if there is no limit and with no more than it otherwise,
wherever the backend keeps to the limit.
-/
theorem Fresh.scans_bounded (h : en.Fresh) (hopen : en.checkOpen = .ok ()) (ops : List Operation)
    (q : Scan) : ∃ rows, (en.after ops).Scans q rows := by
  have hs := (h.steady.after ops).sound
  have hn := hs.streamsNamed
  have hlist := listStreams_eq (en.after ops) q.filter
  rw [checkOpen_after hopen ops, ok_bind] at hlist
  refine ⟨_, hn.enumerates q.passes_filter_iff, ?_, ?_, ?_⟩
  · intro hheeded
    exact ⟨hlist.trans (Tables.listStreams_scan hn hs.content_isObject hheeded),
      fun n => q.length_first_le _⟩
  · intro hmemory hzero
    rw [hlist, hmemory, Tables.listStreams_memory hn, hzero]
    rfl
  · intro n hlimit hlarge
    obtain ⟨hsqlite, hduckdb⟩ := Tables.listStreams_large (en.after ops).tables hlimit hlarge
    exact ⟨fun hb => by rw [hlist, hb, hsqlite], fun hb => by rw [hlist, hb, hduckdb]⟩

/-- A first event of a chain of notes, by an author. -/
def sampleNote (cid author : String) (data : Json) : Event :=
  ⟨.str cid, .null, .str cid,
    [.bytes ((Payload.encode data "notes" (.arr [.str author])).toOption.getD [])]⟩

/-- Of three notes and a stream of another model two match, and one fits the limit. -/
theorem scans_bounded_sample :
    let note (cid author : String) : Operation :=
      .submit (sampleNote cid author (.obj [("n", .int 0)])) sampleOwner
    let en := (sampleEngine .sqlite (some (.empty (.ofNat 1)))).after
      [note "a" "ann", note "b" "bob", .submit sampleGenesis sampleOwner, note "c" "ann"]
    let found (limit : Option Nat) :=
      (en.listStreams (Scan.filter ⟨some "notes", some "ann", limit⟩)).1.map (·.map Stream.id)
    (∃ rows, en.Scans ⟨some "notes", some "ann", some 1⟩ rows) ∧
      [found none, found (some 1), found (some 0)] =
        [.ok [.str (Ident.streamId "c"), .str (Ident.streamId "a")],
          .ok [.str (Ident.streamId "c")], .ok []] := by
  intro note en found
  have hfresh := sampleEngine_fresh .sqlite (.ofNat 1)
  have hscans : ∃ rows, en.Scans ⟨some "notes", some "ann", some 1⟩ rows :=
    hfresh.scans_bounded rfl _ _
  exact ⟨hscans, by decide +kernel⟩

/-- In memory a stream is listed though none may be. -/
theorem zero_limit_exceeded :
    let en := (sampleEngine .memory none).after [.submit sampleGenesis sampleOwner]
    (en.listStreams (Scan.filter ⟨none, none, some 0⟩)).1.map (·.map Stream.id) =
      .ok [.str (Ident.streamId "first")] := by
  decide +kernel

end Engine

end ChainFold
