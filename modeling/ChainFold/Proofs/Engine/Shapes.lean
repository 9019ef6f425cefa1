import ChainFold.Proofs.Engine.Indexing
import ChainFold.Proofs.Engine.Replay

/-!
# Rows fit their columns

Identifiers are checked where an event comes in, headers where a stream is created, and ids
are derived; contents stay objects through patches, and signals are taken only if they are
objects.  So in every run each row has the lengths and the kinds that a schema with columns
asks for, whether the store has one or not.
-/

namespace ChainFold

/-! ## Columns -/

namespace Json

/-- A text of one to `limit` characters. -/
def IsBounded (limit : Nat) (j : Json) : Prop := ∃ s, j = .str s ∧ 1 ≤ s.length ∧ s.length ≤ limit

def IsNullOrBounded (limit : Nat) (j : Json) : Prop := j = .null ∨ j.IsBounded limit

end Json

/-- The columns of an event: identifiers, and at least one block of bytes. -/
structure Event.FitsColumns (e : Event) : Prop where
  cid : e.cid.IsBounded 70
  genesis : e.genesis.IsBounded 70
  prev : e.prev.IsNullOrBounded 70
  blocks_ne_nil : e.blocks ≠ []
  blocks_bytes : ∀ b ∈ e.blocks, ∃ bs, b = .bytes bs

structure Stream.FitsColumns (row : Stream) : Prop where
  id : Ident.isStreamId row.id = true
  tip : row.tip.IsBounded 70
  model : row.model.IsNullOrBounded 70
  account : row.account.IsNullOrBounded 100
  content : row.content.isObject = true

structure Folder.FitsColumns (f : Folder) : Prop where
  stream : Ident.isStreamId f.stream = true
  tip : f.tip.IsBounded 70
  signal : ∀ signal, f.signal = some signal → signal.isObject = true

/-- Every row of every table fits its columns. -/
structure Tables.FitColumns (t : Tables) : Prop where
  events : ∀ k e, t.events.get? k = some e → e.FitsColumns
  streams : ∀ k row, t.streams.get? k = some row → row.FitsColumns
  folders : ∀ k f, t.folders.get? k = some f → f.FitsColumns

/-! ## What the checks establish -/

namespace Ident

variable {limit : Nat} {j : Json}

theorem isBounded_of_fault?_text {allowNull : Bool} {s : String}
    (h : fault? allowNull (.ofNat limit) (.str s) = none) : (Json.str s).IsBounded limit := by
  have hsome : (Json.str s).isUnusable limit = false := by
    rw [← Engine.fault?_isSome_text]
    exact congrArg Option.isSome h
  have hlengths : s ≠ "" ∧ s.length ≤ limit := by simpa [Json.isUnusable] using hsome
  refine ⟨s, rfl, ?_, hlengths.2⟩
  apply Nat.one_le_iff_ne_zero.mpr
  intro hzero
  exact hlengths.1 (String.length_eq_zero_iff.mp hzero)

theorem isBounded_of_fault? (h : fault? false (.ofNat limit) j = none) : j.IsBounded limit := by
  obtain ⟨s, rfl, -⟩ := exists_text_of_fault? h
  exact isBounded_of_fault?_text h

theorem isNullOrBounded_of_fault? (h : fault? true (.ofNat limit) j = none) :
    j.IsNullOrBounded limit := by
  rcases text_or_null_of_fault? h with rfl | ⟨s, rfl⟩
  · exact .inl rfl
  · exact .inr (isBounded_of_fault?_text h)

end Ident

theorem Event.fitsColumns_of_validate {limit : Option Amount} {e : Event}
    (h : e.validate limit = .ok e) : e.FitsColumns := by
  obtain ⟨-, hwf⟩ := Event.validate_eq_ok h
  have hids : idFault? e = none := by
    unfold validate at h
    cases hfault : fault? limit e with
    | some reason => simp [hfault] at h
    | none => exact (Option.or_eq_none_iff.mp (Option.or_eq_none_iff.mp hfault).1).1
  unfold idFault? at hids
  cases hcid : Ident.fault? false Ident.maxLength e.cid with
  | some reason => simp [hcid] at hids
  | none =>
      cases hgenesis : Ident.fault? false Ident.maxLength e.genesis with
      | some reason => simp [hcid, hgenesis] at hids
      | none =>
          rw [hcid, hgenesis] at hids
          exact ⟨Ident.isBounded_of_fault? hcid, Ident.isBounded_of_fault? hgenesis,
            Ident.isNullOrBounded_of_fault? (Option.map_eq_none_iff.mp hids), hwf.blocks_ne_nil,
            hwf.blocks_bytes⟩

theorem Resolution.isNullOrBounded_of_headerFault? {s : Fold.State} (h : headerFault? s = none) :
    s.model.IsNullOrBounded 70 ∧ s.account.IsNullOrBounded 100 := by
  unfold headerFault? at h
  cases hmodel : Ident.fault? true Ident.maxLength s.model with
  | some reason => simp [hmodel] at h
  | none =>
      rw [hmodel] at h
      exact ⟨Ident.isNullOrBounded_of_fault? hmodel,
        Ident.isNullOrBounded_of_fault? (Option.map_eq_none_iff.mp h)⟩

theorem Signal.isObject_of_among? {ms : Members} {signal : Json} (h : among? ms = some signal) :
    signal.isObject = true :=
  (Option.filter_eq_some_iff.mp h).2

theorem Signal.isObject_of_ofContent? {content signal : Json}
    (h : ofContent? content = some signal) : signal.isObject = true := by
  cases content with
  | obj ms =>
      rcases Option.or_eq_some_iff.mp h with h | ⟨-, h⟩
      · exact isObject_of_among? h
      · obtain ⟨os, -, hsignal⟩ := Option.bind_eq_some_iff.mp h
        exact isObject_of_among? hsignal
  | null | bool | int | double | str | arr => cases h

/-! ## Runs -/

namespace Engine

variable {en : Engine} {t : Tables} {row : Stream} {f : Folder} {k : Key} {b : Backend}

/-- An extractor that yields objects or nothing. -/
def YieldsObjects (extract : Extractor) : Prop :=
  ∀ content signal, extract content = .ok (some signal) → signal.isObject = true

theorem yieldsObjects_ownSignal : YieldsObjects Index.ownSignal :=
  fun _ _ h => Signal.isObject_of_ofContent? (Except.ok.inj h)

/-- A row fits if the events of its stream do and its first event has a usable header. -/
theorem fitsColumns_of_projects (hs : t.Sound b) (hrow : t.streams.get? k = some row)
    (hevents : ∀ x, t.Stores x → x.FitsColumns)
    (hheaded : ∀ x s, t.Stores x → Fold.State.ofGenesis x = .ok s →
      Resolution.headerFault? s = none) : row.FitsColumns := by
  obtain ⟨g, tip, chain, s, hk, hp⟩ := hs.projects k row hrow
  obtain ⟨first, rest, rfl, -, -⟩ := hp.lineage.exists_cons
  have hfirst : t.Stores first := hp.lineage.known_of_mem hp.stored List.mem_cons_self
  obtain ⟨s₀, hs₀, hrest⟩ : ∃ s₀, Fold.State.ofGenesis first = .ok s₀ ∧
      s₀.advanceAll rest = .ok s := by
    have hfold := hp.fold
    unfold Fold.State.ofChain at hfold
    cases hstart : Fold.State.ofGenesis first with
    | error d => simp [hstart] at hfold
    | ok s₀ => exact ⟨s₀, rfl, by simpa [hstart] using hfold⟩
  obtain ⟨hmodel, haccount⟩ := Fold.State.header_of_advanceAll hrest
  obtain ⟨hm, ha⟩ := Resolution.isNullOrBounded_of_headerFault? (hheaded first s₀ hfirst hs₀)
  constructor
  case id =>
    rw [hp.id_eq]
    exact Ident.isStreamId_streamId g
  case tip => exact hp.tip_eq ▸ (hevents tip hp.stored).cid
  case model => rwa [hp.model_eq, hmodel]
  case account => rwa [hp.account_eq, haccount]
  case content => exact hp.isObject

theorem fitsColumns_of_shows {extract : Extractor} (hx : YieldsObjects extract)
    (hrow : row.FitsColumns) (h : Index.Shows extract row f) : f.FitsColumns := by
  constructor
  case stream => exact h.stream_eq ▸ hrow.id
  case tip => exact h.tip_eq ▸ hrow.tip
  case signal =>
    intro signal hsignal
    obtain ⟨found, hextract, hpart⟩ := h.signal_alike
    rcases hpart.cases with ⟨hnone, -⟩ | ⟨x, y, hx', rfl, halike⟩
    · cases hsignal.symm.trans hnone
    · obtain rfl := Option.some.inj (hsignal.symm.trans hx')
      exact halike.isObject_eq.trans (hx _ y hextract)

/--
In every run over an empty store every row has the lengths and kinds of its columns, whatever
is submitted; that holds in memory, where no schema is there to refuse a row, as in the others.
-/
theorem Fresh.rows_fit (h : en.Fresh) (hextract : en.extract = Index.ownSignal)
    (ops : List Operation) : (en.after ops).tables.FitColumns := by
  have hs := (h.steady.after ops).sound
  have hempty : en.tables.Indexed en.extract := h.tables_eq ▸ Tables.indexed_empty en.extract
  have hi := h.steady.indexed_after (hextract ▸ Index.mapsEqual_ownSignal) hempty ops
  have hevents : ∀ x, (en.after ops).tables.Stores x → x.FitsColumns := by
    intro x hx
    obtain ⟨e, hvalid, hrest⟩ := bind_eq_ok.mp (h.vetted ops hx).admitted
    obtain ⟨rfl, -⟩ := Event.validate_eq_ok hvalid
    exact Event.fitsColumns_of_validate hvalid
  have hstreams : ∀ k row, (en.after ops).tables.streams.get? k = some row → row.FitsColumns := by
    intro k row hrow
    exact fitsColumns_of_projects hs hrow hevents fun x s hx => (h.vetted ops hx).headed s
  constructor
  case events => exact fun k e he => hevents e ⟨k, he⟩
  case streams => exact hstreams
  case folders =>
    intro k f hf
    obtain ⟨row, hrow⟩ := hi.no_other k f hf
    obtain ⟨f', hf', hshows⟩ := hi.shown k row hrow
    obtain rfl := Option.some.inj (hf.symm.trans hf')
    exact fitsColumns_of_shows (hextract ▸ yieldsObjects_ownSignal) (hstreams k row hrow) hshows

/-- An event with a cid that is too long is not stored, and a signal that is no object not shown. -/
theorem rows_fit_sample :
    let long := String.ofList (List.replicate 71 'x')
    let en := (sampleEngine .memory none).after
      [.submit { sampleGenesis with cid := .str long, genesis := .str long } sampleOwner,
        .submit sampleGenesis sampleOwner,
        .submit (sampleSignal "second" "first" (some (.str "kind"))) .none]
    en.tables.FitColumns ∧ en.tables.events.values.map Event.cid = ["first", "second"] ∧
      en.tables.folders.values.map Folder.signal = [none] := by
  intro long en
  have hfresh : (sampleEngine .memory none).Fresh := ⟨rfl, by simp [sampleEngine, successor]⟩
  have hfit : en.tables.FitColumns := hfresh.rows_fit rfl _
  exact ⟨hfit, by decide +kernel, by decide +kernel⟩

end Engine

end ChainFold
