import ChainFold.Proofs.Engine.Projection

/-!
# Streams are what their chains project to

In every run that starts from an empty store each stream can be recomputed: the chain
from its genesis event to its tip is found among the stored events, and its projection
without any held state gives the content, the model and the account of the row.
-/

namespace ChainFold

/-- A stored stream is what the chain from its genesis event to its tip projects to. -/
structure Tables.Mirrors (b : Backend) (t : Tables) (row : Stream) (genesis : Event)
    (rest : List Event) (s : Fold.State) : Prop where
  /-- The stream is that of the genesis event. -/
  id_eq : ∃ id, Engine.streamOf genesis = .ok id ∧ row.id = .str id
  /-- A look-up of the stream gives the row. -/
  found : t.stream? b row.id = .ok (some row)
  /-- The chain to the tip is found among all stored events. -/
  chain_eq : Chain.toTip t.events.values genesis.cid row.tip = .ok (genesis :: rest)
  /-- So it is among the stored events that name the genesis event. -/
  chain_of_events_eq : (do Chain.toTip (← t.eventsOf b genesis.cid) genesis.cid row.tip) =
    .ok (genesis :: rest)
  /-- The chain projects without held states. -/
  projected : ∀ d : Desk, d.recent = none → ((Fold.project (genesis :: rest)).on d).1 = .ok s
  tip_eq : s.tip = row.tip
  content_eq : s.content.canonical = row.content.canonical
  /-- The row has the model and the first controller of the header of the genesis event. -/
  header_eq : ∃ p, genesis.payload = .ok p ∧
    row.model = ((p.header.getD .blank).model).getD .null ∧
    row.account = (p.header.getD .blank).account

namespace Tables

variable {b : Backend} {t : Tables} {row : Stream} {g : String} {tip : Event}
  {chain : List Event} {s : Fold.State}

theorem Sound.exists_mirrors (hs : t.Sound b)
    (hrow : t.streams.get? (.text (Ident.streamId g)) = some row)
    (hp : t.Projects b row g tip chain s) :
    ∃ genesis rest, chain = genesis :: rest ∧ t.Mirrors b row genesis rest s := by
  obtain ⟨genesis, rest, rfl, hprev, hcid⟩ := hp.lineage.exists_cons
  have hg : genesis.cid = .str g := hcid.trans hp.genesis_eq
  have hstored : t.Stores genesis := hp.lineage.known_of_mem hp.stored (by simp)
  have hgenesis : genesis.genesis = .str g :=
    (hp.lineage.genesis_eq_of_mem (by simp)).trans hp.genesis_eq
  obtain ⟨p, hpayload, hmodel, haccount⟩ := Fold.State.header_of_ofChain hp.fold
  refine ⟨genesis, rest, rfl, ?_⟩
  constructor
  case id_eq => exact ⟨_, (hs.wellFormed_of_stores hstored).streamOf_eq hgenesis, hp.id_eq⟩
  case found =>
    rw [hp.id_eq]
    exact Tables.stream?_of_some hrow hp.isObject
  case chain_eq =>
    rw [hg, hp.tip_eq]
    exact hs.toTip_values hp.lineage hp.stored hp.genesis_eq
  case chain_of_events_eq =>
    rw [hg, hp.tip_eq]
    exact hs.toTip_eventsOf hp.lineage hp.stored hp.genesis_eq
  case projected =>
    intro d hd
    obtain ⟨d', hd', -⟩ := Fold.project_of_none hd (genesis :: rest)
    rw [hd', hp.fold]
  case tip_eq => exact hp.tip_of_fold.trans hp.tip_eq.symm
  case content_eq => exact hp.agree.content.canonical_eq.symm
  case header_eq =>
    exact ⟨p, hpayload, hp.model_eq.trans hmodel, hp.account_eq.trans haccount⟩

end Tables

namespace Engine

variable {en : Engine}

/--
Whatever has been submitted, rebuilt, projected and read since the store was empty, every
stored stream is what the chain from its genesis event to its tip projects to.
-/
theorem Fresh.streams_mirrored (h : en.Fresh) (ops : List Operation) {k : Key} {row : Stream}
    (hrow : (en.after ops).tables.streams.get? k = some row) :
    ∃ genesis rest s, (en.after ops).tables.Mirrors (en.after ops).backend row genesis rest s := by
  have hsound := (h.steady.after ops).sound
  obtain ⟨g, tip, chain, s, rfl, hp⟩ := hsound.projects k row hrow
  obtain ⟨genesis, rest, -, hmirrors⟩ := hsound.exists_mirrors hrow hp
  exact ⟨genesis, rest, s, hmirrors⟩

/-- A stream that was rebuilt after a loser of its tip was refused is what its chain projects to. -/
theorem streams_mirrored_sample :
    let ops := [.submit sampleGenesis sampleOwner, .submit (sampleUpdate "second" "first" 1) .none,
      .submit (sampleUpdate "other" "first" 2) .none,
      .branch (.str (Ident.streamId "first")) (.str "other"),
      .rebuild (.str (Ident.streamId "first")), .submit (sampleUpdate "third" "second" 3) .none]
    let en := (sampleEngine .sqlite (some (.empty (.ofNat 1)))).after ops
    ∃ k row genesis rest s, en.tables.streams.get? k = some row ∧ row.tip = .str "third" ∧
      en.tables.Mirrors en.backend row genesis rest s := by
  intro ops en
  have htip : (en.tables.streams.get? (.text (Ident.streamId "first"))).map Stream.tip =
      some (.str "third") := by decide +kernel
  obtain ⟨row, hrow, htip⟩ := Option.map_eq_some_iff.mp htip
  obtain ⟨genesis, rest, s, hmirrors⟩ :=
    (sampleEngine_fresh .sqlite (.ofNat 1)).streams_mirrored ops hrow
  exact ⟨_, row, genesis, rest, s, hrow, htip, hmirrors⟩

end Engine

end ChainFold
