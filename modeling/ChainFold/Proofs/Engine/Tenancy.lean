import ChainFold.Proofs.Engine.Ownership
import ChainFold.Proofs.Engine.Scans
import ChainFold.Proofs.Uuid.Spelling

/-!
# Streams of an owner

A stream is to be listed by the owner that its genesis submission has named.  A submission
reads an owner in any spelling; a list compares texts, or reads strictly, depending on the
backend.  So the streams of the owner are listed, exactly these, if the spelling is one that
the backend recognises, and a UUID that is no text always is; in any other spelling nothing is
listed, or the query fails.
-/

namespace ChainFold

/-- The text that an owner is written with, if one is given. -/
def Engine.OwnerClaim.written? : OwnerClaim → Option String
  | .none => Option.none
  | .uuid u => some u.toText
  | .text s => some s

/-- Whether an owner in a spelling is recognised as the owner of a row. -/
def Backend.Recognises (b : Backend) (text : String) (owner : Uuid) : Prop :=
  match b with
  | .memory | .sqlite => text = owner.toText
  | .duckdb => Uuid.readStrict? text = some owner

theorem Backend.recognises_toText (b : Backend) (owner : Uuid) :
    b.Recognises owner.toText owner := by
  cases b with
  | memory | sqlite => rfl
  | duckdb => exact Uuid.readStrict?_toText owner

theorem Backend.recognises_iff {b : Backend} {text : String} {owner : Uuid} (hb : b ≠ .duckdb) :
    b.Recognises text owner ↔ text = owner.toText := by
  cases b with
  | memory | sqlite => exact Iff.rfl
  | duckdb => exact absurd rfl hb

/-- The filter that asks for the streams of an owner. -/
def Filter.ownedBy (text : String) : Filter := ⟨.null, .null, some text, .null⟩

namespace Tables

variable {b : Backend} {t : Tables} {text : String} {owner : Uuid}

theorem ownedAs_iff (row : Stream) : ownedAs row text = true ↔ text = row.owner.toText := by
  rw [ownedAs, beq_iff_eq, eq_comm]

theorem select_all (rows : List Stream) : b.select [] rows = .ok rows := by
  rw [Backend.select_texts (by simp)]
  simp

theorem conditions_ownedBy (text : String) : conditions (.ownedBy text) = [] := rfl

/-- Columns are asked for an owner alone, and for all the rows. -/
theorem listStreams_ownedBy (hb : b ≠ .memory) (t : Tables) (text : String) :
    t.listStreams b (.ownedBy text) =
      passing b (.ownedBy text) t.streams.values >>= fun found => found.mapM b.readStream := by
  cases b with
  | memory => exact absurd rfl hb
  | sqlite =>
      show t.queryStreams .sqlite (.ownedBy text) = _
      rw [queryStreams, conditions_ownedBy]
      rfl
  | duckdb =>
      show t.queryStreams .duckdb (.ownedBy text) = _
      rw [queryStreams, conditions_ownedBy]
      rfl

theorem listStreams_ownedBy_text (hn : t.StreamsNamed)
    (hobj : ∀ s ∈ t.streams.values, s.content.isObject = true) (hb : b ≠ .duckdb) :
    t.listStreams b (.ownedBy text) = .ok (t.streams.values.filter (ownedAs · text)) := by
  cases b with
  | memory =>
      have hmemory : Backend.memory.isRelational = false := rfl
      rw [listStreams, hmemory, hn.ordered]
      exact collect_of_null rfl 0 _
  | sqlite =>
      have hpassing : passing .sqlite (.ownedBy text) t.streams.values =
          .ok (t.streams.values.filter (ownedAs · text)) := by
        rw [passing, conditions_ownedBy]
        simp [Filter.ownedBy, select_all]
      rw [listStreams_ownedBy (by decide), hpassing]
      exact mapM_readStream fun s hs => hobj s (List.mem_of_mem_filter hs)
  | duckdb => exact absurd rfl hb

/-- What is read as an owner is compared with owners. -/
theorem listStreams_ownedBy_uuid (hobj : ∀ s ∈ t.streams.values, s.content.isObject = true)
    (htext : Uuid.readStrict? text = some owner) :
    t.listStreams .duckdb (.ownedBy text) =
      .ok (t.streams.values.filter fun row => row.owner == owner) := by
  have hpassing : passing .duckdb (.ownedBy text) t.streams.values =
      .ok (t.streams.values.filter fun row => row.owner == owner) := by
    rw [passing, conditions_ownedBy]
    simp [Filter.ownedBy, htext, select_all]
  rw [listStreams_ownedBy (by decide), hpassing]
  exact mapM_readStream fun s hs => hobj s (List.mem_of_mem_filter hs)

/-- What is read as no owner fails the query, if there is a row to compare it with. -/
theorem listStreams_ownedBy_unread (htext : Uuid.readStrict? text = none)
    (hrows : t.streams.values ≠ []) :
    t.listStreams .duckdb (.ownedBy text) = .error Backend.duckdb.refusal := by
  have hpassing : passing .duckdb (.ownedBy text) t.streams.values =
      .error Backend.duckdb.refusal := by
    rw [passing, conditions_ownedBy]
    simp [Filter.ownedBy, htext, select_all, hrows]
  rw [listStreams_ownedBy (by decide), hpassing]
  rfl

/-- The streams of an owner are listed in a spelling that is recognised. -/
theorem exists_list_of_recognised (hn : t.StreamsNamed)
    (hobj : ∀ s ∈ t.streams.values, s.content.isObject = true) (h : b.Recognises text owner) :
    ∃ rows, t.listStreams b (.ownedBy text) = .ok rows ∧
      t.Enumerates (fun row => row.owner = owner) rows := by
  by_cases hb : b = .duckdb
  · subst hb
    exact ⟨_, listStreams_ownedBy_uuid hobj h, hn.enumerates fun row => beq_iff_eq⟩
  · obtain rfl := (Backend.recognises_iff hb).mp h
    refine ⟨_, listStreams_ownedBy_text hn hobj hb, hn.enumerates fun row => ?_⟩
    rw [ownedAs_iff]
    exact ⟨fun heq => (Uuid.toText_injective heq).symm, fun heq => heq ▸ rfl⟩

/-- In any other spelling of the owner no stream is found, or none can be looked for. -/
theorem list_of_unrecognised (hn : t.StreamsNamed)
    (hobj : ∀ s ∈ t.streams.values, s.content.isObject = true) (hrows : t.streams.values ≠ [])
    (hread : ∀ u, Uuid.readStrict? text = some u → u = owner) (h : ¬ b.Recognises text owner) :
    t.listStreams b (.ownedBy text) =
      if b = .duckdb then .error Backend.duckdb.refusal else .ok [] := by
  by_cases hb : b = .duckdb
  · subst hb
    rw [if_pos rfl]
    refine listStreams_ownedBy_unread ?_ hrows
    cases hu : Uuid.readStrict? text with
    | none => rfl
    | some u => exact absurd (hread u hu ▸ hu) h
  · rw [if_neg hb, listStreams_ownedBy_text hn hobj hb]
    congr 1
    refine List.filter_eq_nil_iff.mpr fun row _ howned => ?_
    have htext := (ownedAs_iff row).mp howned
    obtain rfl := hread row.owner (htext ▸ Uuid.readStrict?_toText row.owner)
    exact h ((Backend.recognises_iff hb).mpr htext)

end Tables

namespace Engine

variable {en : Engine} {reg : Registry} {p : Payload} {claim : OwnerClaim} {e : Event}
  {id text : String} {owner : Uuid}

theorem given?_of_names (h : Names reg p claim owner) (htext : claim.written? = some text) :
    claim.given? = some owner := by
  cases claim with
  | none => cases htext
  | uuid u => exact congrArg some (Eq.symm h)
  | text s =>
      have hread : Uuid.read s = .ok owner := h
      rw [OwnerClaim.given?, hread]
      rfl

/-- An owner is read strictly as what it is given as, if it is read strictly at all. -/
theorem eq_of_given? (h : claim.given? = some owner) (htext : claim.written? = some text) {u : Uuid}
    (hu : Uuid.readStrict? text = some u) : u = owner := by
  cases claim with
  | none => cases htext
  | uuid v =>
      obtain rfl := Option.some.inj htext
      exact Option.some.inj ((hu.symm.trans (Uuid.readStrict?_toText v)).trans h)
  | text s =>
      obtain rfl := Option.some.inj htext
      rw [OwnerClaim.given?, Uuid.read_of_readStrict? hu] at h
      exact Option.some.inj h

/-- What holds of the list of the streams of an owner, once one of them has been created. -/
structure ListsOwned (en : Engine) (id text : String) (owner : Uuid) : Prop where
  stored : ∃ row, en.tables.streams.get? (.text id) = some row ∧ row.id = .str id ∧
    row.owner = owner
  recognised : en.backend.Recognises text owner → ∃ rows,
    (en.listStreams (.ownedBy text)).1 = .ok rows ∧
      en.tables.Enumerates (fun row => row.owner = owner) rows ∧ ∃ row ∈ rows, row.id = .str id
  /-- In another spelling the owner has no streams, or cannot be looked for. -/
  unrecognised : ¬ en.backend.Recognises text owner → (en.listStreams (.ownedBy text)).1 =
    if en.backend = .duckdb then .error Backend.duckdb.refusal else .ok []

theorem Steady.listsOwned (hst : en.Steady) (hopen : en.checkOpen = .ok ()) {row : Stream}
    (hrow : en.tables.streams.get? (.text id) = some row) (hgiven : claim.given? = some row.owner)
    (htext : claim.written? = some text) : en.ListsOwned id text row.owner := by
  have hn := hst.sound.streamsNamed
  have hobj := hst.sound.content_isObject
  obtain ⟨id', hkey, hid⟩ := hn _ row hrow
  obtain rfl : id = id' := Key.text.inj hkey
  have hlist := listStreams_eq en (.ownedBy text)
  rw [hopen, ok_bind] at hlist
  refine ⟨⟨row, hrow, hid, rfl⟩, ?_, ?_⟩
  · intro hrecognised
    obtain ⟨rows, hrows, hall⟩ := Tables.exists_list_of_recognised hn hobj hrecognised
    exact ⟨rows, hlist.trans hrows, hall, row, (hall.mem_iff row).mpr ⟨⟨_, hrow⟩, rfl⟩, hid⟩
  · intro hunrecognised
    have hmem : row ∈ en.tables.streams.values := Table.mem_values_iff.mpr ⟨_, hrow⟩
    exact hlist.trans (Tables.list_of_unrecognised hn hobj (List.ne_nil_of_mem hmem)
      (fun u hu => eq_of_given? hgiven htext hu) hunrecognised)

/--
The streams of an owner are listed by what a genesis submission has named the owner with, the
stream that it creates among them, whatever was called before it and is called later: always if a
UUID was given, and otherwise exactly if the backend recognises the spelling.
-/
theorem Fresh.listed_by_owner (h : en.Fresh) (hopen : en.checkOpen = .ok ())
    (before later : List Operation) (hfounds : (en.after before).Founds e claim id)
    (htext : claim.written? = some text) : ∃ owner, claim.given? = some owner ∧
      (∀ u, claim = .uuid u → en.backend.Recognises text owner) ∧
      (((en.after before).submit e claim).2.after later).ListsOwned id text owner := by
  have hst := h.steady.after before
  obtain ⟨-, p, heading, hheading, hheads⟩ := hst.exists_heads_of_founds hfounds
  have hlater := (hst.submit e claim).heading?_after hheading later
  obtain ⟨row, hrow, rfl⟩ := Tables.exists_row_of_heading? hlater
  have hgiven := given?_of_names hheads.owner_eq htext
  have hopen' : (((en.after before).submit e claim).2.after later).checkOpen = .ok () := by
    have hafter := checkOpen_after hopen (before ++ .submit e claim :: later)
    rw [after_append] at hafter
    exact hafter
  refine ⟨row.owner, hgiven, ?_,
    ((hst.submit e claim).after later).listsOwned hopen' hrow hgiven htext⟩
  rintro u rfl
  obtain rfl := Option.some.inj htext
  obtain rfl : u = row.owner := Option.some.inj hgiven
  exact en.backend.recognises_toText row.owner

/-- A stream is listed by its owner in capitals between braces, and a stream of another is not. -/
theorem listed_by_owner_sample :
    let text := "\x7b7A1F0C7E-2B4D-4C1E-9A57-3F0E8D6B5A21\x7d"
    let note (cid : String) : Event := sampleNote cid "ann" (.obj [("n", .int 0)])
    let en := sampleEngine .duckdb (some (.empty (.ofNat 1)))
    let after :=
      ((en.after [.submit (note "a") sampleOwner]).submit (note "b") (.text text)).2.after
        [.submit (note "c") sampleOwner]
    (∃ owner, (OwnerClaim.text text).given? = some owner ∧
      (∀ u, OwnerClaim.text text = .uuid u → en.backend.Recognises text owner) ∧
      after.ListsOwned (Ident.streamId "b") text owner) ∧
      (after.listStreams (.ownedBy text)).1.map (·.map Stream.id) =
        .ok [.str (Ident.streamId "b")] := by
  intro text note en after
  have hfounds : (en.after [.submit (note "a") sampleOwner]).Founds (note "b") (.text text)
      (Ident.streamId "b") :=
    ⟨rfl, by decide +kernel, ⟨⟨.str (Ident.streamId "b"), "b", "b", .applied, none⟩,
      by decide +kernel⟩⟩
  have hlisted := (sampleEngine_fresh .duckdb (.ofNat 1)).listed_by_owner rfl
    [.submit (note "a") sampleOwner] [.submit (note "c") sampleOwner] hfounds rfl
  exact ⟨hlisted, by decide +kernel⟩

/-- In memory a stream is not listed by its owner in the capitals that it was created with. -/
theorem capital_owner_missed :
    let text := "7A1F0C7E-2B4D-4C1E-9A57-3F0E8D6B5A21"
    let submitted := (sampleEngine .memory none).submit sampleGenesis (.text text)
    submitted.1.map (fun r => (r.status, r.stream)) =
        .ok (.applied, .str (Ident.streamId "first")) ∧
      (submitted.2.listStreams (.ownedBy text)).1 = .ok [] := by
  decide +kernel

end Engine

end ChainFold
