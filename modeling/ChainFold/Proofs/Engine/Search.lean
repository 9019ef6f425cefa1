import ChainFold.Proofs.Engine.Scans
import ChainFold.Proofs.Json.Equality

/-!
# Looking for a value

The stream that is found under a model, a key and a value is the first one of the model whose
content has an equal value under the key.  For null this is not so: in memory and in one of the
other backends a content without the key counts as one with null, and the third backend finds no
null at all.
-/

namespace ChainFold

/-- Whether the content of a stream has an equal value under a key. -/
def Stream.HasValue (key : String) (value : Json) (row : Stream) : Prop :=
  ∃ ms found, row.content = .obj ms ∧ Members.get? key ms = some found ∧ found.Equals value

/-- Whether the content of a stream has nothing under a key. -/
def Stream.Lacks (key : String) (row : Stream) : Prop :=
  ∃ ms, row.content = .obj ms ∧ Members.get? key ms = none

/--
Whether a stream is taken wrongly when null is looked for under a key: one backend passes over a
null that is there, and the others take what is not there for one.
-/
def Stream.Misjudged (b : Backend) (key : String) (row : Stream) : Prop :=
  match b with
  | .sqlite => row.HasValue key .null
  | .memory | .duckdb => row.Lacks key

namespace Tables

variable {b : Backend} {t : Tables} {key model : String} {value : Json} {row : Stream}

/-- A value is shown where an equal one is, and null is where there is nothing. -/
theorem shows_iff : shows key value row = true ↔
    row.HasValue key value ∨ row.Lacks key ∧ Json.null.looselySame value = true := by
  unfold shows Stream.HasValue Stream.Lacks
  cases hcontent : row.content with
  | obj ms =>
      cases hget : Members.get? key ms with
      | none => simp [Json.field, hget]
      | some found => simp [Json.field, hget, Json.looselySame_iff]
  | null | bool | int | double | str | arr => simp

/-- A value other than null is shown where it is, and is inspected there. -/
theorem found_iff_of_ne_null (hvalue : value ≠ .null) :
    inspects b key row = true ∧ shows key value row = true ↔ row.HasValue key value := by
  have hshows : shows key value row = true ↔ row.HasValue key value := by
    rw [shows_iff, null_looselySame hvalue]
    simp
  rw [hshows]
  refine and_iff_right_of_imp fun hrow => ?_
  simp [inspects, offers_of_shows hvalue (hshows.mpr hrow)]

/-- Null is shown where it is, and where there is nothing. -/
theorem found_null_iff (hb : b ≠ .sqlite) :
    inspects b key row = true ∧ shows key .null row = true ↔
      row.HasValue key .null ∨ row.Lacks key := by
  have hnull : Json.null.looselySame .null = true := rfl
  rw [shows_iff, hnull]
  simp [inspects, hb]

/-- One backend inspects no null. -/
theorem not_found_null : ¬ (inspects .sqlite key row = true ∧ shows key .null row = true) := by
  rintro ⟨hoffers, hshows⟩
  simp only [inspects, bne_self_eq_false, Bool.false_or, offers] at hoffers
  unfold shows at hshows
  cases hcontent : row.content with
  | obj ms =>
      rw [hcontent] at hoffers hshows
      obtain ⟨v, hv⟩ := Option.isSome_iff_exists.mp hoffers
      obtain ⟨found, hget, hfound⟩ := Option.bind_eq_some_iff.mp hv
      simp only [Json.field, hget, Option.getD_some] at hshows
      cases found with
      | null => cases hfound
      | bool | int | double | str | arr | obj => cases hshows
  | null | bool | int | double | str | arr => simp [hcontent] at hshows

theorem found_null_iff_of_not_misjudged (h : ¬ row.Misjudged b key) :
    inspects b key row = true ∧ shows key .null row = true ↔ row.HasValue key .null := by
  cases b with
  | sqlite => exact iff_of_false not_found_null h
  | memory => exact (found_null_iff (by decide)).trans (or_iff_left h)
  | duckdb => exact (found_null_iff (by decide)).trans (or_iff_left h)

/-- What is found is the first stream of the model that is inspected and shows the value. -/
theorem findsFirst_of_findStream (hn : t.StreamsNamed)
    (hobj : ∀ s ∈ t.streams.values, s.content.isObject = true)
    (haddr : b = .sqlite → ∀ s ∈ t.streams.values, s.model = .str model →
      ∀ ms, s.content = .obj ms → Path.Addresses key ms) (value : Json) : ∃ found,
    t.findStream b (.str model) (.str key) value = .ok found ∧ t.FindsFirst (fun s =>
      s.model = .str model ∧ inspects b key s = true ∧ shows key value s = true) found := by
  refine ⟨_, findStream_inspected hn hobj model haddr value, ?_⟩
  rw [← List.head?_filter, List.filter_filter, List.filter_filter]
  exact (hn.enumerates fun row => by simp [and_comm]).findsFirst

end Tables

namespace Engine

variable {en : Engine} {key model : String} {value : Json}

theorem findByContent_eq (en : Engine) (model key value : Json) :
    (en.findByContent model key value).1 =
      en.checkOpen >>= fun _ => en.tables.findStream en.backend model key value := by
  obtain ⟨d, hd, -⟩ := observe_of_isPlain (w := en.readByContent model key value)
    (reading_isPlain (r := fun t => t.findStream en.backend model key value) (.ofExcept _)) en
  rw [findByContent, hd]

/-- What holds of looking for values under a key in the streams of a model. -/
structure FindsContent (en : Engine) (model key : String) : Prop where
  /-- A value is found where it is, and null is if no stream of the model is misjudged. -/
  value : ∀ value, (value = .null → ∀ k row, en.tables.streams.get? k = some row →
      row.model = .str model → ¬ row.Misjudged en.backend key) →
    ∃ found, (en.findByContent (.str model) (.str key) value).1 = .ok found ∧
      en.tables.FindsFirst (fun row => row.model = .str model ∧ row.HasValue key value) found
  /-- Where null is looked for, nothing under the key counts as null. -/
  null : en.backend ≠ .sqlite →
    ∃ found, (en.findByContent (.str model) (.str key) .null).1 = .ok found ∧
      en.tables.FindsFirst (fun row =>
        row.model = .str model ∧ (row.HasValue key .null ∨ row.Lacks key)) found
  /-- One backend does not look for null. -/
  no_null : en.backend = .sqlite →
    (en.findByContent (.str model) (.str key) .null).1 = .ok none

/-- In a steady engine the first stream is found that is inspected and shows the value. -/
theorem Steady.exists_found (hst : en.Steady) (hopen : en.checkOpen = .ok ())
    (haddr : en.backend = .sqlite → ∀ k row, en.tables.streams.get? k = some row →
      row.model = .str model → ∀ ms, row.content = .obj ms → Path.Addresses key ms)
    (value : Json) : ∃ found, (en.findByContent (.str model) (.str key) value).1 = .ok found ∧
      en.tables.FindsFirst (fun row => row.model = .str model ∧
        Tables.inspects en.backend key row = true ∧ Tables.shows key value row = true) found := by
  have hpaths : en.backend = .sqlite → ∀ s ∈ en.tables.streams.values,
      s.model = .str model → ∀ ms, s.content = .obj ms → Path.Addresses key ms := by
    intro hb s hmem
    obtain ⟨k, hrow⟩ := Table.mem_values_iff.mp hmem
    exact haddr hb k s hrow
  obtain ⟨found, hfound, hfirst⟩ := Tables.findsFirst_of_findStream hst.sound.streamsNamed
    hst.sound.content_isObject hpaths value
  refine ⟨found, ?_, hfirst⟩
  rw [findByContent_eq, hopen, ok_bind, hfound]

/--
In every run over an empty store the first stream of a model with a value under a key is found, and
none only if there is none, for every value but null; the path of the key must find what is under
the key where a backend goes by paths.
-/
theorem Fresh.content_found (h : en.Fresh) (hopen : en.checkOpen = .ok ()) (ops : List Operation)
    (model key : String) (haddr : en.backend = .sqlite → ∀ k row,
      (en.after ops).tables.streams.get? k = some row → row.model = .str model →
        ∀ ms, row.content = .obj ms → Path.Addresses key ms) :
    (en.after ops).FindsContent model key := by
  have hbackend : (en.after ops).backend = en.backend := (after_sameSetup en ops).backend_eq
  rw [← hbackend] at haddr
  have hfind := (h.steady.after ops).exists_found (checkOpen_after hopen ops) haddr
  constructor
  case value =>
    intro value hnull
    obtain ⟨found, hfound, hfirst⟩ := hfind value
    refine ⟨found, hfound, hfirst.congr fun k row hrow => ?_⟩
    by_cases hvalue : value = .null
    · subst hvalue
      refine and_congr_right fun hmodel => ?_
      exact Tables.found_null_iff_of_not_misjudged (hnull rfl k row hrow hmodel)
    · rw [Tables.found_iff_of_ne_null hvalue]
  case null =>
    intro hb
    obtain ⟨found, hfound, hfirst⟩ := hfind .null
    refine ⟨found, hfound, hfirst.congr fun k row hrow => ?_⟩
    rw [Tables.found_null_iff hb]
  case no_null =>
    intro hb
    obtain ⟨found, hfound, hfirst⟩ := hfind .null
    cases found with
    | none => exact hfound
    | some row =>
        rw [hb] at hfirst
        obtain ⟨-, ⟨-, hrow⟩, -⟩ := hfirst
        exact absurd hrow Tables.not_found_null

/-- Among notes with a number, a truth value and another key one is found by an equal value. -/
theorem content_found_sample :
    let note (cid : String) (data : Json) : Operation :=
      .submit (sampleNote cid "ann" data) sampleOwner
    let en := (sampleEngine .sqlite (some (.empty (.ofNat 1)))).after
      [note "a" (.obj [("n", .int 2)]), note "b" (.obj [("n", .bool true), ("m", .null)]),
        note "c" (.obj [("m", .int 1)])]
    let found (value : Json) := (en.findByContent "notes" "n" value).1.map (·.map Stream.id)
    en.FindsContent "notes" "n" ∧ [found (.int 1), found (.int 3)] =
      [.ok (some (.str (Ident.streamId "b"))), .ok none] := by
  intro note en found
  have hplain : Path.PlainKey "n" := by decide +kernel
  have hfinds : en.FindsContent "notes" "n" :=
    (sampleEngine_fresh .sqlite (.ofNat 1)).content_found rfl _ "notes" "n"
      fun _ _ _ _ _ ms _ => Path.finds_of_plain hplain ms
  exact ⟨hfinds, by decide +kernel⟩

/-- In memory null is found where there is nothing, and elsewhere not even where it is. -/
theorem null_misjudged :
    let found (b : Backend) (data : Json) :=
      (((sampleEngine b none).after [.submit (sampleNote "a" "ann" data) sampleOwner]).findByContent
        "notes" "x" .null).1.map (·.map Stream.id)
    found .memory (.obj [("n", .int 0)]) = .ok (some (.str (Ident.streamId "a"))) ∧
      found .sqlite (.obj [("x", .null)]) = .ok none := by
  decide +kernel

end Engine

end ChainFold
