import ChainFold.Proofs.Engine.Limits
import ChainFold.Proofs.Engine.Verdict

/-!
# How submissions fail

A submission is documented to fail because the event is malformed, breaks a chain or has
no stream, because its owner is not valid, or because the store or the archive cannot take
it.  Two kinds of payload escape that list: one with a part that no reader of payloads can
take, and one that names a model under a value that nothing can be looked up under.

The list is complete for submissions that stay within the limits of the runtime.
-/

namespace ChainFold

/-- A failure that is documented for submissions. -/
def Failure.isDocumented : Failure → Bool
  | .malformedEvent .. | .brokenChain .. | .unknownStream .. | .invalid .. | .storage .. => true
  | _ => false

/-! ## Payloads that cannot be taken -/

namespace Header

/-- Controllers are taken if they are absent or have parts. -/
theorem controllersOf_eq_error_iff {j : Json} {d : Defect} :
    controllersOf j = .error d ↔ j.isPresent = true ∧ j.parts? = none ∧ d = .wrongKind := by
  unfold controllersOf
  cases hpresent : j.isPresent with
  | false => simp
  | true =>
      cases j with
      | str s => simp [Json.parts?]
      | null | bool | int | double | arr | obj => simp [Json.parts?, eq_comm]

theorem ofJson_obj_eq_error_iff {hs : Members} {d : Defect} :
    ofJson (.obj hs) = .error d ↔ (Json.field "controllers" hs).isPresent = true ∧
      (Json.field "controllers" hs).parts? = none ∧ d = .wrongKind := by
  rw [← controllersOf_eq_error_iff]
  unfold ofJson
  cases hs with
  | nil => simp [Json.isPresent, Json.field, Members.get?, controllersOf]
  | cons m rest =>
      cases hread : controllersOf (Json.field "controllers" (m :: rest)) <;>
        simp [Json.isPresent, hread]

end Header

/--
A part of the first block of an event that cannot be taken: an integer with more digits
than are converted, or, at the start of a chain, controllers without parts.
-/
inductive Event.HasUntaken (e : Event) : Defect → Prop
  | integer {bs : Bytes} :
      e.blocks.head? = some (.bytes bs) →
      Json.readBytes bs = .error .hugeInteger →
      HasUntaken e .badValue
  | controllers {bs : Bytes} {ms hs : Members} :
      e.isGenesis = true →
      e.blocks.head? = some (.bytes bs) →
      Json.readBytes bs = .ok (.obj ms) →
      (Json.field "data" ms = .null ∨ (Json.field "data" ms).isObject = true) →
      Json.field "header" ms = .obj hs →
      (Json.field "controllers" hs).isPresent = true →
      (Json.field "controllers" hs).parts? = none →
      HasUntaken e .wrongKind

namespace Payload

variable {cid : Json} {atGenesis : Bool} {ms : Members} {d : Defect}

theorem ofMembers_eq_defect_iff :
    ofMembers cid atGenesis ms = .error (.defect d) ↔ atGenesis = true ∧
      (Json.field "data" ms = .null ∨ (Json.field "data" ms).isObject = true) ∧
      ∃ hs, Json.field "header" ms = .obj hs ∧
        (Json.field "controllers" hs).isPresent = true ∧
        (Json.field "controllers" hs).parts? = none ∧ d = .wrongKind := by
  unfold ofMembers
  cases hheader : Json.field "header" ms with
  | bool | int | double | str | arr => simp [Json.isObject, Json.members?]
  | null =>
      cases atGenesis with
      | false => cases Json.field "data" ms <;> simp
      | true =>
          cases Json.field "data" ms <;>
            simp [Header.ofJson, Json.isPresent, Json.isObject, Json.members?]
  | obj hs =>
      cases atGenesis with
      | false => cases Json.field "data" ms <;> simp [Json.isObject, Json.members?]
      | true =>
          have hread : Header.ofJson (.obj hs) = .error d ↔ _ := Header.ofJson_obj_eq_error_iff
          cases Json.field "data" ms <;> cases hof : Header.ofJson (.obj hs) <;>
            simp_all [Json.isObject, Json.members?]

/-- A payload that is refused in words is refused as malformed. -/
theorem exists_malformed_of_ofMembers {f : Failure} (h : ofMembers cid atGenesis ms = .error f) :
    (∃ reason, f = .malformedEvent cid reason) ∨ ∃ d, f = .defect d := by
  unfold ofMembers at h
  dsimp only at h
  split at h
  · exact .inl ⟨_, (Except.error.inj h).symm⟩
  · split at h
    · split at h
      · exact .inl ⟨_, (Except.error.inj h).symm⟩
      · split at h
        · cases h
        · exact .inr ⟨_, (Except.error.inj h).symm⟩
    · split at h
      · cases h
      · cases h
      · exact .inl ⟨_, (Except.error.inj h).symm⟩

end Payload

namespace Event

variable {e : Event}

theorem WellFormed.exists_payload_eq (hwf : e.WellFormed) : ∃ bs,
    e.blocks.head? = some (.bytes bs) ∧ e.payload = Payload.ofBytes e.cid e.isGenesis bs := by
  have hbytes := hwf.blocks_bytes
  have hne := hwf.blocks_ne_nil
  cases hblocks : e.blocks with
  | nil => exact absurd hblocks hne
  | cons b rest =>
      obtain ⟨bs, rfl⟩ := hbytes b (by simp [hblocks])
      exact ⟨bs, rfl, payload_of_bytes (congrArg List.head? hblocks)⟩

/-- The payload of a well-formed event is a defect exactly if a part of it cannot be taken. -/
theorem WellFormed.payload_eq_defect_iff (hwf : e.WellFormed) {d : Defect} :
    e.payload = .error (.defect d) ↔ e.HasUntaken d := by
  obtain ⟨bs, hhead, hpayload⟩ := hwf.exists_payload_eq
  rw [hpayload]
  constructor
  · intro h
    unfold Payload.ofBytes at h
    cases hread : Json.readBytes bs with
    | error fault =>
        cases fault with
        | malformed => simp [hread] at h
        | hugeInteger =>
            obtain rfl : Defect.badValue = d := by simpa [hread] using h
            exact .integer hhead hread
    | ok j =>
        cases j with
        | null | bool | int | double | str | arr => simp [hread] at h
        | obj ms =>
            simp only [hread] at h
            obtain ⟨hgenesis, hdata, hs, hheader, hpresent, hparts, rfl⟩ :=
              Payload.ofMembers_eq_defect_iff.mp h
            exact .controllers hgenesis hhead hread hdata hheader hpresent hparts
  · rintro (⟨hhead', hread⟩ | ⟨hgenesis, hhead', hread, hdata, hheader, hpresent, hparts⟩)
    · obtain rfl := Block.bytes.inj (Option.some.inj (hhead.symm.trans hhead'))
      simp [Payload.ofBytes, hread]
    · obtain rfl := Block.bytes.inj (Option.some.inj (hhead.symm.trans hhead'))
      simp only [Payload.ofBytes, hread]
      exact Payload.ofMembers_eq_defect_iff.mpr
        ⟨hgenesis, hdata, _, hheader, hpresent, hparts, rfl⟩

theorem WellFormed.exists_malformed_of_payload (hwf : e.WellFormed) {f : Failure}
    (h : e.payload = .error f) :
    (∃ reason, f = .malformedEvent e.cid reason) ∨ ∃ d, f = .defect d := by
  obtain ⟨bs, -, hpayload⟩ := hwf.exists_payload_eq
  rw [hpayload] at h
  unfold Payload.ofBytes at h
  split at h
  · cases h
  · exact .inr ⟨_, (Except.error.inj h).symm⟩
  · exact Payload.exists_malformed_of_ofMembers h
  · exact .inl ⟨_, (Except.error.inj h).symm⟩

end Event

/-! ## How the steps of a submission fail -/

/-- A documented failure, or one of the extractor. -/
def Failure.IsUsual (extract : Extractor) (f : Failure) : Prop :=
  f.isDocumented = true ∨ ∃ content d, extract content = .error d ∧ f = .defect d

theorem Failure.isUsual_refusal (extract : Extractor) (b : Backend) : b.refusal.IsUsual extract :=
  .inl rfl

namespace Resolution

variable {b : Backend} {extract : Extractor} {t : Tables} {e : Event} {c id : String}
  {owner : Uuid} {row : Stream}

theorem creation_fails (hs : t.Sound b) (hwf : e.WellFormed) (hc : e.cid = .str c)
    (hprev : e.prev = .null) {p : Payload} (hp : e.payload = .ok p)
    (hnew : t.events.get? (.text c) = none) :
    FailsOnly (Failure.IsUsual extract) (creation b extract t e (.str id) owner) := by
  have hgenesis : e.isGenesis = true := by simp [hwf.isGenesis_eq, hprev]
  unfold creation
  rw [Engine.ofGenesis_eq hgenesis hp, ok_bind]
  generalize hstate : Fold.State.mk e.cid (p.data.getD (.obj [])) p.model p.account = s
  have htip : s.tip = e.cid := by rw [← hstate]
  cases hheader : headerFault? s with
  | some reason =>
      rw [established_of_fault hheader]
      exact .error (.inl rfl)
  | none =>
      cases htakes : b.takes s.content with
      | false =>
          rw [established_of_refused hc htip hheader htakes]
          exact .error (Failure.isUsual_refusal extract b)
      | true =>
          cases hrow : t.streams.get? (.text id) with
          | some row =>
              obtain ⟨g, tip, chain, f, -, hprojects⟩ := hs.projects _ row hrow
              rw [established_of_row hwf hc htip hheader htakes hnew hrow hprojects.isObject]
              exact .ok _
          | none =>
              rw [established_of_none hwf hc htip hheader htakes hnew hrow]
              cases hextract : extract s.content with
              | error d => exact .error (.inr ⟨_, d, hextract, rfl⟩)
              | ok signal => exact .ok _

theorem advance_fails {s : Fold.State} {p : Payload} (hp : e.payload = .ok p) :
    FailsOnly (Failure.IsUsual extract) (s.advance e) := by
  intro f hf
  obtain ⟨reason, rfl⟩ := Fold.State.malformed_of_advance hp hf
  exact .inl rfl

theorem advancement_fails (hn : t.StreamsNamed) (hwf : e.WellFormed) (hc : e.cid = .str c)
    {p : Payload} (hp : e.payload = .ok p) (hnew : t.events.get? (.text c) = none)
    (hrow : t.streams.get? (.text id) = some row) (hid : row.id = .str id) {tip : String}
    (htip : row.tip = .str tip) (held : Held) :
    FailsOnly (Failure.IsUsual extract) (advancement b extract t e row held) := by
  by_cases hmoves : e.prev = row.tip
  · rw [advancement_of_eq hwf hc hnew htip hmoves]
    refine (advance_fails hp).bind fun s _ => ?_
    rw [moved_eq (t := t.withEvent c e) hn hc hid hrow htip hmoves]
    split
    · cases hextract : extract s.content with
      | error d => exact .error (.inr ⟨_, d, hextract, rfl⟩)
      | ok signal => exact .ok _
    · exact .error (Failure.isUsual_refusal extract b)
  · rw [advancement_of_ne hwf hc hnew htip hmoves]
    exact .ok _

end Resolution

namespace Engine

variable {en : Engine} {e : Event} {c g : String} {claim : OwnerClaim} {held : Held} {p : Payload}

/--
What of a valid event escapes the documented failures within the limits of the runtime: a
part of its payload that cannot be taken, or, where the owner of a new stream is looked up by
the model, a model that nothing can be looked up under.
-/
inductive Escapes (en : Engine) (e : Event) (claim : OwnerClaim) : Defect → Prop
  | payload {d : Defect} :
      e.validate en.maxBlockBytes = .ok e →
      e.HasUntaken d →
      Escapes en e claim d
  | model {p : Payload} :
      e.validate en.maxBlockBytes = .ok e →
      e.payload = .ok p →
      en.store.isOpen = true →
      e.isGenesis = true →
      en.tables.stored? e.cid = none →
      claim = .none →
      p.model.key? = none →
      Escapes en e claim .wrongKind

/-- An owner is not found in words, except where a model cannot be looked up. -/
theorem ownerOf_fails (reg : Registry) (hp : e.payload = .ok p) :
    FailsOnly (fun f => f.isDocumented = true ∨
      f = .defect .wrongKind ∧ claim = .none ∧ p.model.key? = none) (ownerOf reg e claim) := by
  cases claim with
  | uuid u => exact .ok u
  | text s =>
      unfold ownerOf
      dsimp only
      split
      · exact .ok _
      · exact .error (.inl rfl)
  | none =>
      simp only [ownerOf, hp, model_eq_bind, ownerByModel]
      split
      · exact .error (.inl rfl)
      · cases hkey : p.model.key? with
        | none =>
            simp only [Registry.seek, hkey]
            exact .error (.inr (by simp))
        | some k =>
            cases k with
            | text s =>
                simp only [Registry.seek, hkey]
                cases reg.find? s with
                | none => exact .error (.inl rfl)
                | some m => exact .ok _
            | null | whole | fraction =>
                simp only [Registry.seek, hkey]
                exact .error (.inl rfl)

theorem ownerOf_of_key?_eq_none (reg : Registry) (hp : e.payload = .ok p)
    (hkey : p.model.key? = none) : ownerOf reg e .none = .error (.defect .wrongKind) := by
  have hmodel : p.model ≠ .null := by
    intro hnull
    simp [hnull, Json.key?] at hkey
  simp [ownerOf, hp, model_eq_bind, ownerByModel, hmodel, Registry.seek, hkey]

/-- A documented failure, one of the extractor, or one that escapes. -/
def Allowed (en : Engine) (e : Event) (claim : OwnerClaim) (f : Failure) : Prop :=
  f.isDocumented = true ∨
    ∃ d, f = .defect d ∧ (en.Escapes e claim d ∨ ∃ content, en.extract content = .error d)

theorem allowed_of_isUsual {f : Failure} (h : f.IsUsual en.extract) : en.Allowed e claim f := by
  rcases h with hdocumented | ⟨content, d, hextract, rfl⟩
  · exact .inl hdocumented
  · exact .inr ⟨d, rfl, .inr ⟨content, hextract⟩⟩

theorem admission_fails (en : Engine) (e : Event) (claim : OwnerClaim) :
    FailsOnly (en.Allowed e claim) (en.admission e) := by
  unfold admission
  cases hvalid : e.validate en.maxBlockBytes with
  | error f =>
      unfold Event.validate at hvalid
      split at hvalid
      · obtain rfl := Except.error.inj hvalid
        exact .error (.inl rfl)
      · cases hvalid
  | ok e' =>
      obtain ⟨rfl, hwf⟩ := Event.validate_eq_ok hvalid
      rw [ok_bind]
      refine FailsOnly.bind (fun f hf => ?_) fun _ _ => .ok _
      rcases hwf.exists_malformed_of_payload hf with ⟨reason, rfl⟩ | ⟨d, rfl⟩
      · exact .inl rfl
      · exact .inr ⟨d, rfl, .inl (.payload hvalid (hwf.payload_eq_defect_iff.mp hf))⟩

/-- What a checked event comes to in the tables of an open store fails only as is allowed. -/
theorem ruling_fails (hs : en.tables.Sound en.backend) (hopen : en.store.isOpen = true)
    (hvalid : e.validate en.maxBlockBytes = .ok e) (hp : e.payload = .ok p)
    (hc : e.cid = .str c) (hg : e.genesis = .str g) :
    FailsOnly (en.Allowed e claim)
      (en.ruling en.tables e (.str (Ident.streamId g)) claim held) := by
  obtain ⟨-, hwf⟩ := Event.validate_eq_ok hvalid
  cases hstored : en.tables.events.get? (.text c) with
  | some stored =>
      unfold ruling
      rw [Linkage.ofEvent_of_stored hs hwf hc hstored]
      split
      · rename_i heq
        subst heq
        obtain ⟨row, tip, hrow, -, -, hobj⟩ := exists_row_of_stores hs ⟨_, hstored⟩ hg
        simp only [ok_bind, Tables.stream?_of_some hrow hobj]
        exact .ok _
      · exact .error (.inl rfl)
  | none =>
      rcases hwf.prev_text with hprev | ⟨prev, hprev⟩
      · rw [ruling_of_null hwf hc hstored hprev]
        refine FailsOnly.bind ((ownerOf_fails en.registry hp).mono ?_) fun owner _ =>
          (Resolution.creation_fails hs hwf hc hprev hp hstored).mono fun f => allowed_of_isUsual
        rintro f (hdocumented | ⟨rfl, hclaim, hkey⟩)
        · exact .inl hdocumented
        · have hgenesis : e.isGenesis = true := by simp [hwf.isGenesis_eq, hprev]
          exact .inr ⟨_, rfl, .inl (.model hvalid hp hopen hgenesis
            ((stored?_text hc).trans hstored) hclaim hkey)⟩
      · cases hparent : en.tables.events.get? (.text prev) with
        | none =>
            rw [ruling, Linkage.ofEvent_of_missing hwf hc hstored hprev hparent]
            exact .error (.inl rfl)
        | some parent =>
            by_cases hbelongs : parent.genesis = e.genesis
            · obtain ⟨row, tip, hrow, htip, hid, -⟩ :=
                exists_row_of_stores hs ⟨_, hparent⟩ (hbelongs.trans hg)
              rw [ruling_of_parent hs hwf hc hstored ⟨_, hparent⟩
                (hprev.trans (hs.cid_of_get? hparent).symm) hbelongs hrow]
              exact (Resolution.advancement_fails hs.streamsNamed hwf hc hp hstored hrow hid htip
                held).mono fun f => allowed_of_isUsual
            · rw [ruling, Linkage.ofEvent_of_parent hwf hc hstored hprev hparent, if_neg hbelongs]
              exact .error (.inl rfl)

/-- An archive refuses a text only because it cannot be written. -/
theorem put_fails (a : Archive) (cid : String) (bs : Bytes) :
    FailsOnly (fun f => f.isDocumented = true) (a.put (.str cid) bs) := by
  cases a with
  | memory blocks =>
      obtain ⟨written, a, hput, -⟩ :=
        Archive.TakesAll.exists_put (a := .memory blocks) trivial cid bs
      exact hput ▸ .ok _
  | files disk =>
      unfold Archive.put
      rw [Archive.keyOf, ok_bind]
      split
      · exact .ok _
      · unfold Archive.checkRoom
        dsimp only
        split
        · exact .ok _
        · exact .error rfl

theorem settlement_fails (hwf : e.WellFormed) (r : Receipt) (t : Tables) :
    FailsOnly (fun f => f.isDocumented = true) (en.settlement e r t) := by
  obtain ⟨c, hc, -⟩ := hwf.cid_text
  obtain ⟨bs, hbs⟩ := hwf.exists_envelope
  unfold settlement
  rw [hbs, ok_bind, hc]
  exact (put_fails en.archive c bs).bind fun _ _ => .ok _

theorem acceptance_fails (hs : en.tables.Sound en.backend)
    (hvalid : e.validate en.maxBlockBytes = .ok e) (hp : e.payload = .ok p) :
    FailsOnly (en.Allowed e claim) (en.acceptance e claim held) := by
  obtain ⟨-, hwf⟩ := Event.validate_eq_ok hvalid
  obtain ⟨c, hc, -⟩ := hwf.cid_text
  obtain ⟨g, hg, -⟩ := hwf.genesis_text
  unfold acceptance resolution checkOpen
  rw [hwf.streamOf_eq hg, ok_bind]
  split
  · rename_i hopen
    exact (ruling_fails hs hopen hvalid hp hc hg).bind fun _ _ =>
      (settlement_fails hwf _ _).mono fun f => .inl
  · exact .error (.inl rfl)

/-! ## Submissions -/

/-- How a submission fails, and what escapes the failures that are documented. -/
structure FailsAsDocumented (en : Engine) (e : Event) (claim : OwnerClaim) : Prop where
  allowed : ∀ f, (en.submit e claim).1 = .error f → en.Allowed e claim f
  escapes : ∀ d, en.Escapes e claim d → (en.submit e claim).1 = .error (.defect d)
  /-- A header that is neither null nor an object is malformed. -/
  header_malformed : ∀ bs ms, e.validate en.maxBlockBytes = .ok e →
    e.blocks.head? = some (.bytes bs) → Json.readBytes bs = .ok (.obj ms) →
    Json.field "header" ms ≠ .null → (Json.field "header" ms).isObject = false →
    (en.submit e claim).1 = .error (.malformedEvent e.cid "payload header must be an object")

theorem submit_eq_of_payload {f : Failure} (hvalid : e.validate en.maxBlockBytes = .ok e)
    (hpayload : e.payload = .error f) (claim : OwnerClaim) : (en.submit e claim).1 = .error f := by
  have hadm : en.admission e = .error f := by simp [admission, hvalid, hpayload]
  obtain ⟨d, hd, -⟩ := submit_of_error hadm claim
  rw [hd]

/-- What escapes does so in every steady engine. -/
theorem Steady.submit_eq_of_escapes (hst : en.Steady) {d : Defect} (h : en.Escapes e claim d) :
    (en.submit e claim).1 = .error (.defect d) := by
  cases h with
  | payload hvalid huntaken =>
      obtain ⟨-, hwf⟩ := Event.validate_eq_ok hvalid
      exact submit_eq_of_payload hvalid (hwf.payload_eq_defect_iff.mpr huntaken) claim
  | @model p hvalid hp hopen hgenesis hnew hclaim hkey =>
      subst hclaim
      have hadm : en.admission e = .ok e := by simp [admission, hvalid, hp]
      cases hst.submits e .none with
      | refused f d hrefused => simp [hadm] at hrefused
      | settled c g d hadm' hwf hc hg hsettles heq =>
          have hprev : e.prev = .null := by simpa [hwf.isGenesis_eq] using hgenesis
          have hruling : en.acceptance e .none en.desk.heldAt = .error (.defect .wrongKind) := by
            unfold acceptance resolution checkOpen
            rw [hwf.streamOf_eq hg, if_pos hopen, ok_bind, ok_bind,
              ruling_of_null hwf hc ((stored?_text hc).symm.trans hnew) hprev,
              ownerOf_of_key?_eq_none en.registry hp hkey]
            rfl
          rw [heq, hruling]
          rfl

theorem Steady.submit_allowed (hst : en.Steady) {f : Failure}
    (h : (en.submit e claim).1 = .error f) : en.Allowed e claim f := by
  cases hst.submits e claim with
  | refused f' d hadm hd heq =>
      rw [heq] at h
      obtain rfl := Except.error.inj h
      exact admission_fails en e claim f' hadm
  | settled c g d hadm hwf hc hg hsettles heq =>
      obtain ⟨e', hvalid, hpayload⟩ := bind_eq_ok.mp hadm
      obtain ⟨p, hp, heq'⟩ := bind_eq_ok.mp hpayload
      obtain rfl := Except.ok.inj heq'
      rw [heq] at h
      cases hres : en.acceptance e' claim en.desk.heldAt with
      | ok q =>
          rw [hres] at h
          cases h
      | error f' =>
          rw [hres] at h
          obtain rfl := Except.error.inj h
          exact acceptance_fails hst.sound hvalid hp f' hres

/--
In every run over an empty store, and under every registry, a submission is answered or
fails in a documented way, except that what escapes is a defect, and that an extractor
may fail on its own.  The run and the submission stay within the limits of the runtime,
however many levels it bears; values here have no such limits, so it is only the statement
that needs them.
-/
theorem Fresh.fails_as_documented {levels : Nat} {now : Engine} (h : en.Fresh)
    (hr : en.ReachesWithin levels now) (reg : Registry) :
    ∀ e claim, now.bears levels e = true →
      ({ now with registry := reg } : Engine).FailsAsDocumented e claim := by
  intro e claim _
  have hnow : now.Steady := hr.steady h.steady
  have hst : ({ now with registry := reg } : Engine).Steady := ⟨hnow.sound, hnow.trusts⟩
  refine ⟨fun f => hst.submit_allowed, fun d => hst.submit_eq_of_escapes, ?_⟩
  intro bs ms hvalid hhead hread hne hobj
  obtain ⟨-, hwf⟩ := Event.validate_eq_ok hvalid
  obtain ⟨bs', hhead', hpayload⟩ := hwf.exists_payload_eq
  obtain rfl := Block.bytes.inj (Option.some.inj (hhead.symm.trans hhead'))
  refine submit_eq_of_payload hvalid ?_ claim
  simp [hpayload, Payload.ofBytes, hread, Payload.ofMembers, hne, hobj]

/-- An event behind one that is not stored is refused in a run, and its failure is allowed. -/
theorem fails_as_documented_sample :
    let en := sampleEngine .sqlite (some (.empty (.ofNat 1)))
    let now := en.after [.submit sampleGenesis sampleOwner]
    let asked : Engine := { now with registry := .empty }
    let e := sampleUpdate "third" "second" 3
    en.ReachesWithin 85 now ∧ now.bears 85 e = true ∧
      (asked.submit e .none).1 =
        .error (.brokenChain "third" "unknown prev" "second" "first") ∧
      asked.FailsAsDocumented e .none := by
  intro en now asked e
  have hreaches : en.ReachesWithin 85 now :=
    .step (.submit sampleGenesis sampleOwner) .refl (by decide +kernel)
  have hbears : now.bears 85 e = true := by decide +kernel
  exact ⟨hreaches, hbears, by decide +kernel,
    (sampleEngine_fresh .sqlite (.ofNat 1)).fails_as_documented hreaches .empty e .none hbears⟩

/-- A genesis event with a number for the controllers in its header. -/
def countedControllers : Event :=
  ⟨.str "G", .null, .str "G",
    [.bytes (Text.utf8 (Json.obj [("header", .obj [("controllers", .int 5)])]).archived)]⟩

/-- A header of the wrong shape that is no documented failure of its submission. -/
theorem countedControllers_escapes :
    ((sampleEngine .memory none).submit countedControllers sampleOwner).1 =
        .error (.defect .wrongKind) ∧ (Failure.defect .wrongKind).isDocumented = false := by
  decide +kernel

end Engine

end ChainFold
