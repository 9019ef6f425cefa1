import ChainFold.Proofs.Archive
import ChainFold.Proofs.Engine.Provenance
import ChainFold.Proofs.Ident

/-!
# How submissions are answered

What the tables hold decides how a well-formed event is answered, in a fixed order of
questions: whether it is stored, whether it starts a chain or follows a stored event of
its chain, and whether it follows the tip.
-/

namespace ChainFold

/-! ## The questions -/

def Tables.stored? (t : Tables) (cid : Json) : Option Event := cid.key?.bind t.events.get?

def Tables.rowOf? (t : Tables) (e : Event) : Option Stream :=
  match e.genesis with
  | .str g => t.streams.get? (.text (Ident.streamId g))
  | _ => none

/-- The tip of the stream that an event belongs to, null if there is no such stream. -/
def Tables.tipAt (t : Tables) (e : Event) : Json := ((t.rowOf? e).map Stream.tip).getD .null

/-- The content of the stream that an event belongs to, null if there is no such stream. -/
def Tables.contentAt (t : Tables) (e : Event) : Json :=
  ((t.rowOf? e).map Stream.content).getD .null

/-- A text that is empty or has more than `limit` characters. -/
def Json.isUnusable (limit : Nat) : Json → Bool
  | .str s => s = "" || limit < s.length
  | _ => false

namespace Payload

def model (p : Payload) : Json := ((p.header.getD .blank).model).getD .null

def account (p : Payload) : Json := (p.header.getD .blank).account

/-- The header names a model or a first controller that is empty or too long. -/
def hasUnusableHeader (p : Payload) : Bool :=
  p.model.isUnusable 70 || p.account.isUnusable 100

/-- The patch, if there is one, applies to a content and leaves an object. -/
def keepsObject (p : Payload) (content : Json) : Bool :=
  match p.data with
  | none => true
  | some patch =>
    match Json.Patch.result? (patch.parts?.getD []) content with
    | none => false
    | some result => result.isObject

end Payload

namespace Engine

/-- An owner can be resolved: a UUID is given, or none and the model is registered. -/
def ownerKnown (reg : Registry) (p : Payload) : OwnerClaim → Bool
  | .uuid _ => true
  | .text s => (Uuid.read s).isOk
  | .none =>
    match p.model with
    | .str m => (reg.find? m).isSome
    | _ => false

/-- The answer to a submission, as far as it is not determined by the event. -/
inductive Verdict where
  | duplicate (tip : Json)
  | brokenChain
  | noOwner
  | malformed
  | beside (tip : Json)
  | applied
  deriving DecidableEq

/-- The answer to an event of a stream is one of a verdict. -/
def Verdict.Answers (e : Event) (id : Json) : Verdict → Except Failure Receipt → Prop
  | .duplicate tip, res => res = .ok ⟨id, e.cid, tip, .duplicate, none⟩
  | .brokenChain, res => ∃ reason, res = .error (.brokenChain e.cid reason e.prev e.genesis)
  | .noOwner, res => ∃ reason value, res = .error (.invalid "dapp_id" reason value)
  | .malformed, res => ∃ reason, res = .error (.malformedEvent e.cid reason)
  | .beside tip, res => res = .ok ⟨id, e.cid, tip, .notApplied, some ⟨id, e.cid, e.prev, tip⟩⟩
  | .applied, res => res = .ok ⟨id, e.cid, e.cid, .applied, none⟩

/-- The verdict on an event with a payload: the questions in their order. -/
def verdict (en : Engine) (e : Event) (p : Payload) (claim : OwnerClaim) : Verdict :=
  match en.tables.stored? e.cid with
  | some stored => if stored = e then .duplicate (en.tables.tipAt e) else .brokenChain
  | none =>
    if e.isGenesis then
      if !ownerKnown en.registry p claim then .noOwner
      else if p.hasUnusableHeader then .malformed
      else .applied
    else
      match en.tables.stored? e.prev with
      | none => .brokenChain
      | some parent =>
        if parent.genesis ≠ e.genesis then .brokenChain
        else if e.prev ≠ en.tables.tipAt e then .beside (en.tables.tipAt e)
        else if p.keepsObject (en.tables.contentAt e) then .applied
        else .malformed

/-! ## Owners, headers and patches -/

variable {en : Engine} {e : Event} {p : Payload} {claim : OwnerClaim} {c g : String}
  {row : Stream} {held : Held}

/-- The model that a header names is a text, if it names any. -/
def ModelIsText (p : Payload) : Prop := p.model = .null ∨ ∃ s, p.model = .str s

theorem model_eq_bind (p : Payload) : (p.header.bind Header.model).getD .null = p.model := by
  cases h : p.header <;> simp [Payload.model, h, Header.blank]

theorem exists_ownerOf (hp : e.payload = .ok p) (hmodel : ModelIsText p) (reg : Registry)
    (h : ownerKnown reg p claim = true) : ∃ owner, ownerOf reg e claim = .ok owner := by
  cases claim with
  | uuid u => exact ⟨u, rfl⟩
  | text s =>
      cases hread : Uuid.read s with
      | ok u => exact ⟨u, by simp [ownerOf, hread]⟩
      | error f => simp [ownerKnown, hread, Except.isOk, Except.toBool] at h
  | none =>
      rcases hmodel with hnull | ⟨m, hm⟩
      · simp [ownerKnown, hnull] at h
      · simp only [ownerKnown, hm] at h
        obtain ⟨registered, hfound⟩ := Option.isSome_iff_exists.mp h
        refine ⟨registered.owner, ?_⟩
        simp [ownerOf, hp, model_eq_bind, hm, ownerByModel, Registry.seek, Json.key?, hfound]

theorem exists_ownerOf_error (hp : e.payload = .ok p) (hmodel : ModelIsText p) (reg : Registry)
    (h : ownerKnown reg p claim = false) :
    ∃ reason value, ownerOf reg e claim = .error (.invalid "dapp_id" reason value) := by
  cases claim with
  | uuid u => simp [ownerKnown] at h
  | text s =>
      cases hread : Uuid.read s with
      | ok u => simp [ownerKnown, hread, Except.isOk, Except.toBool] at h
      | error f => exact ⟨"not a UUID", .str s, by simp [ownerOf, hread]⟩
  | none =>
      refine ⟨"required for a genesis event whose model is not registered", p.model, ?_⟩
      rcases hmodel with hnull | ⟨m, hm⟩
      · simp [ownerOf, hp, model_eq_bind, hnull, ownerByModel]
      · simp only [ownerKnown, hm] at h
        have hfound : reg.find? m = none := by simpa using h
        simp [ownerOf, hp, model_eq_bind, hm, ownerByModel, Registry.seek, Json.key?, hfound]

theorem fault?_isSome_text (limit : Nat) (s : String) :
    (Ident.fault? true (.ofNat limit) (.str s)).isSome = (Json.str s).isUnusable limit := by
  unfold Ident.fault? Json.isUnusable
  by_cases hs : s = ""
  · simp [hs]
  · by_cases hlength : limit < s.length
    · simp [hs, hlength, Amount.isBelow, Amount.ofNat, Json.Quantity.below, Json.Quantity.ofInt]
    · simp [hs, hlength, Amount.isBelow, Amount.ofNat, Json.Quantity.below, Json.Quantity.ofInt]

theorem fault?_isSome {limit : Nat} {j : Json} (h : j = .null ∨ ∃ s, j = .str s) :
    (Ident.fault? true (.ofNat limit) j).isSome = j.isUnusable limit := by
  rcases h with rfl | ⟨s, rfl⟩
  · rfl
  · exact fault?_isSome_text limit s

theorem headerFault?_isSome (hmodel : ModelIsText p)
    (haccount : p.account = .null ∨ ∃ a, p.account = .str a) (cid content : Json) :
    (Resolution.headerFault? ⟨cid, content, p.model, p.account⟩).isSome =
      p.hasUnusableHeader := by
  rw [Payload.hasUnusableHeader, ← fault?_isSome hmodel, ← fault?_isSome haccount]
  unfold Resolution.headerFault?
  show _ = ((Ident.fault? true Ident.maxLength p.model).isSome ||
    (Ident.fault? true Ident.maxAccountLength p.account).isSome)
  dsimp only
  cases Ident.fault? true Ident.maxLength p.model <;> simp

/-- A patch that keeps an object is applied, and any other one is refused as malformed. -/
theorem patched_of_keepsObject {content : Json} (h : p.keepsObject content = true) :
    ∃ content', Fold.State.patched e p content = .ok content' := by
  unfold Payload.keepsObject at h
  unfold Fold.State.patched
  cases hdata : p.data with
  | none => exact ⟨content, rfl⟩
  | some patch =>
      simp only [hdata] at h ⊢
      cases hresult : Json.Patch.result? (patch.parts?.getD []) content with
      | none => simp [hresult] at h
      | some result =>
          have hobj : result.isObject = true := by simpa [hresult] using h
          exact ⟨result, by simp [hobj]⟩

theorem patched_of_not_keepsObject {content : Json} (h : p.keepsObject content = false) :
    ∃ reason, Fold.State.patched e p content = .error (.malformedEvent e.cid reason) := by
  unfold Payload.keepsObject at h
  unfold Fold.State.patched
  cases hdata : p.data with
  | none => simp [hdata] at h
  | some patch =>
      simp only [hdata] at h ⊢
      cases hresult : Json.Patch.result? (patch.parts?.getD []) content with
      | none => exact ⟨"patch cannot be applied", rfl⟩
      | some result =>
          have hobj : result.isObject = false := by simpa [hresult] using h
          exact ⟨"patch must leave content a JSON object", by simp [hobj]⟩

/-! ## Engines that nothing stands in the way of -/

/-- An open engine in memory whose archive and whose extractor take everything. -/
structure Ready (en : Engine) : Prop where
  backend_eq : en.backend = .memory
  isOpen : en.store.isOpen = true
  takesAll : en.archive.TakesAll
  extracts : ∀ content, ∃ signal, en.extract content = .ok signal

theorem Ready.takes (h : en.Ready) (content : Json) : en.backend.takes content = true := by
  rw [h.backend_eq]
  rfl

theorem Ready.checkOpen (h : en.Ready) : en.checkOpen = .ok () := by
  simp [Engine.checkOpen, h.isOpen]

theorem exists_settlement (hready : en.Ready) (hwf : e.WellFormed) (r : Receipt) (t : Tables) :
    ∃ a, en.settlement e r t = .ok (r, ⟨t, a⟩) ∧ a.TakesAll := by
  obtain ⟨c, hc, -⟩ := hwf.cid_text
  obtain ⟨bs, hbs⟩ := hwf.exists_envelope
  obtain ⟨written, a, hput, htakes⟩ := hready.takesAll.exists_put c bs
  refine ⟨a, ?_, htakes⟩
  simp [settlement, hbs, hc, hput]

/-- In such an engine a checked event is answered as the tables say. -/
theorem acceptance_eq (hready : en.Ready) (hwf : e.WellFormed) {stream : String}
    (hstream : streamOf e = .ok stream) :
    (en.acceptance e claim held).map (·.1) =
      (en.ruling en.tables e stream claim held).map (·.1) := by
  unfold acceptance resolution
  rw [hstream, hready.checkOpen, ok_bind, ok_bind]
  cases en.ruling en.tables e stream claim held with
  | error f => rfl
  | ok p =>
      obtain ⟨r, t⟩ := p
      obtain ⟨a, ha, -⟩ := exists_settlement hready hwf r t
      rw [ok_bind]
      dsimp only
      rw [ha]
      rfl

/-! ## The verdict of the tables -/

theorem stored?_text {t : Tables} (h : e.cid = .str c) :
    t.stored? e.cid = t.events.get? (.text c) := by
  rw [h]
  rfl

theorem rowOf?_eq {t : Tables} (hg : e.genesis = .str g) :
    t.rowOf? e = t.streams.get? (.text (Ident.streamId g)) := by
  simp [Tables.rowOf?, hg]

theorem tipAt_eq {t : Tables} (hg : e.genesis = .str g)
    (hrow : t.streams.get? (.text (Ident.streamId g)) = some row) : t.tipAt e = row.tip := by
  simp [Tables.tipAt, rowOf?_eq hg, hrow]

theorem contentAt_eq {t : Tables} (hg : e.genesis = .str g)
    (hrow : t.streams.get? (.text (Ident.streamId g)) = some row) :
    t.contentAt e = row.content := by
  simp [Tables.contentAt, rowOf?_eq hg, hrow]

/-- In memory a stream is advanced from what its row gives, whatever is held. -/
theorem currentOf_eq_ofRow {t : Tables} (hfits : Held.Fits .memory t held) {k : Key}
    (hrow : t.streams.get? k = some row) :
    Resolution.currentOf held row = Fold.State.ofRow row := by
  unfold Resolution.currentOf
  cases hheld : held row.tip with
  | none => rfl
  | some s => exact Fold.State.agree_memory_iff.mp (hfits k row s hrow hheld)

theorem ofGenesis_eq (hgenesis : e.isGenesis = true) (hp : e.payload = .ok p) :
    Fold.State.ofGenesis e = .ok ⟨e.cid, p.data.getD (.obj []), p.model, p.account⟩ := by
  simp [Fold.State.ofGenesis, hgenesis, hp, Payload.model, Payload.account]

theorem advance_ofRow (hp : e.payload = .ok p) {tip : String} (htip : row.tip = .str tip)
    (hprev : e.prev = row.tip) : (Fold.State.ofRow row).advance e =
      match Fold.State.patched e p row.content with
      | .error f => .error f
      | .ok content => .ok ⟨e.cid, content, row.model, row.account⟩ := by
  have hsame : e.prev.looselySame (Fold.State.ofRow row).tip = true := by
    rw [hprev, show (Fold.State.ofRow row).tip = .str tip from htip, htip, Json.looselySame_text]
    simp
  simp only [Fold.State.advance, hsame, hp]
  rfl

/-- Genesis events of different streams are told apart by their stream ids. -/
def Apart (t : Tables) (e : Event) : Prop :=
  ∀ x, t.Stores x → x.isGenesis = true → e.isGenesis = true → streamOf x = streamOf e →
    x.cid = e.cid

theorem row_eq_none (hs : en.tables.Sound en.backend) (hapart : Apart en.tables e)
    (hwf : e.WellFormed) (hc : e.cid = .str c) (hg : e.genesis = .str g)
    (hgenesis : e.isGenesis = true) (hnew : en.tables.events.get? (.text c) = none) :
    en.tables.streams.get? (.text (Ident.streamId g)) = none := by
  cases hrow : en.tables.streams.get? (.text (Ident.streamId g)) with
  | none => rfl
  | some row =>
      obtain ⟨g', tip, chain, s, hkey, hp⟩ := hs.projects _ row hrow
      obtain ⟨first, rest, rfl, hprev, hcid⟩ := hp.lineage.exists_cons
      have hstored : en.tables.Stores first := hp.lineage.known_of_mem hp.stored (by simp)
      have hfirst := hs.wellFormed_of_stores hstored
      have hnames : first.genesis = .str g' :=
        (hp.lineage.genesis_eq_of_mem (by simp)).trans hp.genesis_eq
      have hsame : streamOf first = streamOf e := by
        rw [hfirst.streamOf_eq hnames, hwf.streamOf_eq hg]
        simpa using hkey.symm
      have heq := hapart first hstored (by simp [hfirst.isGenesis_eq, hprev]) hgenesis hsame
      have hget := hs.get?_of_stores hstored (heq.trans hc)
      simp [hnew] at hget

theorem ruling_of_stored (hs : en.tables.Sound en.backend) (hwf : e.WellFormed)
    (hc : e.cid = .str c) (hg : e.genesis = .str g) {stored : Event}
    (hstored : en.tables.events.get? (.text c) = some stored) :
    (en.verdict e p claim).Answers e (.str (Ident.streamId g))
      ((en.ruling en.tables e (.str (Ident.streamId g)) claim held).map (·.1)) := by
  unfold verdict ruling
  rw [stored?_text hc, hstored, Linkage.ofEvent_of_stored hs hwf hc hstored]
  by_cases heq : stored = e
  · subst heq
    obtain ⟨row, tip, hrow, -, -, hobj⟩ := exists_row_of_stores hs ⟨_, hstored⟩ hg
    simp only [if_true, ok_bind, Tables.stream?_of_some hrow hobj, tipAt_eq hg hrow]
    rfl
  · simp only [if_neg heq]
    exact ⟨_, rfl⟩

/-- Where nothing stands in the way a genesis event with a usable header is applied. -/
theorem established_applied (hready : en.Ready) (hwf : e.WellFormed) (hc : e.cid = .str c)
    {s : Fold.State} (htip : s.tip = e.cid) (hheader : Resolution.headerFault? s = none)
    (hnew : en.tables.events.get? (.text c) = none) {id : String}
    (hrow : en.tables.streams.get? (.text id) = none) (owner : Uuid) :
    (Resolution.established en.backend en.extract en.tables e (.str id) owner s).map (·.1) =
      .ok (Resolution.appliedReceipt (.str id) e) := by
  obtain ⟨signal, hsignal⟩ := hready.extracts s.content
  rw [Resolution.established_of_none hwf hc htip hheader (hready.takes _) hnew hrow, hsignal]
  rfl

theorem ruling_of_genesis (hready : en.Ready) (hs : en.tables.Sound en.backend)
    (hapart : Apart en.tables e) (hwf : e.WellFormed) (hc : e.cid = .str c)
    (hg : e.genesis = .str g) (hp : e.payload = .ok p) (hmodel : ModelIsText p)
    (hnew : en.tables.events.get? (.text c) = none) (hprev : e.prev = .null) :
    (en.verdict e p claim).Answers e (.str (Ident.streamId g))
      ((en.ruling en.tables e (.str (Ident.streamId g)) claim held).map (·.1)) := by
  have hgenesis : e.isGenesis = true := by simp [hwf.isGenesis_eq, hprev]
  have hrow := row_eq_none hs hapart hwf hc hg hgenesis hnew
  unfold verdict
  rw [stored?_text hc, hnew, ruling_of_null hwf hc hnew hprev]
  simp only [hgenesis, if_true]
  cases hknown : ownerKnown en.registry p claim with
  | false =>
      obtain ⟨reason, value, hfailed⟩ := exists_ownerOf_error hp hmodel en.registry hknown
      simp only [hfailed, error_bind, Bool.not_false, if_true]
      exact ⟨reason, value, rfl⟩
  | true =>
      obtain ⟨owner, howner⟩ := exists_ownerOf hp hmodel en.registry hknown
      have hstate := ofGenesis_eq hgenesis hp
      have hfault := headerFault?_isSome hmodel (Event.shaped_of_payload hp).account_text e.cid
        (p.data.getD (.obj []))
      simp only [howner, ok_bind, Resolution.creation, hstate, Bool.not_true, Bool.false_eq_true,
        if_false]
      cases hheader : Resolution.headerFault?
          ⟨e.cid, p.data.getD (.obj []), p.model, p.account⟩ with
      | some reason =>
          rw [hheader, Option.isSome_some] at hfault
          rw [Resolution.established_of_fault hheader, if_pos hfault.symm]
          exact ⟨reason, rfl⟩
      | none =>
          rw [hheader, Option.isSome_none] at hfault
          rw [if_neg (by simp [← hfault]),
            established_applied hready hwf hc rfl hheader hnew hrow owner]
          rfl

/-- Where nothing stands in the way an event at the tip is applied if it can be folded. -/
theorem advancement_applied (hready : en.Ready) (hs : en.tables.Sound en.backend)
    (hfits : Held.Fits en.backend en.tables held) (hwf : e.WellFormed) (hc : e.cid = .str c)
    (hnew : en.tables.events.get? (.text c) = none) {id tip : String}
    (hrow : en.tables.streams.get? (.text id) = some row) (hid : row.id = .str id)
    (htip : row.tip = .str tip) (hmoves : e.prev = row.tip) :
    (Resolution.advancement en.backend en.extract en.tables e row held).map (·.1) =
      ((Fold.State.ofRow row).advance e).map fun _ => Resolution.appliedReceipt (.str id) e := by
  rw [Resolution.advancement_of_eq hwf hc hnew htip hmoves,
    currentOf_eq_ofRow (hready.backend_eq ▸ hfits) hrow]
  cases (Fold.State.ofRow row).advance e with
  | error f => rfl
  | ok s =>
      obtain ⟨signal, hsignal⟩ := hready.extracts s.content
      rw [ok_bind, Resolution.moved_eq (t := en.tables.withEvent c e) hs.streamsNamed hc hid hrow
        htip hmoves, if_pos (hready.takes s.content), hsignal, hid]
      rfl

/-- An event that follows the tip is applied if its patch keeps the content an object. -/
theorem advancement_verdict (hready : en.Ready) (hs : en.tables.Sound en.backend)
    (hfits : Held.Fits en.backend en.tables held) (hwf : e.WellFormed) (hc : e.cid = .str c)
    (hp : e.payload = .ok p) (hnew : en.tables.events.get? (.text c) = none) {id tip : String}
    (hrow : en.tables.streams.get? (.text id) = some row) (hid : row.id = .str id)
    (htip : row.tip = .str tip) (hmoves : e.prev = row.tip) :
    (if p.keepsObject row.content then Verdict.applied else .malformed).Answers e (.str id)
      ((Resolution.advancement en.backend en.extract en.tables e row held).map (·.1)) := by
  rw [advancement_applied hready hs hfits hwf hc hnew hrow hid htip hmoves,
    advance_ofRow hp htip hmoves]
  cases hkeeps : p.keepsObject row.content with
  | false =>
      obtain ⟨reason, hpatched⟩ := patched_of_not_keepsObject (e := e) hkeeps
      rw [hpatched]
      exact ⟨reason, rfl⟩
  | true =>
      obtain ⟨content, hpatched⟩ := patched_of_keepsObject (e := e) hkeeps
      rw [hpatched]
      rfl

theorem ruling_of_extension (hready : en.Ready) (hs : en.tables.Sound en.backend)
    (hfits : Held.Fits en.backend en.tables held) (hwf : e.WellFormed) (hc : e.cid = .str c)
    (hg : e.genesis = .str g) (hp : e.payload = .ok p)
    (hnew : en.tables.events.get? (.text c) = none) {prev : String} (hprev : e.prev = .str prev) :
    (en.verdict e p claim).Answers e (.str (Ident.streamId g))
      ((en.ruling en.tables e (.str (Ident.streamId g)) claim held).map (·.1)) := by
  have hgenesis : e.isGenesis = false := by simp [hwf.isGenesis_eq, hprev]
  have hstored : en.tables.stored? e.prev = en.tables.events.get? (.text prev) := by
    rw [hprev]
    rfl
  unfold verdict
  rw [stored?_text hc, hnew, hstored]
  simp only [hgenesis, Bool.false_eq_true, if_false]
  cases hparent : en.tables.events.get? (.text prev) with
  | none =>
      rw [ruling, Linkage.ofEvent_of_missing hwf hc hnew hprev hparent]
      exact ⟨_, rfl⟩
  | some parent =>
      dsimp only
      by_cases hbelongs : parent.genesis = e.genesis
      · obtain ⟨row, tip, hrow, htip, hid, -⟩ :=
          exists_row_of_stores hs ⟨_, hparent⟩ (hbelongs.trans hg)
        have hlinked : e.prev = parent.cid := hprev.trans (hs.cid_of_get? hparent).symm
        rw [if_neg (by simp [hbelongs]), tipAt_eq hg hrow, contentAt_eq hg hrow,
          ruling_of_parent hs hwf hc hnew ⟨_, hparent⟩ hlinked hbelongs hrow]
        by_cases hmoves : e.prev = row.tip
        · rw [if_neg (by simp [hmoves])]
          exact advancement_verdict hready hs hfits hwf hc hp hnew hrow hid htip hmoves
        · rw [if_pos hmoves, Resolution.advancement_of_ne hwf hc hnew htip hmoves, hid]
          rfl
      · rw [if_pos hbelongs, ruling, Linkage.ofEvent_of_parent hwf hc hnew hprev hparent,
          if_neg hbelongs]
        exact ⟨_, rfl⟩

theorem ruling_verdict (hready : en.Ready) (hs : en.tables.Sound en.backend)
    (hfits : Held.Fits en.backend en.tables held) (hapart : Apart en.tables e)
    (hwf : e.WellFormed) (hc : e.cid = .str c) (hg : e.genesis = .str g) (hp : e.payload = .ok p)
    (hmodel : ModelIsText p) (claim : OwnerClaim) :
    (en.verdict e p claim).Answers e (.str (Ident.streamId g))
      ((en.ruling en.tables e (.str (Ident.streamId g)) claim held).map (·.1)) := by
  cases hstored : en.tables.events.get? (.text c) with
  | some stored => exact ruling_of_stored hs hwf hc hg hstored
  | none =>
      rcases hwf.prev_text with hprev | ⟨prev, hprev⟩
      · exact ruling_of_genesis hready hs hapart hwf hc hg hp hmodel hstored hprev
      · exact ruling_of_extension hready hs hfits hwf hc hg hp hstored hprev

/-! ## Every submission of a run -/

theorem takesAll_of_acceptance (h : en.archive.TakesAll) (hc : e.cid = .str c) {r : Receipt}
    {holdings : Holdings} (hres : en.acceptance e claim held = .ok (r, holdings)) :
    holdings.archive.TakesAll := by
  obtain ⟨bs, written, -, hput⟩ := exists_put_of_acceptance hres
  obtain ⟨written', a, hput', htakes⟩ := h.exists_put c bs
  rw [hc] at hput
  obtain ⟨-, rfl⟩ := Prod.mk.inj (Except.ok.inj (hput.symm.trans hput'))
  exact htakes

theorem takesAll_of_submit (hst : en.Steady) (h : en.archive.TakesAll) (e : Event)
    (claim : OwnerClaim) : (en.submit e claim).2.archive.TakesAll := by
  cases hst.commits e claim with
  | failed f d heq =>
      rw [heq]
      exact h
  | answered c g r holdings d hadm hwf hc hg hres hfiled heq =>
      rw [heq]
      exact takesAll_of_acceptance h hc hres

theorem takesAll_of_perform (hst : en.Steady) (h : en.archive.TakesAll) (op : Operation) :
    (en.perform op).2.archive.TakesAll := by
  cases op with
  | submit e claim => exact takesAll_of_submit hst h e claim
  | rebuild id =>
      show (en.rebuild id).2.archive.TakesAll
      rw [hst.rebuild_archive id]
      exact h
  | branch | getStream | getFolder | getEvent | loadEvents | listStreams | findByContent
  | queryBySignal | signals | register => exact h

/-- Nothing stands in the way of an engine later on if nothing did at the start. -/
theorem Ready.after (h : en.Ready) (hst : en.Steady) (ops : List Operation) :
    (en.after ops).Ready := by
  induction ops generalizing en with
  | nil => exact h
  | cons op rest ih =>
      have hsetup := perform_sameSetup en op
      refine ih ⟨?_, ?_, takesAll_of_perform hst h.takesAll op, ?_⟩ (hst.perform op)
      · exact hsetup.backend_eq.trans h.backend_eq
      · exact hsetup.isOpen_eq.trans h.isOpen
      · exact hsetup.extract_eq ▸ h.extracts

/-- Distinct genesis cids have distinct stream ids. -/
def StreamsApart (es : List Event) : Prop :=
  ∀ x ∈ es, ∀ y ∈ es, x.isGenesis = true → y.isGenesis = true → streamOf x = streamOf y →
    x.cid = y.cid

theorem Verdict.Answers.ne_unknownStream {v : Verdict} {id : Json} {res : Except Failure Receipt}
    (h : v.Answers e id res) (stream cid : Json) : res ≠ .error (.unknownStream stream cid) := by
  rintro rfl
  cases v <;> simp [Verdict.Answers] at h

theorem streamFound_eq (hst : en.Steady) (hopen : en.checkOpen = .ok ())
    (hrow : en.tables.streams.get? (.text (Ident.streamId g)) = some row) :
    en.streamFound (.str (Ident.streamId g)) = .ok row := by
  obtain ⟨g', tip, chain, s, -, hp⟩ := hst.sound.projects _ row hrow
  simp [streamFound, checkShape, Ident.isStreamId_streamId, hopen,
    Tables.stream?_of_some hrow hp.isObject, found]

theorem Steady.submit_eq (hst : en.Steady) (hready : en.Ready) (hadm : en.admission e = .ok e)
    (hg : e.genesis = .str g) (claim : OwnerClaim) :
    (en.submit e claim).1 =
      (en.ruling en.tables e (.str (Ident.streamId g)) claim en.desk.heldAt).map (·.1) := by
  cases hst.submits e claim with
  | refused f d hrefused => simp [hadm] at hrefused
  | settled c g' d hadm' hwf hc hg' hsettles heq =>
      rw [heq]
      exact acceptance_eq hready hwf (hwf.streamOf_eq hg)

theorem Steady.submit_answers (hst : en.Steady) (hready : en.Ready) (hapart : Apart en.tables e)
    (hadm : en.admission e = .ok e) (hp : e.payload = .ok p) (hmodel : ModelIsText p)
    (hg : e.genesis = .str g) (claim : OwnerClaim) :
    (en.verdict e p claim).Answers e (.str (Ident.streamId g)) (en.submit e claim).1 ∧
      ∀ r, (en.submit e claim).1 = .ok r → r.stream = .str (Ident.streamId g) ∧ ∃ row,
        ((en.submit e claim).2.getStream (.str (Ident.streamId g))).1 = .ok row ∧
          row.tip = r.tip := by
  obtain ⟨-, hwf, -⟩ := admission_eq_ok hadm
  obtain ⟨c, hc, -⟩ := hwf.cid_text
  constructor
  · rw [hst.submit_eq hready hadm hg]
    exact ruling_verdict hready hst.sound hst.fits hapart hwf hc hg hp hmodel claim
  · intro r hr
    obtain ⟨hstream, row, hrow, htip⟩ := hst.exists_row hg hr
    have hopen := (hready.after hst [.submit e claim]).checkOpen
    refine ⟨hstream, row, ?_, htip⟩
    rw [getStream_eq]
    exact streamFound_eq (hst.submit e claim) hopen hrow

/-- How an event is answered by an engine, and what its stream is then found to be. -/
structure Answered (en : Engine) (e : Event) (p : Payload) (claim : OwnerClaim) (id : String) :
    Prop where
  stream_eq : streamOf e = .ok id
  answers : (en.verdict e p claim).Answers e (.str id) (en.submit e claim).1
  /-- The stream of an event is never unknown. -/
  ne_unknown : ∀ stream cid, (en.submit e claim).1 ≠ .error (.unknownStream stream cid)
  /-- The tip that is reported is the tip of the stream that is found afterwards. -/
  tip_eq : ∀ r, (en.submit e claim).1 = .ok r → r.stream = .str id ∧
    ∃ row, ((en.submit e claim).2.getStream (.str id)).1 = .ok row ∧ row.tip = r.tip

/--
In every run over an empty store in memory a well-formed event is answered by the verdict
of the tables, never for lack of a stream, and the tip that it is answered is the one that
its stream then has.
-/
theorem Fresh.submission_answered (h : en.Fresh) (hready : en.Ready) (ops : List Operation)
    (hvalid : e.validate en.maxBlockBytes = .ok e) (hp : e.payload = .ok p)
    (hmodel : ModelIsText p) (hapart : StreamsApart (e :: submitted ops)) (claim : OwnerClaim) :
    ∃ id, (en.after ops).Answered e p claim id := by
  obtain ⟨-, hwf⟩ := Event.validate_eq_ok hvalid
  obtain ⟨g, hg, -⟩ := hwf.genesis_text
  have hadm : (en.after ops).admission e = .ok e := by
    have hlimit : (en.after ops).maxBlockBytes = en.maxBlockBytes :=
      (after_sameSetup en ops).limit_eq
    simp [admission, hlimit, hvalid, hp]
  have hstored : Apart (en.after ops).tables e := by
    intro x hx hgx hge hsame
    exact hapart x (List.mem_cons_of_mem _ (h.mem_submitted ops hx)) e (by simp) hgx hge hsame
  obtain ⟨hverdict, htip⟩ := (h.steady.after ops).submit_answers (hready.after h.steady ops)
    hstored hadm hp hmodel hg claim
  exact ⟨_, hwf.streamOf_eq hg, hverdict, hverdict.ne_unknownStream, htip⟩

/-- A second event behind the first one is answered with the tip that stands. -/
theorem submission_answered_sample :
    let now := (sampleEngine .memory (some (.empty (.ofNat 1)))).after
      [.submit sampleGenesis sampleOwner, .submit (sampleUpdate "second" "first" 1) .none]
    let e := sampleUpdate "other" "first" 2
    ∃ id p, e.payload = .ok p ∧ now.verdict e p .none = .beside (.str "second") ∧
      now.Answered e p .none id := by
  intro now e
  let p : Payload :=
    ⟨none, some (.arr [.obj [("op", .str "replace"), ("path", .str "/n"), ("value", .int 2)]]),
      false⟩
  have hp : e.payload = .ok p := by decide +kernel
  have hready : (sampleEngine .memory (some (.empty (.ofNat 1)))).Ready :=
    ⟨rfl, rfl, trivial, fun content => ⟨Signal.ofContent? content, rfl⟩⟩
  have hvalid : e.validate none = .ok e := by decide +kernel
  have hapart : StreamsApart [e, sampleGenesis, sampleUpdate "second" "first" 1] := by
    unfold StreamsApart
    decide +kernel
  obtain ⟨id, hanswered⟩ :=
    (sampleEngine_fresh .memory (.ofNat 1)).submission_answered (e := e) (p := p) hready
      [.submit sampleGenesis sampleOwner, .submit (sampleUpdate "second" "first" 1) .none]
      hvalid hp (.inl rfl) hapart .none
  exact ⟨id, p, hp, by decide +kernel, hanswered⟩

end Engine

end ChainFold
