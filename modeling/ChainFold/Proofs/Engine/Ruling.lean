import ChainFold.Engine.Submission
import ChainFold.Proofs.Fold.Desk
import ChainFold.Proofs.Store.Rows

/-!
# Submission without a desk

What a submission comes to depends on the desk only through the state that is held
at the tip of the stream.  Given that state the outcome is a plain computation, and
at most one state is newly held: the one at the submitted event.
-/

namespace ChainFold

/-- The state that a row gives. -/
def Fold.State.ofRow (row : Stream) : Fold.State := ⟨row.tip, row.content, row.model, row.account⟩

abbrev Held : Type := Json → Option Fold.State

/--
How a submission leaves a desk: at most one state is newly held, and one is if the event
became the tip.
-/
def Desk.After {α : Type} (k : Key) (folded : Fold.State → Prop)
    (res : Except Failure (Receipt × α)) (d d' : Desk) : Prop :=
  (∀ r, res = .ok r → r.1.status ≠ .applied) ∧ d.Keeps d' ∨ ∃ s, folded s ∧ d.Learns k s d'

theorem Desk.After.of_keeps {α : Type} {k : Key} {folded : Fold.State → Prop} {d d' : Desk}
    {res : Except Failure (Receipt × α)} (h : d.Keeps d')
    (hres : ∀ r, res = .ok r → r.1.status ≠ .applied) : d.After k folded res d' :=
  .inl ⟨hres, h⟩

theorem Desk.Keeps.exists_after {α : Type} {k : Key} {folded : Fold.State → Prop}
    {d d' : Desk} {res : Except Failure (Receipt × α)} {P : Desk → Prop} (h : d.Keeps d')
    (h' : ∃ d'', P d'' ∧ d'.After k folded res d'') : ∃ d'', P d'' ∧ d.After k folded res d'' := by
  obtain ⟨d'', hP, ⟨hres, hkeeps⟩ | ⟨s, hs, hlearns⟩⟩ := h'
  · exact ⟨d'', hP, .inl ⟨hres, h.trans hkeeps⟩⟩
  · exact ⟨d'', hP, .inr ⟨s, hs, h.learns hlearns⟩⟩

/-- Later steps that hold nothing new and keep the receipt leave a desk as it was left. -/
theorem Desk.After.keeps {α β : Type} {k : Key} {folded folded' : Fold.State → Prop}
    {d d' d'' : Desk} {res : Except Failure (Receipt × α)} {res' : Except Failure (Receipt × β)}
    (h : d.After k folded res d') (hkeeps : d'.Keeps d'') (hfolded : ∀ s, folded s → folded' s)
    (hres : ∀ r, res' = .ok r → ∃ r₁, res = .ok r₁ ∧ r₁.1 = r.1) :
    d.After k folded' res' d'' := by
  rcases h with ⟨hno, hk⟩ | ⟨s, hs, hlearns⟩
  · refine .inl ⟨?_, hk.trans hkeeps⟩
    intro r hr
    obtain ⟨r₁, hr₁, heq⟩ := hres r hr
    exact heq ▸ hno r₁ hr₁
  · exact .inr ⟨s, hfolded s hs, hlearns.keeps hkeeps⟩

theorem Desk.After.none {α : Type} {k : Key} {folded : Fold.State → Prop} {d d' : Desk}
    {res : Except Failure (Receipt × α)} (h : d.After k folded res d') (hd : d.recent = none) :
    d'.recent = none := by
  rcases h with ⟨-, hkeeps⟩ | ⟨s, -, hlearns⟩
  · exact hkeeps.none hd
  · exact hlearns.none hd

/-- A look-up that fails leaves the desk alone, and else what comes after it decides. -/
theorem Desk.exists_after_of_lookup {α β : Type} {k : Key} {folded : Fold.State → Prop} {d : Desk}
    {r : Except Failure β} {w : β → Work (Receipt × α)} {g : β → Except Failure (Receipt × α)}
    (h : ∀ a, r = .ok a → ∃ d', (w a).on d = (g a, d') ∧ d.After k folded (g a) d') :
    ∃ d', (Work.ofExcept r >>= w).on d = (r >>= g, d') ∧ d.After k folded (r >>= g) d' := by
  cases r with
  | error f => exact ⟨d, rfl, .of_keeps (.refl d) (by simp)⟩
  | ok a => exact h a rfl

namespace Index

def refreshed (b : Backend) (extract : Extractor) (t : Tables) (stream tip content : Json) :
    Except Failure Tables := do
  t.putFolder b (← folderOf extract stream tip content)

theorem refresh_isPlain (b : Backend) (extract : Extractor) (t : Tables)
    (stream tip content : Json) :
    (refresh b extract t stream tip content).IsPlain
      (refreshed b extract t stream tip content) := by
  refine (Work.IsPlain.ofExcept _).bind fun f _ => ?_
  exact (Work.IsPlain.ofExcept _).and_return fun t => (Work.IsPlain.pure t).note_bind

end Index

namespace Resolution

/-! ## Creating and advancing -/

theorem lost_isPlain (stream : Json) (e : Event) (tip : Json) (t : Tables) :
    Work.IsPlain (do pure (← lost stream e tip, t)) (.ok (conflictReceipt stream e tip, t)) := by
  have hlost : (lost stream e tip).IsPlain (.ok (conflictReceipt stream e tip)) :=
    (Work.IsPlain.pure _).note_bind
  exact hlost.bind (g := fun r => .ok (r, t)) fun r _ => .pure (r, t)

/-- What comes of a genesis event once its state is known. -/
def established (b : Backend) (extract : Extractor) (t : Tables) (e : Event) (id : Json)
    (owner : Uuid) (s : Fold.State) : Except Failure (Receipt × Tables) := do
  checkHeader e s
  let (created, t) ← t.insertStream b (newStream id owner s)
  let (_, t) ← t.insertEvent b e
  if created then
    let t ← Index.refreshed b extract t id e.cid s.content
    pure (appliedReceipt id e, t)
  else
    let tip ← tipOf b t id
    pure (conflictReceipt id e tip, t)

def creation (b : Backend) (extract : Extractor) (t : Tables) (e : Event) (id : Json)
    (owner : Uuid) : Except Failure (Receipt × Tables) := do
  established b extract t e id owner (← Fold.State.ofGenesis e)

/-- What comes of an event at the tip once its state is known. -/
def moved (b : Backend) (extract : Extractor) (t : Tables) (e : Event) (row : Stream)
    (s : Fold.State) : Except Failure (Receipt × Tables) := do
  let (moved, t) ← t.swapTip b row.id e.prev e.cid s.content
  if moved then
    let t ← Index.refreshed b extract t row.id e.cid s.content
    pure (appliedReceipt row.id e, t)
  else
    let tip ← tipOf b t row.id
    pure (conflictReceipt row.id e tip, t)

/-- The state from which a stream is advanced: the one held, or the one that its row gives. -/
def currentOf (held : Held) (row : Stream) : Fold.State := (held row.tip).getD (.ofRow row)

def advancement (b : Backend) (extract : Extractor) (t : Tables) (e : Event) (row : Stream)
    (held : Held) : Except Failure (Receipt × Tables) := do
  let (_, t) ← t.insertEvent b e
  if !e.prev.looselySame row.tip then pure (conflictReceipt row.id e row.tip, t)
  else moved b extract t e row (← (currentOf held row).advance e)

/-- Creating a stream holds the state at its first event, and nothing else. -/
theorem createStream_on (b : Backend) (extract : Extractor) (t : Tables) {e : Event} (id : Json)
    (owner : Uuid) {k : Key} (hk : e.cid.key? = some k) (d : Desk) :
    ∃ d', (createStream b extract t e id owner).on d = (creation b extract t e id owner, d') ∧
      d.After k (Fold.State.ofGenesis e = .ok ·) (creation b extract t e id owner) d' := by
  refine Exists.imp (fun d' hd' => ⟨hd'.1, ?_⟩)
    ((Fold.start_folds hk).bind (g := established b extract t e id owner) (fun s _ => ?_) d)
  · rcases hd'.2 with ⟨⟨f, hf⟩, hkeeps⟩ | hlearns
    · exact .of_keeps hkeeps (by simp [creation, hf])
    · exact .inr hlearns
  refine (Work.IsPlain.ofExcept _).bind fun _ _ => ?_
  refine (Work.IsPlain.ofExcept _).bind ?_
  rintro ⟨created, t⟩ -
  refine (Work.IsPlain.ofExcept _).bind ?_
  rintro ⟨stored, t⟩ -
  dsimp only
  split
  · exact (Index.refresh_isPlain b extract t id e.cid s.content).bind
      fun t _ => (Work.IsPlain.pure _).note_bind
  · exact (Work.IsPlain.ofExcept _).bind fun tip _ => lost_isPlain id e tip t

theorem currentState_on {row : Stream} {k : Key} (hk : row.tip.key? = some k) (d : Desk) :
    ∃ d', (currentState row).on d = (.ok (currentOf d.heldAt row), d') ∧ d.Keeps d' := by
  obtain ⟨d', hd', hkeeps⟩ := Fold.fetch_on (d := d) hk
  refine ⟨d', ?_, hkeeps⟩
  unfold currentState currentOf
  rw [Work.on_bind_ok hd']
  cases d.heldAt row.tip <;> rfl

/-- Advancing a stream holds the state at the event, if it is folded, and nothing else. -/
theorem advance_on (b : Backend) (extract : Extractor) (t : Tables) {e : Event} {row : Stream}
    {k k' : Key} (hk : e.cid.key? = some k) (hk' : row.tip.key? = some k') (d : Desk) :
    ∃ d', (advance b extract t e row).on d = (advancement b extract t e row d.heldAt, d') ∧
      d.After k ((currentOf d.heldAt row).advance e = .ok ·)
        (advancement b extract t e row d.heldAt) d' := by
  unfold advance advancement
  refine Desk.exists_after_of_lookup ?_
  rintro ⟨stored, t⟩ -
  dsimp only
  split
  · obtain ⟨d', hd', hrecent⟩ := (lost_isPlain row.id e row.tip t).on_eq d
    refine ⟨d', hd', .of_keeps (Desk.keeps_of_recent_eq hrecent) ?_⟩
    intro r hr
    obtain rfl := Except.ok.inj hr
    simp [conflictReceipt]
  · obtain ⟨d₁, hd₁, hkeeps⟩ := currentState_on hk' d
    rw [Work.on_bind_ok hd₁]
    refine Exists.imp (fun d' hd' => ⟨hd'.1, ?_⟩)
      ((Fold.step_folds (currentOf d.heldAt row) hk).bind (g := moved b extract t e row) ?_ d₁)
    · rcases hd'.2 with ⟨⟨f, hf⟩, hk₁⟩ | ⟨s, hs, hlearns⟩
      · exact .of_keeps (hkeeps.trans hk₁) (by simp [hf])
      · exact .inr ⟨s, hs, hkeeps.learns hlearns⟩
    · intro s _
      refine (Work.IsPlain.ofExcept _).bind ?_
      rintro ⟨moved, t⟩ -
      dsimp only
      split
      · exact (Index.refresh_isPlain b extract t row.id e.cid s.content).bind
          fun t _ => (Work.IsPlain.pure _).note_bind
      · exact (Work.IsPlain.ofExcept _).bind fun tip _ => lost_isPlain row.id e tip t

end Resolution

namespace Engine

/-! ## The whole submission -/

/-- What a checked event comes to in the tables. -/
def ruling (en : Engine) (t : Tables) (e : Event) (stream : Json) (claim : OwnerClaim)
    (held : Held) : Except Failure (Receipt × Tables) := do
  match ← Linkage.ofEvent en.backend t e with
  | .genesis => Resolution.creation en.backend en.extract t e stream (← ownerOf en.registry e claim)
  | .duplicate =>
    match ← t.stream? en.backend stream with
    | none => throw (.unknownStream stream e.cid)
    | some row => pure (⟨stream, e.cid, row.tip, .duplicate, none⟩, t)
  | .extension =>
    match ← t.stream? en.backend stream with
    | none => throw (.unknownStream stream e.cid)
    | some row => Resolution.advancement en.backend en.extract t e row held

/-- What archiving an applied event comes to. -/
def settlement (en : Engine) (e : Event) (r : Receipt) (t : Tables) :
    Except Failure (Receipt × Holdings) := do
  let (_, a) ← en.archive.put e.cid (← envelopeOf e)
  pure (r, ⟨t, a⟩)

def resolution (en : Engine) (e : Event) (stream : String) (claim : OwnerClaim) (held : Held) :
    Except Failure (Receipt × Tables) := do
  en.checkOpen
  en.ruling en.tables e stream claim held

/-- What a checked event comes to in tables and archive. -/
def acceptance (en : Engine) (e : Event) (claim : OwnerClaim) (held : Held) :
    Except Failure (Receipt × Holdings) := do
  let (r, t) ← en.resolution e (← streamOf e) claim held
  en.settlement e r t

/-- What a submitted event is checked for. -/
def admission (en : Engine) (e : Event) : Except Failure Event := do
  let e ← e.validate en.maxBlockBytes
  let _ ← e.payload
  pure e

/-- The state at a checked event, as far as it is folded in its submission. -/
def Folded (en : Engine) (t : Tables) (e : Event) (stream : Json) (held : Held)
    (s : Fold.State) : Prop :=
  Linkage.ofEvent en.backend t e = .ok .genesis ∧ Fold.State.ofGenesis e = .ok s ∨
    Linkage.ofEvent en.backend t e = .ok .extension ∧
      ∃ row, t.stream? en.backend stream = .ok (some row) ∧
        (Resolution.currentOf held row).advance e = .ok s

/-- Only an event that is not stored yet can start or extend a chain. -/
theorem event?_of_ofEvent {b : Backend} {t : Tables} {e : Event} {linkage : Linkage}
    (h : Linkage.ofEvent b t e = .ok linkage) (hne : linkage ≠ .duplicate) :
    t.event? b e.cid = .ok none := by
  obtain ⟨stored?, hstored, h⟩ := bind_eq_ok.mp h
  cases stored? with
  | none => exact hstored
  | some stored =>
      dsimp only at h
      split at h
      · exact absurd (Except.ok.inj h).symm hne
      · simp at h

theorem Folded.event?_eq {en : Engine} {t : Tables} {e : Event} {stream : Json} {held : Held}
    {s : Fold.State} (h : en.Folded t e stream held s) : t.event? en.backend e.cid = .ok none := by
  rcases h with ⟨hlink, -⟩ | ⟨hlink, -⟩
  · exact event?_of_ofEvent hlink (by simp)
  · exact event?_of_ofEvent hlink (by simp)

theorem link_isPlain (b : Backend) (t : Tables) (e : Event) :
    (Linkage.link b t e).IsPlain (Linkage.ofEvent b t e) := by
  refine (Work.IsPlain.ofExcept _).and_return fun linkage => ?_
  dsimp only
  split
  · exact (Work.IsPlain.pure linkage).note_bind
  · exact Work.IsPlain.pure linkage

theorem resolve_on (en : Engine) (t : Tables) {e : Event} (stream : Json) (claim : OwnerClaim)
    {k : Key} (hk : e.cid.key? = some k)
    (hrows : ∀ row, t.stream? en.backend stream = .ok (some row) → ∃ k', row.tip.key? = some k')
    (d : Desk) :
    ∃ d', (en.resolve t e stream claim).on d = (en.ruling t e stream claim d.heldAt, d') ∧
      d.After k (en.Folded t e stream d.heldAt) (en.ruling t e stream claim d.heldAt) d' := by
  obtain ⟨d₁, hd₁, hrecent⟩ := (link_isPlain en.backend t e).on_eq d
  have hheld : d₁.heldAt = d.heldAt := Desk.heldAt_eq hrecent
  have hkeeps : d.Keeps d₁ := Desk.keeps_of_recent_eq hrecent
  unfold resolve ruling
  rw [Work.on_bind, hd₁]
  cases hlink : Linkage.ofEvent en.backend t e with
  | error f => exact ⟨d₁, rfl, .of_keeps hkeeps (by simp)⟩
  | ok linkage =>
      rw [ok_bind, ← hheld]
      refine hkeeps.exists_after ?_
      cases linkage with
      | genesis =>
          refine Desk.exists_after_of_lookup fun owner _ => ?_
          obtain ⟨d', hd', hafter⟩ := Resolution.createStream_on en.backend en.extract t
            stream owner hk d₁
          exact ⟨d', hd', hafter.keeps (.refl d') (fun s hs => .inl ⟨hlink, hs⟩)
            fun r hr => ⟨r, hr, rfl⟩⟩
      | duplicate =>
          refine Desk.exists_after_of_lookup fun row? _ => ?_
          cases row? with
          | none => exact ⟨d₁, rfl, .of_keeps (.refl d₁) (by simp)⟩
          | some row => exact ⟨d₁, rfl, .of_keeps (.refl d₁) (by simp)⟩
      | extension =>
          refine Desk.exists_after_of_lookup fun row? hrow => ?_
          cases row? with
          | none => exact ⟨d₁, rfl, .of_keeps (.refl d₁) (by simp)⟩
          | some row =>
              obtain ⟨k', hk'⟩ := hrows row hrow
              obtain ⟨d', hd', hafter⟩ := Resolution.advance_on en.backend en.extract t hk hk' d₁
              exact ⟨d', hd', hafter.keeps (.refl d') (fun s hs => .inr ⟨hlink, row, hrow, hs⟩)
                fun r hr => ⟨r, hr, rfl⟩⟩

/-! ## Failures on their way out -/

/-- A failure that is noted on its way out is the same failure. -/
theorem warnOn_on {α : Type} (kinds : Failure → Bool) (lead : String) (context : Members)
    (w : Work α) (d : Desk) :
    ∃ d', (warnOn kinds lead context w).on d = ((w.on d).1, d') ∧
      d'.recent = (w.on d).2.recent := by
  unfold warnOn
  rw [Work.on_tryCatch]
  cases hw : w.on d with
  | mk r d₁ =>
      cases r with
      | ok a => exact ⟨d₁, rfl, rfl⟩
      | error f =>
          dsimp only
          split
          · exact (Work.IsPlain.throw f).note_bind.on_eq d₁
          · exact (Work.IsPlain.throw f).on_eq d₁

theorem warnOn_isPlain {α : Type} {w : Work α} {r : Except Failure α} (h : w.IsPlain r)
    (kinds : Failure → Bool) (lead : String) (context : Members) :
    (warnOn kinds lead context w).IsPlain r := by
  intro d
  obtain ⟨d', hd', hrecent⟩ := warnOn_on kinds lead context w d
  rw [hd']
  exact ⟨(h d).1, hrecent.trans (h d).2⟩

/-! ## From submission to answer -/

theorem admitting_isPlain (en : Engine) (e : Event) :
    (en.admitting e).IsPlain (en.admission e) := by
  refine warnOn_isPlain ?_ _ _ _
  refine (Work.IsPlain.ofExcept _).bind fun e' _ => ?_
  refine Work.IsPlain.note_bind ?_
  exact (Work.IsPlain.ofExcept _).bind fun _ _ => .pure e'

/-- An event that is admitted is well formed and has a payload that can be read. -/
theorem admission_eq_ok {en : Engine} {e e' : Event} (h : en.admission e = .ok e') :
    e' = e ∧ e.WellFormed ∧ ∃ p, e.payload = .ok p := by
  obtain ⟨e₁, hvalid, hpayload⟩ := bind_eq_ok.mp h
  obtain ⟨p, hp, heq⟩ := bind_eq_ok.mp hpayload
  obtain ⟨rfl, hwf⟩ := Event.validate_eq_ok hvalid
  exact ⟨(Except.ok.inj heq).symm, hwf, p, hp⟩

theorem keep_isPlain (a : Archive) (cid : Json) (bs : Bytes) :
    (keep a cid bs).IsPlain (a.put cid bs) := by
  refine (Work.IsPlain.ofExcept _).and_return ?_
  rintro ⟨written, a'⟩
  dsimp only
  split
  · unfold noteKept
    split
    · exact (Work.IsPlain.pure _).note_bind
    · exact Work.IsPlain.pure _
  · exact Work.IsPlain.pure _

theorem settling_isPlain (en : Engine) {e : Event} {stream : String}
    (hstream : streamOf e = .ok stream) (r : Receipt) (t : Tables) :
    (en.settling e r t).IsPlain (en.settlement e r t) := by
  unfold settling settlement
  have hcontext : contextOf e = .ok (eventContext e stream) := by simp [contextOf, hstream]
  rw [hcontext]
  refine (Work.IsPlain.pure _).bind (g := fun _ => en.settlement e r t) fun context _ => ?_
  refine (Work.IsPlain.ofExcept _).bind fun bs _ => ?_
  refine (keep_isPlain _ _ _).bind ?_
  rintro ⟨written, a⟩ -
  dsimp only
  have hnote : (noteReceipt context r).IsPlain (.ok ()) := by
    unfold noteReceipt
    cases r.status with
    | applied => exact .note _ _ _ _
    | duplicate => exact .note _ _ _ _
    | notApplied => exact .pure ()
  exact hnote.bind (g := fun _ => .ok (r, Holdings.mk t a)) fun _ _ => .pure _

/-- The rows of an engine have tips that can be looked up. -/
def TipsKeyed (en : Engine) : Prop :=
  ∀ k row, en.tables.streams.get? k = some row → ∃ k', row.tip.key? = some k'

theorem settlement_receipt {en : Engine} {e : Event} {r : Receipt} {t : Tables}
    {p : Receipt × Holdings} (h : en.settlement e r t = .ok p) :
    p.1 = r ∧ p.2.tables = t := by
  obtain ⟨bs, -, h⟩ := bind_eq_ok.mp h
  obtain ⟨⟨written, a⟩, -, h⟩ := bind_eq_ok.mp h
  obtain rfl := Except.ok.inj h
  exact ⟨rfl, rfl⟩

theorem exists_put_of_acceptance {en : Engine} {e : Event} {claim : OwnerClaim} {held : Held}
    {r : Receipt} {h : Holdings} (hres : en.acceptance e claim held = .ok (r, h)) :
    ∃ bs written, e.envelope = .ok bs ∧ en.archive.put e.cid bs = .ok (written, h.archive) := by
  obtain ⟨stream, -, hres⟩ := bind_eq_ok.mp hres
  obtain ⟨p, -, hres⟩ := bind_eq_ok.mp hres
  obtain ⟨bs, hbs, hres⟩ := bind_eq_ok.mp hres
  obtain ⟨⟨written, a⟩, hput, hres⟩ := bind_eq_ok.mp hres
  obtain ⟨-, rfl⟩ := Prod.mk.inj (Except.ok.inj hres)
  refine ⟨bs, written, ?_, hput⟩
  unfold envelopeOf at hbs
  cases henvelope : e.envelope with
  | error d =>
      rw [henvelope] at hbs
      cases hbs
  | ok cs =>
      rw [henvelope] at hbs
      exact congrArg Except.ok (Except.ok.inj hbs)

theorem resolving_on (en : Engine) {e : Event} (claim : OwnerClaim) (htips : en.TipsKeyed)
    {stream : String} (hstream : streamOf e = .ok stream) {k : Key} (hk : e.cid.key? = some k)
    (d : Desk) :
    ∃ d', (en.resolving e claim).on d = (en.resolution e stream claim d.heldAt, d') ∧
      d.After k (en.Folded en.tables e stream d.heldAt)
        (en.resolution e stream claim d.heldAt) d' := by
  unfold resolving
  rw [Work.on_bind, Work.on_ofExcept, hstream]
  obtain ⟨d', hd', hrecent⟩ := warnOn_on isRejection "Rejected event" (eventContext e stream)
    (do Work.ofExcept en.checkOpen; en.resolve en.tables e stream claim) d
  have hkeeps := Desk.keeps_of_recent_eq hrecent
  dsimp only
  rw [hd']
  cases hopen : en.checkOpen with
  | error f =>
      rw [hopen] at hkeeps
      rw [Work.on_bind_error (Work.on_ofExcept _)] at hkeeps ⊢
      refine ⟨d', ?_, .of_keeps hkeeps ?_⟩
      · simp [resolution, hopen]
      · simp [resolution, hopen]
  | ok u =>
      rw [hopen] at hkeeps
      rw [Work.on_bind_ok (Work.on_ofExcept _)] at hkeeps ⊢
      obtain ⟨d₁, hd₁, hafter⟩ := en.resolve_on en.tables stream claim hk (fun s hs => by
        obtain ⟨row, hrow, -, htip⟩ := Tables.exists_row_of_stream? hs
        exact htip ▸ htips _ row hrow) d
      rw [hd₁] at hkeeps ⊢
      have heq : en.resolution e stream claim d.heldAt =
          en.ruling en.tables e stream claim d.heldAt := by simp [resolution, hopen]
      rw [heq]
      exact ⟨d', rfl, hafter.keeps hkeeps (fun s hs => hs) fun r hr => ⟨r, hr, rfl⟩⟩

theorem accepting_on (en : Engine) {e : Event} (claim : OwnerClaim) (htips : en.TipsKeyed)
    {stream : String} (hstream : streamOf e = .ok stream) {k : Key} (hk : e.cid.key? = some k)
    (d : Desk) :
    ∃ d', (en.accepting e claim).on d = (en.acceptance e claim d.heldAt, d') ∧
      d.After k (en.Folded en.tables e stream d.heldAt) (en.acceptance e claim d.heldAt) d' := by
  obtain ⟨d₁, hd₁, hafter⟩ := en.resolving_on claim htips hstream hk d
  have heq : en.acceptance e claim d.heldAt =
      en.resolution e stream claim d.heldAt >>= fun p => en.settlement e p.1 p.2 := by
    simp [acceptance, hstream]
  unfold accepting
  rw [heq]
  cases hres : en.resolution e stream claim d.heldAt with
  | error f =>
      rw [hres] at hd₁ hafter
      refine ⟨d₁, ?_, ?_⟩
      · rw [Work.on_bind_error hd₁]
        rfl
      · exact hafter.keeps (.refl d₁) (fun s hs => hs) (by simp)
  | ok p =>
      obtain ⟨r, t⟩ := p
      rw [hres] at hd₁ hafter
      obtain ⟨d', hd', hrecent⟩ := (en.settling_isPlain hstream r t).on_eq d₁
      refine ⟨d', ?_, ?_⟩
      · rw [Work.on_bind_ok hd₁]
        exact hd'
      · refine hafter.keeps (Desk.keeps_of_recent_eq hrecent) (fun s hs => hs) ?_
        intro p hp
        exact ⟨(r, t), rfl, (settlement_receipt hp).1.symm⟩

/-- The engine behind a transaction: with a desk, and with new holdings if it succeeded. -/
def behind {α : Type} (en : Engine) (d : Desk) (res : Except Failure (α × Holdings)) : Engine :=
  match res with
  | .ok (_, h) => { en with desk := d }.withHoldings h
  | .error _ => { en with desk := d }

theorem commit_eq {α : Type} {en : Engine} {w : Work (α × Holdings)}
    {res : Except Failure (α × Holdings)} {d : Desk} (h : w.on en.desk = (res, d)) :
    en.commit w = (res.map (·.1), en.behind d res) := by
  unfold commit
  have hrun : (w.run).run en.desk = (res, d) := h
  rw [hrun]
  cases res <;> rfl

/-- An event that is not admitted is refused, and nothing but the log changes. -/
theorem submit_of_error {en : Engine} {e : Event} {f : Failure} (h : en.admission e = .error f)
    (claim : OwnerClaim) :
    ∃ d, en.submit e claim = (.error f, { en with desk := d }) ∧ d.recent = en.desk.recent := by
  obtain ⟨d, hd, hrecent⟩ := (en.admitting_isPlain e).on_eq en.desk
  rw [h] at hd
  exact ⟨d, commit_eq (Work.on_bind_error hd), hrecent⟩

/-- An event that is admitted is answered as by an engine that has nothing left to check. -/
theorem submit_of_ok {en : Engine} {e e' : Event} (h : en.admission e = .ok e')
    (claim : OwnerClaim) :
    ∃ d, en.submit e claim = Engine.commit { en with desk := d }
        (Engine.accepting { en with desk := d } e claim) ∧ d.recent = en.desk.recent := by
  obtain ⟨rfl, -⟩ := admission_eq_ok h
  obtain ⟨d, hd, hrecent⟩ := (en.admitting_isPlain e').on_eq en.desk
  rw [h] at hd
  refine ⟨d, ?_, hrecent⟩
  have hrun : ((en.submitting e' claim).run).run en.desk =
      ((en.accepting e' claim).run).run d := Work.on_bind_ok hd
  unfold submit commit
  rw [hrun]
  rfl

end Engine

end ChainFold
