import ChainFold.Proofs.Engine.Provenance
import ChainFold.Proofs.Store.Staging
import ChainFold.Store.Call

/-!
# Rejection is atomic

A submission is carried out write by write: each write goes into the open transaction
when it is made, and still stands when a later step fails.  At the end the transaction is
committed or undone; what has been archived stays where it is.  This comes to the same
answer, the same tables and the same archive as the submission as a whole.
-/

namespace ChainFold

namespace Session

/-- The tables when a transaction is undone: those beneath the stage, or those from before it. -/
def undo (x : Session) (before : Tables) : Tables :=
  match x with
  | .staged s => s.base
  | .direct _ _ => before

/-- An open transaction stands for the tables that its commit would leave. -/
def Stands (x : Session) (b : Backend) (t : Tables) : Prop :=
  t.StreamsNamed ∧
    match x with
    | .staged s => b = .memory ∧ s.publish = t
    | .direct b' t' => b' = b ∧ t' = t

variable {x : Session} {b : Backend} {t : Tables}

theorem stands_begin (hn : t.StreamsNamed) : (begin b t).Stands b t := by
  refine ⟨hn, ?_⟩
  cases b with
  | memory => exact ⟨rfl, Staged.publish_begin t⟩
  | sqlite | duckdb => exact ⟨rfl, rfl⟩

theorem undo_begin (b : Backend) (t : Tables) : (begin b t).undo t = t := by
  cases b <;> rfl

theorem commit_of_stands (h : x.Stands b t) : x.commit = t := by
  cases x with
  | staged s => exact h.2.2
  | direct b' t' => exact h.2.2

/-- What a call comes to in an open transaction, given what it comes to on tables. -/
structure Comes (x : Session) (b : Backend) (c : Call) (r : Except Failure (Answer × Tables)) :
    Prop where
  error : ∀ f, r = .error f → x.call c = .error f
  ok : ∀ a t', r = .ok (a, t') → t'.StreamsNamed →
    ∃ x', x.call c = .ok (a, x') ∧ x'.Stands b t' ∧ ∀ before, x'.undo before = x.undo before

/-- A call that the stage follows comes in a transaction to what it comes to on the tables. -/
theorem comes_of_stands (hx : x.Stands b t) {c : Call}
    (hfollows : ∀ s : Staged, b = .memory → s.publish = t →
      s.Follows (s.call c) (t.call b c)) : x.Comes b c (t.call b c) := by
  obtain ⟨hn, hx⟩ := hx
  constructor
  · intro f hf
    cases x with
    | direct b' t' =>
        obtain ⟨rfl, rfl⟩ := hx
        rw [call, hf]
    | staged s =>
        have hstaged := (hfollows s hx.1 hx.2).eq_error hf
        rw [call, hstaged]
  · intro a t' hok hn'
    cases x with
    | direct b' t₀ =>
        obtain ⟨rfl, rfl⟩ := hx
        refine ⟨.direct b' t', ?_, ⟨hn', rfl, rfl⟩, fun _ => rfl⟩
        rw [call, hok]
    | staged s =>
        obtain ⟨s', hs', hpublish, hbase⟩ := (hfollows s hx.1 hx.2).exists_ok hok
        refine ⟨.staged s', ?_, ⟨hn', hx.1, hpublish⟩, fun _ => hbase⟩
        rw [call, hs']

end Session

/-- What a submission writes to. -/
structure Scene where
  session : Session
  archive : Archive

/-- A computation whose writes stand when it fails. -/
abbrev Live := ExceptT Failure (StateM Scene)

namespace Live

variable {α β : Type}

/-! ## Steps -/

/-- Run a computation: its outcome, and what it has written. -/
def on (m : Live α) (x : Scene) : Except Failure α × Scene := (m.run).run x

def ofExcept (r : Except Failure α) : Live α :=
  match r with
  | .ok a => pure a
  | .error f => throw f

/-- Make a call in the open transaction and pick its answer; one that is refused writes nothing. -/
def ask (c : Call) (pick : Answer → Option α) : Live α := do
  let x ← get
  match x.session.call c with
  | .ok (a, session) =>
    set { x with session := session }
    match pick a with
    | some a => pure a
    | none => throw (.defect .wrongKind)
  | .error f => throw f

def event? (cid : Json) : Live (Option Event) :=
  ask (.event? cid) fun | .event e => some e | _ => none

def stream? (id : Json) : Live (Option Stream) :=
  ask (.stream? id) fun | .stream s => some s | _ => none

/-- Make a call that says whether it has written. -/
def write (c : Call) : Live Bool := ask c fun | .flag b => some b | _ => none

def putFolder (f : Folder) : Live Unit := ask (.putFolder f) fun | .done => some () | _ => none

/-! ## A submission, write by write -/

def link (e : Event) : Live Linkage := do
  match ← event? e.cid with
  | some stored =>
    if stored.same e then pure .duplicate
    else throw (Linkage.broken e "cid collision with a stored event of different content")
  | none =>
    if e.isGenesis then pure .genesis
    else
      match ← event? e.prev with
      | none => throw (Linkage.broken e "unknown prev")
      | some parent =>
        if parent.genesis.looselySame e.genesis then pure .extension
        else throw (Linkage.broken e
          s!"genesis mismatch: prev belongs to {parent.genesis.display}")

def tipOf (id : Json) : Live Json := do
  match ← stream? id with
  | some s => pure s.tip
  | none => throw (.defect .noSuchPart)

def refresh (extract : Extractor) (id tip content : Json) : Live Unit := do
  let f ← ofExcept (Index.folderOf extract id tip content)
  putFolder f

/-- Write the folder of a tip that has moved to an event, or answer with the tip that stands. -/
def conclude (extract : Extractor) (id : Json) (e : Event) (content : Json) (moved : Bool) :
    Live Receipt := do
  if moved then
    refresh extract id e.cid content
    pure (Resolution.appliedReceipt id e)
  else
    let tip ← tipOf id
    pure (Resolution.conflictReceipt id e tip)

/-- Create a stream, or store its event beside the tip of the stream that is there. -/
def create (extract : Extractor) (e : Event) (id : Json) (owner : Uuid) : Live Receipt := do
  let s ← ofExcept (Fold.State.ofGenesis e)
  ofExcept (Resolution.checkHeader e s)
  let created ← write (.insertStream (Resolution.newStream id owner s))
  let _ ← write (.insertEvent e)
  conclude extract id e s.content created

/-- Store an event and move the tip to it if it follows the tip. -/
def advance (extract : Extractor) (e : Event) (row : Stream) (held : Held) : Live Receipt := do
  let _ ← write (.insertEvent e)
  if !e.prev.looselySame row.tip then pure (Resolution.conflictReceipt row.id e row.tip)
  else
    let s ← ofExcept ((Resolution.currentOf held row).advance e)
    let moved ← write (.swapTip row.id e.prev e.cid s.content)
    conclude extract row.id e s.content moved

def resolve (en : Engine) (e : Event) (id : Json) (claim : Engine.OwnerClaim) (held : Held) :
    Live Receipt := do
  match ← link e with
  | .genesis =>
    let owner ← ofExcept (Engine.ownerOf en.registry e claim)
    create en.extract e id owner
  | .duplicate =>
    match ← stream? id with
    | none => throw (.unknownStream id e.cid)
    | some row => pure ⟨id, e.cid, row.tip, .duplicate, none⟩
  | .extension =>
    match ← stream? id with
    | none => throw (.unknownStream id e.cid)
    | some row => advance en.extract e row held

/-- Archive an event under its cid, outside the transaction. -/
def put (e : Event) : Live Unit := do
  let bs ← ofExcept (Engine.envelopeOf e)
  let x ← get
  let (_, a) ← ofExcept (x.archive.put e.cid bs)
  set { x with archive := a }

def accept (en : Engine) (e : Event) (claim : Engine.OwnerClaim) (held : Held) : Live Receipt := do
  let id ← ofExcept (Engine.streamOf e)
  ofExcept en.checkOpen
  let r ← resolve en e id claim held
  put e
  pure r

/-- Submit an event write by write, and then commit the transaction or undo it. -/
def enact (en : Engine) (e : Event) (claim : Engine.OwnerClaim) :
    Except Failure Receipt × Engine.Holdings :=
  match en.admission e with
  | .error f => (.error f, en.holdings)
  | .ok e =>
    match (accept en e claim en.desk.heldAt).on ⟨.begin en.backend en.tables, en.archive⟩ with
    | (.ok r, x) => (.ok r, ⟨x.session.commit, x.archive⟩)
    | (.error f, x) => (.error f, ⟨x.session.undo en.tables, x.archive⟩)

/-! ## Running steps -/

variable {x : Scene}

theorem on_ofExcept (r : Except Failure α) : (ofExcept r).on x = (r, x) := by
  cases r <;> rfl

theorem on_bind (m : Live α) (k : α → Live β) :
    (m >>= k).on x =
      match m.on x with
      | (.ok a, x') => (k a).on x'
      | (.error f, x') => (.error f, x') := by
  show ((m >>= k).run).run x = _
  simp only [on, ExceptT.run_bind, StateT.run_bind]
  cases (m.run).run x with
  | mk r x' => cases r <;> rfl

theorem on_get_bind (k : Scene → Live β) : (get >>= k).on x = (k x).on x := rfl

theorem on_ask {c : Call} {pick : Answer → Option α} {a : α} {answer : Answer} {session : Session}
    (h : x.session.call c = .ok (answer, session)) (hpick : pick answer = some a) :
    (ask c pick).on x = (.ok a, { x with session := session }) := by
  rw [ask, on_get_bind, h]
  simp only [hpick]
  rfl

theorem on_ask_error {c : Call} {pick : Answer → Option α} {f : Failure}
    (h : x.session.call c = .error f) : (ask c pick).on x = (.error f, x) := by
  rw [ask, on_get_bind, h]
  rfl

/-! ## Steps and tables -/

/-- What a computation leaves of a scene when it comes to what changing tables comes to. -/
structure Leaves (b : Backend) (m : Live α) (x x' : Scene) (res : Except Failure (α × Tables)) :
    Prop where
  run : m.on x = (res.map (·.1), x')
  stands : ∀ p, res = .ok p → x'.session.Stands b p.2
  undo : ∀ before, x'.session.undo before = x.session.undo before
  archive_eq : x'.archive = x.archive

/-- A computation does in an open transaction what another one does to the tables. -/
def Tracks (b : Backend) (m : Live α) (w : Tables → Except Failure (α × Tables)) : Prop :=
  ∀ x t, x.session.Stands b t → ∃ x', Leaves b m x x' (w t)

/-- A computation in an open transaction reads what another one reads of the tables. -/
abbrev Looks (b : Backend) (m : Live α) (r : Tables → Except Failure α) : Prop :=
  Tracks b m fun t => (fun a => (a, t)) <$> r t

variable {b : Backend} {m : Live α} {k : α → Live β}

theorem looks_ofExcept (r : Except Failure α) : Looks b (ofExcept r) fun _ => r := by
  intro x t hx
  refine ⟨x, ?_, ?_, fun _ => rfl, rfl⟩
  · rw [on_ofExcept]
    cases r <;> rfl
  · intro p hp
    obtain ⟨a, -, rfl⟩ := map_eq_ok.mp hp
    exact hx

theorem looks_pure (a : α) : Looks b (pure a) fun _ => .ok a := looks_ofExcept (.ok a)

theorem looks_throw (f : Failure) : Looks b (throw f : Live α) fun _ => .error f :=
  looks_ofExcept (.error f)

theorem Tracks.congr {w w' : Tables → Except Failure (α × Tables)} (h : Tracks b m w)
    (heq : ∀ t, w' t = w t) : Tracks b m w' := by
  obtain rfl : w' = w := funext heq
  exact h

/-- One computation after another tracks one change of the tables after another. -/
theorem Tracks.bind {w : Tables → Except Failure (α × Tables)}
    {g : α × Tables → Except Failure (β × Tables)} (h : Tracks b m w)
    (hk : ∀ t p, t.StreamsNamed → w t = .ok p → Tracks b (k p.1) fun t => g (p.1, t)) :
    Tracks b (m >>= k) fun t => w t >>= g := by
  intro x t hx
  obtain ⟨x₁, hrun, hstands, hundo, harchive⟩ := h x t hx
  show ∃ x', Leaves b (m >>= k) x x' (w t >>= g)
  cases hw : w t with
  | error f =>
      have hfailed : (m >>= k).on x = (.error f, x₁) := by
        rw [on_bind, hrun, hw]
        rfl
      refine ⟨x₁, hfailed, ?_, hundo, harchive⟩
      intro p hp
      cases hp
  | ok p =>
      obtain ⟨x₂, hrun₂, hstands₂, hundo₂, harchive₂⟩ := hk t p hx.1 hw x₁ p.2 (hstands p hw)
      have hdone : (m >>= k).on x = ((g p).map (·.1), x₂) := by
        rw [on_bind, hrun, hw]
        exact hrun₂
      exact ⟨x₂, hdone, hstands₂, fun before => (hundo₂ before).trans (hundo before),
        harchive₂.trans harchive⟩

/-- What is read decides what is done next to the tables that it was read from. -/
theorem Tracks.look_bind {r : Tables → Except Failure α}
    {g : α → Tables → Except Failure (β × Tables)} (h : Looks b m r)
    (hk : ∀ t a, t.StreamsNamed → r t = .ok a → Tracks b (k a) (g a)) :
    Tracks b (m >>= k) fun t => r t >>= fun a => g a t := by
  have hbind := Tracks.bind (g := fun p => g p.1 p.2) h fun t p hn hp => by
    obtain ⟨a, ha, rfl⟩ := map_eq_ok.mp hp
    exact hk t a hn ha
  refine hbind.congr fun t => ?_
  cases r t <;> rfl

theorem Looks.bind {r : Tables → Except Failure α} {g : α → Tables → Except Failure β}
    (h : Looks b m r) (hk : ∀ a, Looks b (k a) (g a)) :
    Looks b (m >>= k) fun t => r t >>= fun a => g a t := by
  refine (Tracks.look_bind h fun _ a _ _ => hk a).congr fun t => ?_
  dsimp only
  cases r t <;> rfl

/-! ## Calls -/

/-- A call tracks an operation that the stage follows and that keeps streams under their ids. -/
theorem tracks_ask {c : Call} {pick : Answer → Option α} {w : Tables → Except Failure (α × Tables)}
    (make : α → Answer) (r : Staged → Except Failure (α × Staged))
    (hpick : ∀ a, pick (make a) = some a)
    (hdirect : ∀ t : Tables, t.call b c = (fun p => (make p.1, p.2)) <$> w t)
    (hstaged : ∀ s : Staged, s.call c = (fun p => (make p.1, p.2)) <$> r s)
    (hfollows : ∀ s : Staged, b = .memory → s.publish.StreamsNamed → s.Follows (r s) (w s.publish))
    (hnamed : ∀ t p, t.StreamsNamed → w t = .ok p → p.2.StreamsNamed) :
    Tracks b (ask c pick) w := by
  intro x t hx
  have hcomes : x.session.Comes b c ((fun p => (make p.1, p.2)) <$> w t) := by
    rw [← hdirect]
    refine Session.comes_of_stands hx fun s hb hpublish => ?_
    rw [hdirect, hstaged, ← hpublish]
    exact (hfollows s hb (hpublish ▸ hx.1)).answer make
  cases hw : w t with
  | error f =>
      have hcall : x.session.call c = .error f := hcomes.error f (by rw [hw]; rfl)
      refine ⟨_, on_ask_error hcall, ?_, fun _ => rfl, rfl⟩
      intro p hp
      cases hp
  | ok q =>
      obtain ⟨session, hcall, hstands, hundo⟩ :=
        hcomes.ok (make q.1) q.2 (by rw [hw]; rfl) (hnamed t q hx.1 hw)
      refine ⟨_, on_ask hcall (hpick q.1), ?_, hundo, rfl⟩
      intro p hp
      obtain rfl := Except.ok.inj hp
      exact hstands

/-- A call that only reads reads what the same operation reads of the tables. -/
theorem looks_ask {c : Call} {pick : Answer → Option α} {look : Tables → Except Failure α}
    (make : α → Answer) (peek : Staged → Except Failure α)
    (hpick : ∀ a, pick (make a) = some a)
    (hdirect : ∀ t : Tables, t.call b c = (fun a => (make a, t)) <$> look t)
    (hstaged : ∀ s : Staged, s.call c = (fun a => (make a, s)) <$> peek s)
    (hpeek : ∀ s : Staged, b = .memory → peek s = look s.publish) :
    Looks b (ask c pick) look := by
  refine tracks_ask make (fun s => (fun a => (a, s)) <$> peek s) hpick ?_ ?_ ?_ ?_
  · intro t
    rw [hdirect]
    cases look t <;> rfl
  · intro s
    rw [hstaged]
    cases peek s <;> rfl
  · intro s hb _
    rw [← hpeek s hb]
    cases peek s with
    | error f => exact .error f
    | ok a => exact .ok rfl rfl
  · intro t p hn hp
    obtain ⟨a, -, rfl⟩ := map_eq_ok.mp hp
    exact hn

theorem looks_event (cid : Json) : Looks b (event? cid) fun t => t.event? b cid :=
  looks_ask .event (fun s => s.event? cid) (fun _ => rfl) (fun _ => rfl)
    (fun _ => rfl) fun s hb => hb ▸ s.event?_publish cid

theorem looks_stream (id : Json) : Looks b (stream? id) fun t => t.stream? b id :=
  looks_ask .stream (fun s => s.stream? id) (fun _ => rfl) (fun _ => rfl)
    (fun _ => rfl) fun s hb => hb ▸ s.stream?_publish id

theorem tracks_insertEvent (e : Event) :
    Tracks b (write (.insertEvent e)) fun t => t.insertEvent b e :=
  tracks_ask .flag (fun s => s.insertEvent e) (fun _ => rfl) (fun _ => rfl)
    (fun _ => rfl) (fun s hb _ => hb ▸ s.insertEvent_follows e)
    fun _ _ hn h => Tables.insertEvent_streamsNamed hn h

theorem tracks_insertStream (id : String) {row : Stream} (hid : row.id = .str id) :
    Tracks b (write (.insertStream row)) fun t => t.insertStream b row :=
  tracks_ask .flag (fun s => s.insertStream row) (fun _ => rfl) (fun _ => rfl)
    (fun _ => rfl) (fun s hb _ => hb ▸ s.insertStream_follows row)
    fun _ _ hn h => Tables.insertStream_streamsNamed hn hid h

theorem tracks_swapTip (id : String) (expected new content : Json) :
    Tracks b (write (.swapTip (.str id) expected new content))
      fun t => t.swapTip b (.str id) expected new content :=
  tracks_ask .flag (fun s => s.swapTip (.str id) expected new content)
    (fun _ => rfl) (fun _ => rfl) (fun _ => rfl)
    (fun s hb hn => hb ▸ s.swapTip_follows hn id expected new content)
    fun _ _ hn h => Tables.swapTip_streamsNamed hn h

theorem tracks_putFolder (f : Folder) :
    Tracks b (putFolder f) fun t => (fun t' => ((), t')) <$> t.putFolder b f := by
  refine tracks_ask (fun _ => .done) (fun s => (fun s' => ((), s')) <$> s.putFolder f)
    (fun _ => rfl) ?_ ?_ ?_ ?_
  · intro t
    show (fun t => (Answer.done, t)) <$> t.putFolder b f = _
    cases t.putFolder b f <;> rfl
  · intro s
    show (fun s => (Answer.done, s)) <$> s.putFolder f = _
    cases s.putFolder f <;> rfl
  · intro s hb _
    exact hb ▸ s.putFolder_follows f
  · intro t p hn hp
    obtain ⟨t', ht', rfl⟩ := map_eq_ok.mp hp
    exact Tables.putFolder_streamsNamed hn ht'

/-! ## The submission -/

theorem looks_link (e : Event) : Looks b (link e) fun t => Linkage.ofEvent b t e := by
  refine (looks_event e.cid).bind fun stored => ?_
  cases stored with
  | some stored =>
      dsimp only
      split
      · exact looks_pure _
      · exact looks_throw _
  | none =>
      unfold Linkage.ofNew
      dsimp only
      split
      · exact looks_pure _
      · refine (looks_event e.prev).bind fun parent => ?_
        cases parent with
        | none => exact looks_throw _
        | some parent =>
            dsimp only
            split
            · exact looks_pure _
            · exact looks_throw _

theorem looks_tipOf (id : Json) : Looks b (tipOf id) fun t => Resolution.tipOf b t id := by
  refine (looks_stream id).bind fun row => ?_
  cases row with
  | none => exact looks_throw _
  | some row => exact looks_pure _

theorem tracks_refresh (extract : Extractor) (id tip content : Json) :
    Tracks b (refresh extract id tip content)
      fun t => (fun t' => ((), t')) <$> Index.refreshed b extract t id tip content := by
  refine Tracks.congr (Tracks.look_bind (looks_ofExcept (Index.folderOf extract id tip content))
    fun _ f _ _ => tracks_putFolder f) fun t => ?_
  unfold Index.refreshed
  cases Index.folderOf extract id tip content <;> rfl

theorem tracks_conclude (extract : Extractor) (id : Json) (e : Event) (content : Json)
    (moved : Bool) :
    Tracks b (conclude extract id e content moved) (fun t =>
      if moved then do
        let t ← Index.refreshed b extract t id e.cid content
        pure (Resolution.appliedReceipt id e, t)
      else do
        let tip ← Resolution.tipOf b t id
        pure (Resolution.conflictReceipt id e tip, t)) := by
  cases moved with
  | true =>
      refine Tracks.congr (Tracks.bind (g := fun p => .ok (Resolution.appliedReceipt id e, p.2))
        (tracks_refresh extract id e.cid content) fun _ _ _ _ => looks_pure _) fun t => ?_
      simp only [if_true]
      cases Index.refreshed b extract t id e.cid content <;> rfl
  | false =>
      exact Tracks.look_bind (looks_tipOf id) fun _ tip _ _ => looks_pure _

theorem tracks_create (extract : Extractor) (e : Event) (id : String) (owner : Uuid) :
    Tracks b (create extract e (.str id) owner)
      fun t => Resolution.creation b extract t e (.str id) owner := by
  refine Tracks.look_bind (looks_ofExcept _) fun _ s _ _ => ?_
  refine Tracks.look_bind (looks_ofExcept _) fun _ _ _ _ => ?_
  refine Tracks.bind (tracks_insertStream id rfl) ?_
  rintro _ ⟨created, t⟩ - -
  refine Tracks.bind (tracks_insertEvent e) ?_
  rintro _ ⟨stored, t⟩ - -
  exact tracks_conclude extract (.str id) e s.content created

theorem tracks_advance (extract : Extractor) (e : Event) {row : Stream} {id : String}
    (hid : row.id = .str id) (held : Held) :
    Tracks b (advance extract e row held)
      fun t => Resolution.advancement b extract t e row held := by
  refine Tracks.bind (tracks_insertEvent e) ?_
  rintro _ ⟨stored, t⟩ - -
  dsimp only
  split
  · exact looks_pure _
  · refine Tracks.look_bind (looks_ofExcept _) fun _ s _ _ => ?_
    unfold Resolution.moved
    rw [hid]
    refine Tracks.bind (tracks_swapTip id e.prev e.cid s.content) ?_
    rintro _ ⟨moved, t⟩ - -
    exact tracks_conclude extract (.str id) e s.content moved

theorem tracks_resolve (en : Engine) (e : Event) (id : String) (claim : Engine.OwnerClaim)
    (held : Held) :
    Tracks en.backend (resolve en e (.str id) claim held)
      fun t => en.ruling t e (.str id) claim held := by
  refine Tracks.look_bind (looks_link e) fun _ linkage _ _ => ?_
  cases linkage with
  | genesis =>
      exact Tracks.look_bind (looks_ofExcept _) fun _ owner _ _ =>
        tracks_create en.extract e id owner
  | duplicate =>
      refine Tracks.look_bind (looks_stream (.str id)) fun _ row _ _ => ?_
      cases row with
      | none => exact looks_throw _
      | some row => exact looks_pure _
  | extension =>
      refine Tracks.look_bind (looks_stream (.str id)) fun t row hn hrow => ?_
      cases row with
      | none => exact looks_throw _
      | some row => exact tracks_advance en.extract e (hn.id_of_stream? hrow) held

theorem on_put (e : Event) :
    (put e).on x =
      match (do x.archive.put e.cid (← Engine.envelopeOf e)) with
      | .ok p => (.ok (), { x with archive := p.2 })
      | .error f => (.error f, x) := by
  rw [put, on_bind, on_ofExcept]
  cases Engine.envelopeOf e with
  | error f => rfl
  | ok bs =>
      dsimp only [ok_bind]
      rw [on_get_bind, on_bind, on_ofExcept]
      cases x.archive.put e.cid bs <;> rfl

/-- A scene at the end of a submission: its commit keeps what comes of it, or it is undone. -/
structure Ends (en : Engine) (res : Except Failure (Receipt × Engine.Holdings)) (x : Scene) :
    Prop where
  kept : ∀ p, res = .ok p → x.session.commit = p.2.tables ∧ x.archive = p.2.archive
  undone : ∀ f, res = .error f → x.session.undo en.tables = en.tables ∧ x.archive = en.archive

variable {en : Engine}

theorem Ends.error (hundo : x.session.undo en.tables = en.tables)
    (harchive : x.archive = en.archive) (f : Failure) : Ends en (.error f) x := by
  refine ⟨?_, fun _ _ => ⟨hundo, harchive⟩⟩
  intro p hp
  cases hp

theorem Ends.ok {p : Receipt × Engine.Holdings} (hcommit : x.session.commit = p.2.tables)
    (harchive : x.archive = p.2.archive) : Ends en (.ok p) x := by
  refine ⟨?_, ?_⟩
  · intro p' hp
    obtain rfl := Except.ok.inj hp
    exact ⟨hcommit, harchive⟩
  · intro f hf
    cases hf

/-- The event is archived last: if that fails, the archive is still as it was. -/
theorem exists_settle {e : Event} {r : Receipt} {t : Tables}
    (hundo : x.session.undo en.tables = en.tables) (hcommit : x.session.commit = t)
    (harchive : x.archive = en.archive) :
    ∃ x', (do put e; pure r : Live Receipt).on x = ((en.settlement e r t).map (·.1), x') ∧
      Ends en (en.settlement e r t) x' := by
  rw [on_bind, on_put, harchive]
  unfold Engine.settlement
  cases Engine.envelopeOf e with
  | error f => exact ⟨x, rfl, .error hundo harchive f⟩
  | ok bs =>
      dsimp only [ok_bind]
      cases en.archive.put e.cid bs with
      | error f => exact ⟨x, rfl, .error hundo harchive f⟩
      | ok a => exact ⟨{ x with archive := a.2 }, rfl, .ok hcommit rfl⟩

/-- Write by write, a checked event comes to what it comes to as a whole. -/
theorem exists_accept (en : Engine) {e : Event} {id : String} (claim : Engine.OwnerClaim)
    (held : Held) (hn : en.tables.StreamsNamed) (hstream : Engine.streamOf e = .ok id) :
    ∃ x, (accept en e claim held).on ⟨.begin en.backend en.tables, en.archive⟩ =
        ((en.acceptance e claim held).map (·.1), x) ∧
      Ends en (en.acceptance e claim held) x := by
  have hbegin := Session.undo_begin en.backend en.tables
  unfold accept Engine.acceptance Engine.resolution
  rw [hstream, on_bind, on_ofExcept]
  dsimp only [ok_bind]
  rw [on_bind, on_ofExcept]
  cases en.checkOpen with
  | error f => exact ⟨_, rfl, .error hbegin rfl f⟩
  | ok u =>
      obtain ⟨x, hrun, hstands, hundo, harchive⟩ := tracks_resolve en e id claim held
        ⟨.begin en.backend en.tables, en.archive⟩ en.tables (Session.stands_begin hn)
      have hundone : x.session.undo en.tables = en.tables := (hundo en.tables).trans hbegin
      dsimp only at hrun hstands
      dsimp only [ok_bind]
      rw [on_bind, hrun]
      cases hruling : en.ruling en.tables e (.str id) claim held with
      | error f => exact ⟨x, rfl, .error hundone harchive f⟩
      | ok p =>
          have hcommit := Session.commit_of_stands (hstands p hruling)
          exact exists_settle hundone hcommit harchive

end Live

namespace Engine

variable {en : Engine}

/-- A steady engine answers and keeps what comes of a submission write by write. -/
theorem Steady.enact_eq (hst : en.Steady) (e : Event) (claim : OwnerClaim) :
    Live.enact en e claim = ((en.submit e claim).1, (en.submit e claim).2.holdings) := by
  unfold Live.enact
  cases hst.submits e claim with
  | refused f d hadm hd heq =>
      rw [hadm, heq]
      rfl
  | settled c g d hadm hwf hc hg hsettles heq =>
      obtain ⟨x, hrun, hends⟩ := Live.exists_accept en claim en.desk.heldAt
        hst.sound.streamsNamed (hwf.streamOf_eq hg)
      rw [hadm, heq]
      dsimp only
      rw [hrun]
      cases hres : en.acceptance e claim en.desk.heldAt with
      | error f =>
          obtain ⟨hundo, harchive⟩ := hends.undone f hres
          dsimp only [Except.map]
          rw [hundo, harchive]
          rfl
      | ok p =>
          obtain ⟨hcommit, harchive⟩ := hends.kept p hres
          dsimp only [Except.map]
          rw [hcommit, harchive]
          rfl

/-- A submission leaves no trace in tables and archive unless it is answered. -/
structure Atomic (en : Engine) (e : Event) (claim : OwnerClaim) : Prop where
  /-- Its writes, one by one, and the commit or undoing at their end come to the whole. -/
  enact_eq : Live.enact en e claim = ((en.submit e claim).1, (en.submit e claim).2.holdings)
  /-- Whichever step fails, what has been written until then is undone. -/
  undone : ∀ f, (Live.enact en e claim).1 = .error f → (Live.enact en e claim).2 = en.holdings
  /-- A failed submission leaves the tables and the archive of the engine. -/
  untouched : ∀ f, (en.submit e claim).1 = .error f →
    (en.submit e claim).2.tables = en.tables ∧ (en.submit e claim).2.archive = en.archive

theorem holdings_of_submit_error {e : Event} {claim : OwnerClaim} {f : Failure}
    (h : (en.submit e claim).1 = .error f) : (en.submit e claim).2.holdings = en.holdings := by
  unfold submit commit at h ⊢
  cases hrun : ((en.submitting e claim).run).run en.desk with
  | mk res d =>
      rw [hrun] at h
      cases res with
      | error f' => rfl
      | ok p => cases h

/--
Whatever has been submitted and rebuilt since the store was empty: an event that is
refused, at whatever step, leaves all tables and the archive as they were.
-/
theorem Fresh.submission_atomic (h : en.Fresh) (ops : List Operation) (e : Event)
    (claim : OwnerClaim) : (en.after ops).Atomic e claim := by
  have henact := (h.steady.after ops).enact_eq e claim
  refine ⟨henact, ?_, ?_⟩
  · intro f hf
    rw [henact] at hf ⊢
    exact holdings_of_submit_error hf
  · intro f hf
    have hholdings := holdings_of_submit_error hf
    exact ⟨congrArg Holdings.tables hholdings, congrArg Holdings.archive hholdings⟩

/--
An update whose patch cannot be applied is refused when its event has already been
written to the open transaction, which a commit would have left in the tables.
-/
theorem submission_atomic_sample :
    let en := (sampleEngine .memory none).after [.submit sampleGenesis sampleOwner]
    let e := sampleEvent "second" (.str "first")
      (.arr [.obj [("op", .str "remove"), ("path", .str "/m")]])
    let x : Scene := ((Live.accept en e .none en.desk.heldAt).on
      ⟨.begin en.backend en.tables, en.archive⟩).2
    en.Atomic e .none ∧ (en.submit e .none).1.isOk = false ∧
      en.tables.events.has (.text "second") = false ∧
      x.session.commit.events.has (.text "second") = true := by
  intro en e x
  have hfresh : (sampleEngine .memory none).Fresh := by
    refine ⟨rfl, ?_⟩
    intro recent hrecent
    cases hrecent
  exact ⟨hfresh.submission_atomic _ _ _, by decide +kernel⟩

end Engine

end ChainFold
