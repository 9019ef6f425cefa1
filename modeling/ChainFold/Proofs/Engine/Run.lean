import ChainFold.Engine.Lifecycle
import ChainFold.Engine.Reading
import ChainFold.Proofs.Engine.Steadiness

/-!
# Runs of an engine

The calls of an engine that submit, rebuild, project and read, one after another.
Calls that read leave the tables, and so does a rebuild, which writes what is there;
an engine that is steady at the start of a run is steady all along.
-/

namespace ChainFold.Engine

inductive Operation where
  | submit (e : Event) (claim : OwnerClaim)
  | rebuild (id : Json)
  | branch (id tip : Json)
  | getStream (id : Json)
  | getFolder (id : Json)
  | getEvent (cid : Json)
  | loadEvents (id tip : Json)
  | listStreams (f : Filter)
  | findByContent (model key value : Json)
  | queryBySignal (p : Signal.Predicate)
  | signals
  | register (m : Model)

inductive Response where
  | receipt (r : Receipt)
  | stream (s : Stream)
  | state (s : Fold.State)
  | folder (f : Folder)
  | event (e : Event)
  | events (chain : List Event)
  | streams (rows : List Stream)
  | first (row : Option Stream)
  | ids (ids : List Json)
  | folders (fs : List Folder)
  | done

def responding {α : Type} (make : α → Response) (p : Except Failure α × Engine) :
    Except Failure Response × Engine :=
  (p.1.map make, p.2)

def perform (en : Engine) : Operation → Except Failure Response × Engine
  | .submit e claim => responding .receipt (en.submit e claim)
  | .rebuild id => responding .stream (en.rebuild id)
  | .branch id tip => responding .state (en.branch id tip)
  | .getStream id => responding .stream (en.getStream id)
  | .getFolder id => responding .folder (en.getFolder id)
  | .getEvent cid => responding .event (en.getEvent cid)
  | .loadEvents id tip => responding .events (en.loadEvents id tip)
  | .listStreams f => responding .streams (en.listStreams f)
  | .findByContent model key value => responding .first (en.findByContent model key value)
  | .queryBySignal p => responding .ids (en.queryBySignal p)
  | .signals => responding .folders en.signals
  | .register m => (.ok .done, { en with registry := en.registry.register m })

def after (en : Engine) : List Operation → Engine
  | [] => en
  | op :: rest => after (en.perform op).2 rest

/-! ## Calls that read -/

theorem observe_of_isPlain {α : Type} {w : Work α} {r : Except Failure α} (h : w.IsPlain r)
    (en : Engine) : ∃ d, en.observe w = (r, { en with desk := d }) ∧
      d.recent = en.desk.recent := by
  obtain ⟨d, hd, hrecent⟩ := h.on_eq en.desk
  refine ⟨d, ?_, hrecent⟩
  have hrun : (w.run).run en.desk = (r, d) := hd
  unfold observe
  rw [hrun]

theorem reading_isPlain {α : Type} {en : Engine} {body : Tables → Work α}
    {r : Tables → Except Failure α} (h : (body en.tables).IsPlain (r en.tables)) :
    (en.reading body).IsPlain (do en.checkOpen; r en.tables) :=
  (Work.IsPlain.ofExcept _).bind fun _ _ => h

/-- A call that reads has one outcome whatever is held, and holds nothing new. -/
def Reads (en : Engine) (op : Operation) : Prop :=
  ∃ r, ∀ d, ∃ d', ({ en with desk := d } : Engine).perform op = (r, { en with desk := d' }) ∧
    d'.recent = d.recent

theorem reads_of_isPlain {α : Type} {en : Engine} {op : Operation} (make : α → Response)
    {w : Work α} {r : Except Failure α} (hw : w.IsPlain r)
    (hop : ∀ d, ({ en with desk := d } : Engine).perform op =
      responding make (Engine.observe { en with desk := d } w)) : en.Reads op := by
  refine ⟨r.map make, fun d => ?_⟩
  obtain ⟨d', hd', hrecent⟩ := observe_of_isPlain hw { en with desk := d }
  refine ⟨d', ?_, hrecent⟩
  rw [hop, hd']
  rfl

/-- The event that is found under a cid, in the tables or else in the archive. -/
def eventFound (en : Engine) (cid : Json) : Except Failure Event := do
  en.checkOpen
  match ← en.tables.event? en.backend cid with
  | some e => pure e
  | none =>
    match ← en.archive.getEvent cid with
    | none => throw (.eventNotFound cid .null)
    | some e => pure e

theorem readEvent_isPlain (en : Engine) (cid : Json) :
    (en.readEvent cid).IsPlain (en.eventFound cid) := by
  have hnested : en.eventFound cid = (do
      (do en.checkOpen; en.tables.event? en.backend cid) >>= fun found? => match found? with
        | some e => pure e
        | none => do
          match ← en.archive.getEvent cid with
          | none => throw (.eventNotFound cid .null)
          | some e => pure e) := by
    unfold eventFound
    cases en.checkOpen <;> rfl
  rw [hnested]
  refine (reading_isPlain (r := fun t => t.event? en.backend cid) (.ofExcept _)).bind ?_
  intro found? _
  cases found? with
  | some e => exact .pure e
  | none =>
      refine (Work.IsPlain.ofExcept _).bind fun archived _ => ?_
      cases archived with
      | none => exact .throw _
      | some e => exact (Work.IsPlain.pure e).note_bind

theorem getEvent_eq (en : Engine) (cid : Json) : (en.getEvent cid).1 = en.eventFound cid := by
  obtain ⟨d, hd, -⟩ := observe_of_isPlain (en.readEvent_isPlain cid) en
  rw [getEvent, hd]

/-- The chain that is loaded for a stream up to a tip, or why none is. -/
def loaded (en : Engine) (id tip : Json) : Except Failure (List Event) := do
  checkShape id
  en.checkOpen
  chainOf en.backend en.tables id tip

theorem readChain_isPlain (en : Engine) (id tip : Json) :
    (en.readChain id tip).IsPlain (en.loaded id tip) :=
  (Work.IsPlain.ofExcept _).bind fun _ _ =>
    reading_isPlain (r := fun t => chainOf en.backend t id tip) (.ofExcept _)

/-- The stream that is found under an id, or why none is. -/
def streamFound (en : Engine) (id : Json) : Except Failure Stream := do
  checkShape id
  en.checkOpen
  found id (← en.tables.stream? en.backend id)

theorem readStream_isPlain (en : Engine) (id : Json) :
    (en.readStream id).IsPlain (en.streamFound id) :=
  (Work.IsPlain.ofExcept _).bind fun _ _ =>
    reading_isPlain (r := fun t => do found id (← t.stream? en.backend id)) (.ofExcept _)

theorem getStream_eq (en : Engine) (id : Json) : (en.getStream id).1 = en.streamFound id := by
  obtain ⟨d, hd, -⟩ := observe_of_isPlain (en.readStream_isPlain id) en
  rw [getStream, hd]

theorem reads_getStream (en : Engine) (id : Json) : en.Reads (.getStream id) :=
  reads_of_isPlain .stream (en.readStream_isPlain id) fun _ => rfl

theorem reads_getFolder (en : Engine) (id : Json) : en.Reads (.getFolder id) :=
  reads_of_isPlain .folder (w := en.readFolder id) ((Work.IsPlain.ofExcept _).bind fun _ _ =>
    reading_isPlain (r := fun t => do found id (← t.folder? en.backend id)) (.ofExcept _))
    fun _ => rfl

theorem reads_getEvent (en : Engine) (cid : Json) : en.Reads (.getEvent cid) :=
  reads_of_isPlain .event (en.readEvent_isPlain cid) fun _ => rfl

theorem reads_loadEvents (en : Engine) (id tip : Json) : en.Reads (.loadEvents id tip) :=
  reads_of_isPlain .events (en.readChain_isPlain id tip) fun _ => rfl

theorem reads_listStreams (en : Engine) (f : Filter) : en.Reads (.listStreams f) :=
  reads_of_isPlain .streams (w := en.readStreams f)
    (reading_isPlain (r := fun t => t.listStreams en.backend f) (.ofExcept _)) fun _ => rfl

theorem reads_findByContent (en : Engine) (model key value : Json) :
    en.Reads (.findByContent model key value) :=
  reads_of_isPlain .first (w := en.readByContent model key value)
    (reading_isPlain (r := fun t => t.findStream en.backend model key value) (.ofExcept _))
    fun _ => rfl

theorem reads_queryBySignal (en : Engine) (p : Signal.Predicate) : en.Reads (.queryBySignal p) :=
  reads_of_isPlain .ids (w := en.readBySignal p)
    (reading_isPlain (r := fun t => Index.query t p) (.ofExcept _)) fun _ => rfl

theorem reads_signals (en : Engine) : en.Reads .signals :=
  reads_of_isPlain .folders (w := en.readSignals)
    (reading_isPlain (r := fun t => t.signalFolders) (.ofExcept _)) fun _ => rfl

/-- What holds of the calls that read, and of each of the others, holds of every call. -/
@[elab_as_elim]
theorem cases_reads (en : Engine) {motive : Operation → Prop} (op : Operation)
    (submit : ∀ e claim, motive (.submit e claim)) (rebuild : ∀ id, motive (.rebuild id))
    (branch : ∀ id tip, motive (.branch id tip)) (register : ∀ m, motive (.register m))
    (reads : ∀ op, en.Reads op → motive op) : motive op := by
  cases op with
  | submit e claim => exact submit e claim
  | rebuild id => exact rebuild id
  | branch id tip => exact branch id tip
  | register m => exact register m
  | getStream id => exact reads _ (reads_getStream en id)
  | getFolder id => exact reads _ (reads_getFolder en id)
  | getEvent cid => exact reads _ (reads_getEvent en cid)
  | loadEvents id tip => exact reads _ (reads_loadEvents en id tip)
  | listStreams f => exact reads _ (reads_listStreams en f)
  | findByContent model key value => exact reads _ (reads_findByContent en model key value)
  | queryBySignal p => exact reads _ (reads_queryBySignal en p)
  | signals => exact reads _ (reads_signals en)

/-! ## A small run -/

def sampleEvent (cid : String) (prev data : Json) : Event :=
  ⟨.str cid, prev, .str "first", [.bytes ((Payload.encode data .null .null).toOption.getD [])]⟩

/-- The first event of a chain, with a count of zero. -/
def sampleGenesis : Event := sampleEvent "first" .null (.obj [("n", .int 0)])

/-- An event behind another one that sets the count. -/
def sampleUpdate (cid prev : String) (n : Int) : Event :=
  sampleEvent cid (.str prev)
    (.arr [.obj [("op", .str "replace"), ("path", .str "/n"), ("value", .int n)]])

def sampleOwner : OwnerClaim := .uuid ⟨0, by decide⟩

def sampleTenant : Uuid := ⟨0, by decide⟩

/-- An engine over an empty store of a backend, with room for some recent states or for none. -/
def sampleEngine (b : Backend) (recent : Option Fold.Recent) : Engine :=
  (ofStore (.closed b Store.noFile)).successor recent

end ChainFold.Engine
