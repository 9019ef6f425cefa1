import ChainFold.Engine.Session
import ChainFold.Proofs.Engine.Atomicity
import ChainFold.Proofs.Store.Image

/-!
# Backends agree

Two engines over empty stores of any backends carry out the same transactions.  Each call
is answered the same on both, and both hold the same rows after each transaction, whether
it is committed or abandoned.  One backend must be able to look up the keys that are asked
for: it writes a quote into the path of a key in a way in which it does not read it.
-/

namespace ChainFold

namespace Answer

/-- Answers say the same: events in any order, contents and signals by their canonical texts. -/
inductive Same : Answer → Answer → Prop
  | events {es es' : List Event} (h : es.Perm es') : Same (.events es) (.events es')
  | shown {a a' : Answer} (h : a.shown = a'.shown) : Same a a'

theorem shown_eq_events_iff {a : Answer} {es : List Event} :
    a.shown = .events es ↔ a = .events es := by
  cases a <;> simp [Answer.shown]

theorem Same.symm {a a' : Answer} (h : a.Same a') : a'.Same a := by
  cases h with
  | events h => exact .events h.symm
  | shown h => exact .shown h.symm

theorem Same.trans {a a' a'' : Answer} (h : a.Same a') (h' : a'.Same a'') : a.Same a'' := by
  cases h with
  | events h =>
      cases h' with
      | events h' => exact .events (h.trans h')
      | shown h' =>
          obtain rfl := shown_eq_events_iff.mp h'.symm
          exact .events h
  | shown h =>
      cases h' with
      | events h' =>
          obtain rfl := shown_eq_events_iff.mp h
          exact .events h'
      | shown h' => exact .shown (h.trans h')

end Answer

namespace Staged

variable {s : Staged}

/-! ## Calls on the stage -/

/-- Every other call than for the events of a chain is answered through the stage as published. -/
theorem call_follows (hn : s.publish.StreamsNamed) {c : Call} (hc : c.Regular)
    (hother : ∀ genesis, c ≠ .eventsOf genesis) :
    s.Follows (s.call c) (s.publish.call .memory c) := by
  cases c with
  | event? cid => exact follows_look .event (s.event?_publish cid)
  | insertEvent e => exact (s.insertEvent_follows e).answer .flag
  | eventsOf genesis => exact absurd rfl (hother genesis)
  | stream? id => exact follows_look .stream (s.stream?_publish id)
  | insertStream row => exact (s.insertStream_follows row).answer .flag
  | swapTip id expected new content =>
      obtain ⟨⟨i, rfl⟩, -⟩ := hc
      exact (s.swapTip_follows hn i expected new content).answer .flag
  | listStreams f => exact follows_look .streams (s.listStreams_publish f)
  | findStream model key value =>
      exact follows_look .stream (s.findStream_publish model key value)
  | folder? id => exact follows_look .folder (s.folder?_publish id)
  | putFolder f =>
      have hstaged : s.call (.putFolder f) =
          ((fun s' => ((), s')) <$> s.putFolder f).map fun p => (.done, p.2) := by
        show (fun s' => (Answer.done, s')) <$> s.putFolder f = _
        cases s.putFolder f <;> rfl
      have hdirect : s.publish.call .memory (.putFolder f) =
          ((fun t => ((), t)) <$> s.publish.putFolder .memory f).map fun p => (.done, p.2) := by
        show (fun t => (Answer.done, t)) <$> s.publish.putFolder .memory f = _
        cases s.publish.putFolder .memory f <;> rfl
      rw [hstaged, hdirect]
      exact (s.putFolder_follows f).answer fun _ => .done
  | signalFolders => exact follows_look .folders s.signalFolders_publish

end Staged

/-! ## Calls of a transaction -/

namespace Session

variable {b : Backend} {x : Session} {t t' : Tables} {c : Call} {a : Answer}

/-- The events of a chain in an open transaction are those in its tables, in some order. -/
theorem exists_events (hx : x.Stands b t) (genesis : String) :
    ∃ es, x.call (.eventsOf (.str genesis)) = .ok (.events es, x) ∧
      es.Perm (t.events.values.filter fun e => e.genesis = .str genesis) := by
  obtain ⟨-, hx⟩ := hx
  cases x with
  | direct b' t' =>
      obtain ⟨rfl, rfl⟩ := hx
      refine ⟨_, ?_, .refl _⟩
      rw [call, Tables.call, Tables.eventsOf_text]
      rfl
  | staged s =>
      obtain ⟨-, rfl⟩ := hx
      have hperm := s.eventsOf_perm (.str genesis)
      simp only [Json.looselySame_text_right] at hperm
      exact ⟨_, rfl, hperm⟩

/-- A call in an open transaction is answered what it means, and leaves what it means. -/
theorem exists_call (hx : x.Stands b (t.kept b)) (hc : c.Regular) (haddr : c.Addressed b)
    (hm : t.Means c a t') :
    ∃ a' x', x.call c = .ok (a', x') ∧ a'.Same a ∧ x'.Stands b (t'.kept b) ∧
      ∀ before, x'.undo before = x.undo before := by
  have hcall := hm.call_eq b haddr
  have hsame : (a.kept b).Same a := .shown (Answer.shown_kept hm.tidy)
  by_cases hevents : ∃ genesis, c = .eventsOf genesis
  · obtain ⟨genesis, rfl⟩ := hevents
    obtain ⟨g, rfl⟩ := hc
    obtain ⟨es, hes, hperm⟩ := exists_events hx g
    rw [Tables.call, Tables.eventsOf_text, map_ok] at hcall
    obtain ⟨hanswer, htables⟩ := Prod.mk.inj (Except.ok.inj hcall)
    rw [← hanswer] at hsame
    exact ⟨.events es, x, hes, .trans (.events hperm) hsame, htables ▸ hx, fun _ => rfl⟩
  · have hother : ∀ genesis, c ≠ .eventsOf genesis := fun g hg => hevents ⟨g, hg⟩
    have hfollows : ∀ s : Staged, b = .memory → s.publish = t.kept b →
        s.Follows (s.call c) ((t.kept b).call b c) := by
      rintro s rfl hpublish
      rw [← hpublish]
      exact s.call_follows (hpublish ▸ hx.1) hc hother
    obtain ⟨x', hx', hstands, hundo⟩ :=
      (comes_of_stands hx hfollows).ok _ _ hcall hm.regular.kept_named
    exact ⟨a.kept b, x', hx', hsame, hstands, hundo⟩

end Session

/-- What calls come to one after another. -/
inductive Tables.Course : Tables → List Call → List Answer → Tables → Prop
  | nil {t : Tables} (h : t.Regular) : Course t [] [] t
  | cons {t t' t'' : Tables} {c : Call} {cs : List Call} {a : Answer} {as : List Answer}
    (h : t.Means c a t') (hrest : Course t' cs as t'') : Course t (c :: cs) (a :: as) t''

theorem Tables.Course.regular {t t' : Tables} {cs : List Call} {as : List Answer}
    (h : t.Course cs as t') : t'.Regular := by
  induction h with
  | nil h => exact h
  | cons _ _ ih => exact ih

theorem Tables.Course.length_eq {t t' : Tables} {cs : List Call} {as : List Answer}
    (h : t.Course cs as t') : as.length = cs.length := by
  induction h with
  | nil => rfl
  | cons _ _ ih => rw [List.length_cons, List.length_cons, ih]

theorem Tables.Regular.exists_course {t : Tables} (h : t.Regular) {cs : List Call}
    (hcs : ∀ c ∈ cs, c.Regular) : ∃ as t', t.Course cs as t' := by
  induction cs generalizing t with
  | nil => exact ⟨[], t, .nil h⟩
  | cons c rest ih =>
      obtain ⟨hc, hrest⟩ := List.forall_mem_cons.mp hcs
      obtain ⟨a, t', hm⟩ := h.exists_means hc
      obtain ⟨as, t'', hcourse⟩ := ih hm.regular hrest
      exact ⟨a :: as, t'', .cons hm hcourse⟩

/-! ## Transactions -/

/-- A transaction of a caller: its calls, and whether it ends in a failure of the caller. -/
structure Transaction where
  calls : List Call
  abandoned : Bool

def Call.requests (cs : List Call) : List (Engine.Request Engine.Reply) :=
  cs.map fun c => .ofStep (.call c)

namespace Engine

variable {en en' : Engine} {b : Backend} {x x' : Session} {t t' : Tables}

def carryOut (en : Engine) (tx : Transaction) : Outcome Reply × Engine :=
  en.transact (Call.requests tx.calls) tx.abandoned

def afterAll (en : Engine) (txs : List Transaction) : Engine :=
  txs.foldl (fun en tx => (en.carryOut tx).2) en

/-- The open transaction in which all calls have been made. -/
def sessionOf (en : Engine) (tx : Transaction) : Session :=
  (fulfilAll en.extract (.begin en.backend en.tables) (Call.requests tx.calls) en.desk).2.2.1

theorem fulfil_call (extract : Extractor) {c : Call} {a : ChainFold.Answer}
    (h : x.call c = .ok (a, x')) (d : Desk) :
    ((fulfil extract x (.ofStep (.call c))).run).run d = (.ok (.answer a, x'), d) := by
  have hreply : reply extract x (.call c) = pure (.answer a, x') := by
    show (Work.ofExcept (x.call c) >>= fun p => pure (Reply.answer p.1, p.2)) = _
    rw [h]
    rfl
  show (((reply extract x (.call c)) >>= fun p =>
    Work.ofExcept (.ok p.1) >>= fun r => pure (r, p.2)).run).run d = _
  rw [hreply]
  rfl

/-- Calls in an open transaction are answered what they come to, and leave what they come to. -/
theorem fulfilAll_course (extract : Extractor) {cs : List Call} {as : List ChainFold.Answer}
    (hcourse : t.Course cs as t') (hx : x.Stands b (t.kept b))
    (hcs : ∀ c ∈ cs, c.Regular ∧ c.Addressed b) (d : Desk) :
    ∃ answers x', fulfilAll extract x (Call.requests cs) d =
        (answers.map .answer, none, x', d) ∧
      List.Forall₂ Answer.Same answers as ∧ x'.Stands b (t'.kept b) ∧
      ∀ before, x'.undo before = x.undo before := by
  induction hcourse generalizing x with
  | nil => exact ⟨[], x, rfl, .nil, hx, fun _ => rfl⟩
  | cons hm hrest ih =>
      obtain ⟨⟨hc, haddr⟩, hothers⟩ := List.forall_mem_cons.mp hcs
      obtain ⟨a', x₁, hcall, ha', hx₁, hundo₁⟩ := Session.exists_call hx hc haddr hm
      obtain ⟨answers, x₂, hall, hsame, hx₂, hundo₂⟩ := ih hx₁ hothers
      refine ⟨a' :: answers, x₂, ?_, .cons ha' hsame, hx₂,
        fun before => (hundo₂ before).trans (hundo₁ before)⟩
      rw [Call.requests] at hall ⊢
      rw [List.map_cons, fulfilAll, fulfil_call extract hcall]
      dsimp only
      rw [hall]
      rfl

/-- An open engine holds what its backend keeps of the given tables. -/
structure Holds (en : Engine) (t : Tables) : Prop where
  isOpen : en.store.isOpen = true
  regular : t.Regular
  tables_eq : en.tables = t.kept en.backend

/-- A transaction is answered what its calls come to, and leaves what they come to. -/
structure Carried (en : Engine) (tx : Transaction) (as : List ChainFold.Answer) (t t' : Tables) :
    Prop where
  results : ∃ answers, (en.carryOut tx).1.results = answers.map .answer ∧
    List.Forall₂ Answer.Same answers as
  failure_eq : (en.carryOut tx).1.failure = none
  backend_eq : (en.carryOut tx).2.backend = en.backend
  holds : (en.carryOut tx).2.Holds (if tx.abandoned then t else t')
  undone : (en.sessionOf tx).undo en.tables = en.tables

theorem Holds.carried (h : en.Holds t) {tx : Transaction} {as : List ChainFold.Answer}
    (hcourse : t.Course tx.calls as t')
    (hcs : ∀ c ∈ tx.calls, c.Regular ∧ c.Addressed en.backend) : en.Carried tx as t t' := by
  have hbegin : (Session.begin en.backend en.tables).Stands en.backend (t.kept en.backend) :=
    h.tables_eq ▸ Session.stands_begin (h.tables_eq ▸ h.regular.kept_named)
  obtain ⟨answers, x, hall, hsame, hx, hundo⟩ :=
    fulfilAll_course en.extract hcourse hbegin hcs en.desk
  have hopen : en.checkOpen = .ok () := by rw [checkOpen, h.isOpen, if_pos rfl]
  have hrun : en.carryOut tx =
      (⟨answers.map .answer, none, if tx.abandoned then en.tables else t'.kept en.backend⟩,
        { en with desk := en.desk }.withHoldings
          ⟨if tx.abandoned then en.tables else t'.kept en.backend, en.archive⟩) := by
    rw [carryOut, transact, hopen]
    simp only [hall, Session.commit_of_stands hx, Option.isNone_none, Bool.true_and]
    cases tx.abandoned <;> rfl
  have hholds : (en.carryOut tx).2.Holds (if tx.abandoned then t else t') := by
    rw [hrun]
    cases tx.abandoned with
    | true => exact ⟨h.isOpen, h.regular, h.tables_eq⟩
    | false => exact ⟨h.isOpen, hcourse.regular, rfl⟩
  have hundone : (en.sessionOf tx).undo en.tables = en.tables := by
    rw [sessionOf, hall, hundo, Session.undo_begin]
  refine ⟨⟨answers, ?_, hsame⟩, ?_, ?_, hholds, hundone⟩
  · rw [hrun]
  · rw [hrun]
  · rw [hrun]
    rfl

/-- Two engines carry out a transaction alike. -/
structure Agree (en en' : Engine) (tx : Transaction) : Prop where
  /-- Every call of the transaction is answered, and on both engines the same. -/
  answers : ∃ as as', (en.carryOut tx).1.results = as.map .answer ∧
    (en'.carryOut tx).1.results = as'.map .answer ∧ List.Forall₂ Answer.Same as as' ∧
    as.length = tx.calls.length
  failures : (en.carryOut tx).1.failure = none ∧ (en'.carryOut tx).1.failure = none
  /-- Both hold the same rows afterwards. -/
  rows : (en.carryOut tx).2.tables.shown = (en'.carryOut tx).2.tables.shown
  /-- An abandoned transaction leaves the rows from before it. -/
  abandoned : tx.abandoned = true →
    (en.carryOut tx).2.tables = en.tables ∧ (en'.carryOut tx).2.tables = en'.tables
  /-- With all calls made, the transaction can still be undone. -/
  undone : (en.sessionOf tx).undo en.tables = en.tables ∧
    (en'.sessionOf tx).undo en'.tables = en'.tables

/-- Calls that engines over both backends are to answer alike. -/
def Shared (b b' : Backend) (tx : Transaction) : Prop :=
  ∀ c ∈ tx.calls, c.Regular ∧ c.Addressed b ∧ c.Addressed b'

theorem forall₂_same {as as' bs : List ChainFold.Answer} (h : List.Forall₂ Answer.Same as bs)
    (h' : List.Forall₂ Answer.Same as' bs) : List.Forall₂ Answer.Same as as' := by
  induction h generalizing as' with
  | nil =>
      cases h'
      exact .nil
  | cons hhead _ ih =>
      cases h' with
      | cons hhead' htail' => exact .cons (hhead.trans hhead'.symm) (ih htail')

/-- Engines that hold the same carry out a transaction alike, and hold the same after it. -/
theorem Holds.agree (h : en.Holds t) (h' : en'.Holds t) {tx : Transaction}
    (hshared : Shared en.backend en'.backend tx) :
    Agree en en' tx ∧ (en.carryOut tx).2.backend = en.backend ∧
      (en'.carryOut tx).2.backend = en'.backend ∧
      ∃ t', (en.carryOut tx).2.Holds t' ∧ (en'.carryOut tx).2.Holds t' := by
  obtain ⟨as, t', hcourse⟩ := h.regular.exists_course fun c hc => (hshared c hc).1
  have hdone := h.carried hcourse fun c hc => ⟨(hshared c hc).1, (hshared c hc).2.1⟩
  have hdone' := h'.carried hcourse fun c hc => ⟨(hshared c hc).1, (hshared c hc).2.2⟩
  have hrows : (en.carryOut tx).2.tables.shown = (en'.carryOut tx).2.tables.shown := by
    have hregular := hdone.holds.regular
    rw [hdone.holds.tables_eq, hdone'.holds.tables_eq, hregular.shown_kept, hregular.shown_kept]
  have habandoned : tx.abandoned = true →
      (en.carryOut tx).2.tables = en.tables ∧ (en'.carryOut tx).2.tables = en'.tables := by
    intro htrue
    have hheld := hdone.holds.tables_eq
    have hheld' := hdone'.holds.tables_eq
    rw [htrue, if_pos rfl, hdone.backend_eq, ← h.tables_eq] at hheld
    rw [htrue, if_pos rfl, hdone'.backend_eq, ← h'.tables_eq] at hheld'
    exact ⟨hheld, hheld'⟩
  obtain ⟨answers, hresults, hsame⟩ := hdone.results
  obtain ⟨answers', hresults', hsame'⟩ := hdone'.results
  have hcount : answers.length = tx.calls.length := hsame.length_eq.trans hcourse.length_eq
  have hagree : Agree en en' tx :=
    { answers := ⟨answers, answers', hresults, hresults', forall₂_same hsame hsame', hcount⟩
      failures := ⟨hdone.failure_eq, hdone'.failure_eq⟩
      rows := hrows
      abandoned := habandoned
      undone := ⟨hdone.undone, hdone'.undone⟩ }
  exact ⟨hagree, hdone.backend_eq, hdone'.backend_eq, _, hdone.holds, hdone'.holds⟩

theorem Holds.after (h : en.Holds t) (h' : en'.Holds t) {txs : List Transaction}
    (hshared : ∀ tx ∈ txs, Shared en.backend en'.backend tx) :
    (en.afterAll txs).backend = en.backend ∧ (en'.afterAll txs).backend = en'.backend ∧
      ∃ t', (en.afterAll txs).Holds t' ∧ (en'.afterAll txs).Holds t' := by
  induction txs generalizing en en' t with
  | nil => exact ⟨rfl, rfl, t, h, h'⟩
  | cons tx rest ih =>
      obtain ⟨htx, hrest⟩ := List.forall_mem_cons.mp hshared
      obtain ⟨-, hb, hb', t', hholds, hholds'⟩ := h.agree h' htx
      have hnext := ih hholds hholds' (by rwa [hb, hb'])
      rw [hb, hb'] at hnext
      exact hnext

theorem holds_of_empty (hopen : en.store.isOpen = true) (hempty : en.tables = .empty) :
    en.Holds .empty :=
  ⟨hopen, Tables.regular_empty, hempty.trans (Tables.kept_empty en.backend).symm⟩

/--
Engines over empty stores of any two backends: whatever transactions they have both carried
out, they carry out the next one alike.
-/
theorem backends_agree (hopen : en.store.isOpen = true) (hopen' : en'.store.isOpen = true)
    (hempty : en.tables = .empty) (hempty' : en'.tables = .empty) (before : List Transaction)
    (tx : Transaction) (hshared : ∀ tx' ∈ tx :: before, Shared en.backend en'.backend tx') :
    Agree (en.afterAll before) (en'.afterAll before) tx := by
  obtain ⟨htx, hbefore⟩ := List.forall_mem_cons.mp hshared
  obtain ⟨hb, hb', t, hholds, hholds'⟩ :=
    (holds_of_empty hopen hempty).after (holds_of_empty hopen' hempty') hbefore
  exact (hholds.agree hholds' (by rwa [hb, hb'])).1

/-- A stream of a small run with its content. -/
def sampleRow (content : Json) : Stream :=
  ⟨.str "s", sampleTenant, .str "first", .null, .str "m", content⟩

/-- A transaction that stores a stream and its first event. -/
def sampleStoring (content : Json) : Transaction :=
  ⟨[.insertStream (sampleRow content), .insertEvent sampleGenesis], false⟩

/-- A transaction that moves the tip of the stream and is then abandoned. -/
def sampleMoving : Transaction :=
  ⟨[.swapTip (.str "s") (.str "first") (.str "second") (.obj []), .stream? (.str "s")], true⟩

/-- A transaction that looks for a value under a key, and for the events of the chain. -/
def sampleLooking (key : String) : Transaction :=
  ⟨[.findStream (.str "m") (.str key) (.int 1), .eventsOf (.str "first")], false⟩

theorem sampleStoring_shared {content : Json} (hobj : content.isObject = true)
    (hcontent : content.Storable) (b b' : Backend) : Shared b b' (sampleStoring content) := by
  intro c hc
  simp only [sampleStoring, List.mem_cons, List.not_mem_nil, or_false] at hc
  rcases hc with rfl | rfl
  · exact ⟨⟨⟨_, rfl⟩, ⟨_, rfl⟩, .inl rfl, .inr ⟨_, rfl⟩, hobj, hcontent⟩, trivial, trivial⟩
  · refine ⟨⟨⟨_, rfl⟩, ⟨_, rfl⟩, .inl rfl, ?_, ?_⟩, trivial, trivial⟩
    · intro block hblock
      exact ⟨_, List.mem_singleton.mp hblock⟩
    · exact List.cons_ne_nil _ _

theorem sampleMoving_shared (b b' : Backend) : Shared b b' sampleMoving := by
  intro c hc
  simp only [sampleMoving, List.mem_cons, List.not_mem_nil, or_false] at hc
  rcases hc with rfl | rfl
  · refine ⟨⟨⟨_, rfl⟩, ⟨_, rfl⟩, ⟨_, rfl⟩, rfl, ?_, rfl⟩, trivial, trivial⟩
    exact Json.tidy_obj_iff.mpr ⟨List.nodup_nil, by simp⟩
  · exact ⟨⟨_, rfl⟩, trivial, trivial⟩

theorem sampleLooking_shared {key : String} (hkey : Path.PlainKey key) (b b' : Backend) :
    Shared b b' (sampleLooking key) := by
  intro c hc
  simp only [sampleLooking, List.mem_cons, List.not_mem_nil, or_false] at hc
  rcases hc with rfl | rfl
  · refine ⟨⟨⟨_, rfl⟩, ⟨_, rfl⟩, ?_⟩, fun _ => hkey, fun _ => hkey⟩
    simp
  · exact ⟨⟨_, rfl⟩, trivial, trivial⟩

/-- In memory and in columns the stream is found after a move of its tip was abandoned. -/
theorem backends_agree_sample :
    let content : Json := .obj [("b", .arr [.null]), ("a", .bool true)]
    let before := [sampleStoring content, sampleMoving]
    let en := sampleEngine .memory none
    let en' := sampleEngine .sqlite none
    Agree (en.afterAll before) (en'.afterAll before) (sampleLooking "a") ∧
      ((en.afterAll before).carryOut (sampleLooking "a")).1.results =
        [.answer (.stream (some (sampleRow content))), .answer (.events [sampleGenesis])] ∧
      ((en'.afterAll before).carryOut (sampleLooking "a")).1.results =
        [.answer (.stream (some (sampleRow content.sortKeys))),
          .answer (.events [sampleGenesis])] := by
  intro content before en en'
  have hcontent : content.Storable := by
    refine ⟨?_, by decide +kernel⟩
    simp [content, Json.Tidy, Json.TidyMembers, Json.TidyItems, Members.keys]
  have hshared : ∀ tx ∈ [sampleLooking "a", sampleStoring content, sampleMoving],
      Shared en.backend en'.backend tx := by
    simp only [List.forall_mem_cons]
    exact ⟨sampleLooking_shared (by decide) _ _, sampleStoring_shared rfl hcontent _ _,
      sampleMoving_shared _ _, by simp⟩
  exact ⟨backends_agree rfl rfl rfl rfl before _ hshared, by decide +kernel⟩

/-- What is stored under a key with a quote is found in memory and not in columns. -/
theorem quoted_key_missed :
    let content : Json := .obj [("a\"b", .int 1)]
    let before := [sampleStoring content]
    (((sampleEngine .memory none).afterAll before).carryOut (sampleLooking "a\"b")).1.results =
        [.answer (.stream (some (sampleRow content))), .answer (.events [sampleGenesis])] ∧
      (((sampleEngine .sqlite none).afterAll before).carryOut (sampleLooking "a\"b")).1.results =
        [.answer (.stream none), .answer (.events [sampleGenesis])] := by
  decide +kernel

end Engine

end ChainFold
