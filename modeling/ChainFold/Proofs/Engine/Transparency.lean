import ChainFold.Proofs.Engine.Reliability
import ChainFold.Proofs.Signal

/-!
# Held states do not show

An engine that holds recent states answers every call as one that holds none, and keeps
the same tables, as long as a cid names one submitted event.  It does not matter which
states are held at the time: those of submissions that were rolled back are folds as
well, and a projection that resumes from one comes to what the whole fold comes to.
-/

namespace ChainFold

/-! ## The same rulings -/

/-- An extractor whose signals are kept alike for contents that agree. -/
def Index.Respects (b : Backend) (extract : Extractor) : Prop :=
  ∀ x y, b.Agree x y →
    (extract x).map (Option.map b.keptJson) = (extract y).map (Option.map b.keptJson)

theorem Index.IgnoresKeyOrder.respects {b : Backend} {extract : Extractor}
    (h : b.isRelational = true → IgnoresKeyOrder extract) : Respects b extract := by
  intro x y hagree
  rcases hagree.cases with ⟨hb, halike⟩ | ⟨-, rfl⟩
  · have hkept : b.keptJson = Json.sortKeys := by
      funext j
      simp [Backend.keptJson, hb]
    rw [hkept]
    exact h hb x y halike
  · rfl

namespace Resolution

variable {b : Backend} {extract : Extractor} {t : Tables} {e : Event} {c id tip : String}
  {row : Stream} {s s' : Fold.State} {held : Held}

/-- States that agree lead to the same row, the same folder and the same answer. -/
theorem moved_congr (hn : t.StreamsNamed) (hextract : Index.Respects b extract)
    (hc : e.cid = .str c) (hid : row.id = .str id)
    (hrow : t.streams.get? (.text id) = some row) (htip : row.tip = .str tip)
    (hprev : e.prev = row.tip) (h : s.Agree b s') :
    moved b extract t e row s = moved b extract t e row s' := by
  rw [moved_eq hn hc hid hrow htip hprev, moved_eq hn hc hid hrow htip hprev,
    h.content.takes_eq, h.content.keptJson_eq]
  have hsignals := hextract _ _ h.content
  cases hx : extract s.content with
  | error d =>
      cases hy : extract s'.content with
      | error d' =>
          rw [hx, hy] at hsignals
          obtain rfl : d = d' := Except.error.inj hsignals
          rfl
      | ok signal => simp [hx, hy, Except.map] at hsignals
  | ok signal =>
      cases hy : extract s'.content with
      | error d => simp [hx, hy, Except.map] at hsignals
      | ok signal' =>
          rw [hx, hy] at hsignals
          have hsignals : signal.map b.keptJson = signal'.map b.keptJson :=
            Except.ok.inj hsignals
          simp only [hsignals]

theorem advancement_congr (hs : t.Sound b) (hextract : Index.Respects b extract)
    (hfits : Engine.Held.Fits b t held) (hwf : e.WellFormed) (hc : e.cid = .str c)
    (hnew : t.events.get? (.text c) = none) (hrow : t.streams.get? (.text id) = some row)
    (hid : row.id = .str id) (htip : row.tip = .str tip) :
    advancement b extract t e row held = advancement b extract t e row fun _ => none := by
  by_cases hmoves : e.prev = row.tip
  · rw [advancement_of_eq hwf hc hnew htip hmoves, advancement_of_eq hwf hc hnew htip hmoves]
    obtain ⟨g, tip', chain, f, -, hp⟩ := hs.projects _ row hrow
    have hcurrent : (currentOf held row).Agree b (currentOf (fun _ => none) row) :=
      (Engine.agree_currentOf hfits hrow hp).trans hp.agree.symm
    have hstep := hcurrent.advance e
    cases hadvance : (currentOf held row).advance e with
    | error f =>
        rw [hadvance] at hstep
        rw [hstep.error_left]
    | ok s =>
        rw [hadvance] at hstep
        obtain ⟨s', hs', hagree⟩ := hstep.ok_left
        rw [hs']
        exact moved_congr (t := t.withEvent c e) hs.streamsNamed hextract hc hid hrow htip hmoves
          hagree
  · rw [advancement_of_ne hwf hc hnew htip hmoves, advancement_of_ne hwf hc hnew htip hmoves]

end Resolution

namespace Engine

variable {en : Engine} {e : Event} {claim : OwnerClaim} {held : Held} {c g : String}
  {known : Event → Prop} {d : Desk}

theorem ruling_congr (hs : en.tables.Sound en.backend)
    (hextract : Index.Respects en.backend en.extract)
    (hfits : Held.Fits en.backend en.tables held) (hwf : e.WellFormed) (hc : e.cid = .str c)
    (hg : e.genesis = .str g) :
    en.ruling en.tables e (.str (Ident.streamId g)) claim held =
      en.ruling en.tables e (.str (Ident.streamId g)) claim fun _ => none := by
  unfold ruling
  cases hlink : Linkage.ofEvent en.backend en.tables e with
  | error f => rfl
  | ok linkage =>
      cases linkage with
      | genesis => rfl
      | duplicate => rfl
      | extension =>
          have hnew : en.tables.events.get? (.text c) = none := by
            simpa [hc] using event?_of_ofEvent hlink (by simp)
          obtain ⟨parent, hparent, -, hgenesis⟩ :=
            Linkage.parent_of_extension hs hwf hc hnew hlink
          obtain ⟨row, tip, hrow, htip, hid, hobj⟩ :=
            exists_row_of_stores hs hparent (hgenesis.trans hg)
          simp only [ok_bind, Tables.stream?_of_some hrow hobj]
          exact Resolution.advancement_congr hs hextract hfits hwf hc hnew hrow hid htip

/-- What is held makes no difference to a submission if it agrees with the rows. -/
theorem acceptance_congr (hs : en.tables.Sound en.backend)
    (hextract : Index.Respects en.backend en.extract)
    (hfits : Held.Fits en.backend en.tables held) (hwf : e.WellFormed) (claim : OwnerClaim) :
    en.acceptance e claim held = en.acceptance e claim fun _ => none := by
  obtain ⟨c, hc, -⟩ := hwf.cid_text
  obtain ⟨g, hg, -⟩ := hwf.genesis_text
  unfold acceptance resolution
  rw [hwf.streamOf_eq hg, ok_bind, ok_bind, ruling_congr hs hextract hfits hwf hc hg]

/-! ## What holds of an engine with held states -/

/--
An engine that has stored only known events, and whose desk can be trusted for the known
ones, stored or not.
-/
structure Trustworthy (known : Event → Prop) (en : Engine) : Prop where
  sound : en.tables.Sound en.backend
  known_of_stores : ∀ x, en.tables.Stores x → known x
  trusts : en.desk.Trusts en.backend known known
  respects : Index.Respects en.backend en.extract

theorem Trustworthy.reliable (h : Trustworthy known en) : Reliable known en :=
  ⟨h.sound, h.known_of_stores, h.trusts⟩

theorem Trustworthy.steady (h : Trustworthy known en) (hb : Binding known) : en.Steady :=
  h.reliable.steady hb

theorem Reliable.trustworthy {en' : Engine} (h : Reliable known en') (htrust : Trustworthy known en)
    (hsetup : en.SameSetup en') : Trustworthy known en' := by
  refine ⟨h.sound, h.known_of_stores, h.trusts, ?_⟩
  rw [hsetup.backend_eq, hsetup.extract_eq]
  exact htrust.respects

theorem Trustworthy.with_desk (h : Trustworthy known en) (hkeeps : en.desk.Keeps d) :
    Trustworthy known { en with desk := d } :=
  ⟨h.sound, h.known_of_stores, h.trusts.keeps hkeeps, h.respects⟩

/-- With a desk that holds nothing an engine is steady as well. -/
theorem Trustworthy.steady_bare (h : Trustworthy known en) (hd : d.recent = none) :
    ({ en with desk := d } : Engine).Steady :=
  ⟨h.sound, Desk.trusts_of_none hd⟩

/-! ## The same answers -/

/-- The same response, where states may differ in the order of the keys of their contents. -/
def Response.Same : Response → Response → Prop
  | .state s, .state s' => s.tip = s'.tip ∧ s.content.canonical = s'.content.canonical ∧
      s.model = s'.model ∧ s.account = s'.account
  | r, r' => r = r'

def SameAnswer : Except Failure Response → Except Failure Response → Prop
  | .ok r, .ok r' => r.Same r'
  | .error f, .error f' => f = f'
  | _, _ => False

theorem SameAnswer.refl (res : Except Failure Response) : SameAnswer res res := by
  cases res with
  | error f => rfl
  | ok r => cases r <;> simp [SameAnswer, Response.Same]

theorem sameAnswer_of_agreeOn {b : Backend} {r r' : Except Failure Fold.State}
    (h : Fold.State.AgreeOn b r r') : SameAnswer (r.map .state) (r'.map .state) := by
  cases r with
  | error f =>
      rw [h.error_left]
      rfl
  | ok s =>
      obtain ⟨s', rfl, hagree⟩ := h.ok_left
      exact ⟨hagree.tip, hagree.content.canonical_eq, hagree.model, hagree.account⟩

/--
A call does the same with and without held states: the answers are the same, and so are
the engines afterwards but for their desks.
-/
structure SameCall (known : Event → Prop) (held bare : Except Failure Response × Engine) :
    Prop where
  answer : SameAnswer held.1 bare.1
  engine_eq : bare.2 = { held.2 with desk := bare.2.desk }
  none : bare.2.desk.recent = none
  trustworthy : Trustworthy known held.2

theorem desk_behind {α : Type} (en : Engine) (d : Desk) (res : Except Failure (α × Holdings)) :
    (en.behind d res).desk = d := by
  cases res <;> rfl

/-- Behind one transaction engines differ in their desks only. -/
theorem behind_eq_with_desk {α : Type} (en : Engine) (d d₁ d₂ : Desk)
    (res : Except Failure (α × Holdings)) :
    Engine.behind { en with desk := d } d₂ res =
      { en.behind d₁ res with desk := (Engine.behind { en with desk := d } d₂ res).desk } := by
  cases res <;> rfl

theorem Trustworthy.submit (h : Trustworthy known en) (hb : Binding known)
    (hknown : e.WellFormed → known e) (claim : OwnerClaim) (hd : d.recent = none) :
    SameCall known (en.perform (.submit e claim))
      (({ en with desk := d } : Engine).perform (.submit e claim)) := by
  have hadm_eq : Engine.admission { en with desk := d } e = en.admission e := rfl
  cases (h.steady hb).submits e claim with
  | refused f d₁ hadm hrecent₁ heq₁ =>
      cases (h.steady_bare hd).submits e claim with
      | settled c g d₂ hadm' => simp [hadm_eq, hadm] at hadm'
      | refused f' d₂ hadm' hrecent₂ heq₂ =>
          obtain rfl : f = f' := Except.error.inj (hadm.symm.trans (hadm_eq ▸ hadm'))
          simp only [perform, heq₁, heq₂]
          exact ⟨.refl _, rfl, hrecent₂.trans hd, h.with_desk (Desk.keeps_of_recent_eq hrecent₁)⟩
  | settled c g d₁ hadm hwf hc hg hsettles₁ heq₁ =>
      cases (h.steady_bare hd).submits e claim with
      | refused f d₂ hadm' => simp [hadm_eq, hadm] at hadm'
      | settled c' g' d₂ hadm' hwf' hc' hg' hsettles₂ heq₂ =>
          -- Without held states the same is accepted as with those that are held.
          have hsame : Engine.acceptance { en with desk := d } e claim d.heldAt =
              en.acceptance e claim en.desk.heldAt := by
            have hheld : d.heldAt = fun _ => none := funext (Desk.heldAt_of_none hd)
            rw [acceptance_congr h.sound h.respects (h.steady hb).fits hwf claim, hheld]
            rfl
          have htrust := (h.reliable.submit hb hknown claim).trustworthy h
            (commit_sameSetup en (en.submitting e claim))
          rw [heq₁] at htrust
          simp only [perform, heq₁, heq₂, hsame]
          refine ⟨.refl _, behind_eq_with_desk en d d₁ d₂ _, ?_, htrust⟩
          exact (congrArg Desk.recent (desk_behind _ d₂ _)).trans (hsettles₂.after.none hd)

theorem Trustworthy.rebuild (h : Trustworthy known en) (hb : Binding known) (id : Json)
    (hd : d.recent = none) :
    SameCall known (en.perform (.rebuild id))
      (({ en with desk := d } : Engine).perform (.rebuild id)) := by
  have htrust := (h.reliable.rebuild hb id).trustworthy h
    (commit_sameSetup en (en.rebuilding id))
  obtain ⟨d₁, hd₁, -⟩ := en.rebuild_eq id
  obtain ⟨d₂, hd₂, hrecent₂⟩ := Engine.rebuild_eq { en with desk := d } id
  have hsame : Engine.rebuilt { en with desk := d } id = en.rebuilt id := rfl
  rw [hd₁] at htrust
  simp only [perform, hd₁, hd₂, hsame]
  refine ⟨.refl _, behind_eq_with_desk en d d₁ d₂ _, ?_, htrust⟩
  exact (congrArg Desk.recent (desk_behind _ d₂ _)).trans (hrecent₂.trans hd)

theorem Trustworthy.branch (h : Trustworthy known en) (hb : Binding known) (id tip : Json)
    (hd : d.recent = none) :
    SameCall known (en.perform (.branch id tip))
      (({ en with desk := d } : Engine).perform (.branch id tip)) := by
  cases hload : en.loaded id tip with
  | error f =>
      have hload' : Engine.loaded { en with desk := d } id tip = .error f := hload
      obtain ⟨d₁, hd₁, hrecent₁⟩ := branch_of_error hload
      obtain ⟨d₂, hd₂, hrecent₂⟩ := branch_of_error hload'
      simp only [perform, hd₁, hd₂]
      exact ⟨.refl _, rfl, hrecent₂.trans hd, h.with_desk (Desk.keeps_of_recent_eq hrecent₁)⟩
  | ok chain =>
      have hload' : Engine.loaded { en with desk := d } id tip = .ok chain := hload
      obtain ⟨r, d₁, hd₁, htrusts, hagree⟩ := h.reliable.exists_branch hb hload
      obtain ⟨d₂, hrecent₂, hd₂⟩ := branch_of_ok hload'
      obtain ⟨d₂', hd₂', hnone⟩ := Fold.project_of_none (hrecent₂.trans hd) chain
      simp only [perform, hd₁, hd₂, hd₂']
      exact ⟨sameAnswer_of_agreeOn hagree, rfl, hnone, h.sound, h.known_of_stores, htrusts,
        h.respects⟩

theorem Trustworthy.reads (h : Trustworthy known en) {op : Operation} (hop : en.Reads op)
    (hd : d.recent = none) :
    SameCall known (en.perform op) (({ en with desk := d } : Engine).perform op) := by
  obtain ⟨r, hr⟩ := hop
  obtain ⟨d₁, hd₁, hrecent₁⟩ := hr en.desk
  obtain ⟨d₂, hd₂, hrecent₂⟩ := hr d
  have hd₁ : en.perform op = (r, { en with desk := d₁ }) := hd₁
  rw [hd₁, hd₂]
  exact ⟨.refl r, rfl, hrecent₂.trans hd, h.with_desk (Desk.keeps_of_recent_eq hrecent₁)⟩

theorem Trustworthy.perform (h : Trustworthy known en) (hb : Binding known) (op : Operation)
    (hknown : ∀ e ∈ submitted [op], e.WellFormed → known e) (hd : d.recent = none) :
    SameCall known (en.perform op) (({ en with desk := d } : Engine).perform op) := by
  cases op with
  | submit e claim => exact h.submit hb (hknown e (List.mem_singleton_self e)) claim hd
  | rebuild id => exact h.rebuild hb id hd
  | branch id tip => exact h.branch hb id tip hd
  | getStream id => exact h.reads (reads_getStream en id) hd
  | getFolder id => exact h.reads (reads_getFolder en id) hd
  | getEvent cid => exact h.reads (reads_getEvent en cid) hd
  | loadEvents id tip => exact h.reads (reads_loadEvents en id tip) hd
  | listStreams f => exact h.reads (reads_listStreams en f) hd
  | findByContent model key value => exact h.reads (reads_findByContent en model key value) hd
  | queryBySignal p => exact h.reads (reads_queryBySignal en p) hd
  | signals => exact h.reads (reads_signals en) hd
  | register m => exact ⟨.refl _, rfl, hd, h.sound, h.known_of_stores, h.trusts, h.respects⟩

/-! ## Runs in which held states are dropped -/

/-- A call of an engine, or a moment at which it loses the states that it holds. -/
inductive Call where
  | op (op : Operation)
  /-- All held states are dropped. -/
  | clear
  /-- The engine goes on with an empty collection with room for `capacity` states. -/
  | restart (capacity : Amount)

def operations : List Call → List Operation
  | [] => []
  | .op op :: rest => op :: operations rest
  | .clear :: rest => operations rest
  | .restart _ :: rest => operations rest

/-- An engine with another collection of held states, if it keeps one. -/
def holding (en : Engine) (change : Fold.Recent → Fold.Recent) : Engine :=
  { en with desk := { en.desk with recent := en.desk.recent.map change } }

/-- Carry out a call, or lose the held states. -/
def carry (en : Engine) : Call → Except Failure Response × Engine
  | .op op => en.perform op
  | .clear => (.ok .done, en.holding Fold.Recent.clear)
  | .restart capacity => (.ok .done, en.holding fun _ => .empty capacity)

/-- The answers to calls one after another, and the engine after them. -/
def carryAll (en : Engine) : List Call → List (Except Failure Response) × Engine
  | [] => ([], en)
  | call :: rest =>
      ((en.carry call).1 :: (carryAll (en.carry call).2 rest).1,
        (carryAll (en.carry call).2 rest).2)

/-- The engine that keeps no states and is else the same. -/
def uncached (en : Engine) : Engine := { en with desk := { en.desk with recent := none } }

/-- A collection without entries holds nothing that was not held. -/
theorem keeps_holding (en : Engine) {change : Fold.Recent → Fold.Recent}
    (hchange : ∀ r, (change r).entries = []) : en.desk.Keeps (en.holding change).desk := by
  constructor
  case holds =>
    rintro k s ⟨r', hr', c, hmem⟩
    obtain ⟨r, -, rfl⟩ := Option.map_eq_some_iff.mp hr'
    simp [hchange r] at hmem
  case none =>
    intro hnone
    simp [holding, hnone]

theorem Steady.carry (hst : en.Steady) (call : Call) : (en.carry call).2.Steady := by
  cases call with
  | op op => exact hst.perform op
  | clear | restart => exact hst.with_desk (keeps_holding en fun _ => rfl)

theorem Steady.carryAll (hst : en.Steady) (calls : List Call) : (en.carryAll calls).2.Steady := by
  induction calls generalizing en with
  | nil => exact hst
  | cons call rest ih => exact ih (hst.carry call)

theorem Trustworthy.holding (h : Trustworthy known en) {change : Fold.Recent → Fold.Recent}
    (hchange : ∀ r, (change r).entries = []) (hd : d.recent = none) :
    SameCall known (.ok .done, en.holding change)
      (.ok .done, Engine.holding { en with desk := d } change) := by
  refine ⟨.refl _, rfl, ?_, h.with_desk (keeps_holding en hchange)⟩
  simp [Engine.holding, hd]

theorem Trustworthy.carry (h : Trustworthy known en) (hb : Binding known) (call : Call)
    (hknown : ∀ e ∈ submitted (operations [call]), e.WellFormed → known e)
    (hd : d.recent = none) :
    SameCall known (en.carry call) (({ en with desk := d } : Engine).carry call) := by
  cases call with
  | op op => exact h.perform hb op hknown hd
  | clear => exact h.holding (fun _ => rfl) hd
  | restart capacity => exact h.holding (fun _ => rfl) hd

theorem submitted_operations_cons (call : Call) (rest : List Call) :
    submitted (operations (call :: rest)) =
      submitted (operations [call]) ++ submitted (operations rest) := by
  cases call with
  | op op => exact submitted_cons op (operations rest)
  | clear | restart => rfl

/-- Two runs with the same answers, after which the same is stored. -/
structure SameRun (held bare : List (Except Failure Response) × Engine) : Prop where
  answers : List.Forall₂ SameAnswer held.1 bare.1
  tables_eq : held.2.tables = bare.2.tables
  archive_eq : held.2.archive = bare.2.archive
  registry_eq : held.2.registry = bare.2.registry

/-- Each call keeps what the next one needs, so a whole run does the same. -/
theorem Trustworthy.carryAll (hb : Binding known) (calls : List Call) :
    ∀ {en : Engine} {d : Desk}, Trustworthy known en → d.recent = none →
      (∀ e ∈ submitted (operations calls), e.WellFormed → known e) →
      SameRun (en.carryAll calls) (({ en with desk := d } : Engine).carryAll calls) := by
  induction calls with
  | nil => exact fun _ _ _ => ⟨.nil, rfl, rfl, rfl⟩
  | cons call rest ih =>
      intro en d h hd hknown
      rw [submitted_operations_cons] at hknown
      have hcall := h.carry hb call (fun e he => hknown e (List.mem_append_left _ he)) hd
      have hrest := ih hcall.trustworthy hcall.none
        (fun e he => hknown e (List.mem_append_right _ he))
      rw [← hcall.engine_eq] at hrest
      exact ⟨.cons hcall.answer hrest.answers, hrest.tables_eq, hrest.archive_eq,
        hrest.registry_eq⟩

theorem Fresh.trustworthy (h : en.Fresh) (hrespects : Index.Respects en.backend en.extract)
    (known : Event → Prop) : Trustworthy known en :=
  have hreliable := h.reliable known
  ⟨hreliable.sound, hreliable.known_of_stores, hreliable.trusts, hrespects⟩

/--
Whichever states an engine holds in a run, and whenever it loses them, each call is
answered as by an engine that holds none, and in the end the same is stored.
-/
theorem Fresh.held_states_transparent (h : en.Fresh)
    (hextract : en.backend.isRelational = true → Index.IgnoresKeyOrder en.extract)
    (calls : List Call) (hbinds : Binds (submitted (operations calls))) :
    SameRun (en.carryAll calls) (en.uncached.carryAll calls) :=
  Trustworthy.carryAll hbinds.binding calls
    (h.trustworthy (Index.IgnoresKeyOrder.respects hextract) _) rfl fun _ he hwf => ⟨he, hwf⟩

/-- With room for one state, a branch that breaks off and a restart behind it. -/
theorem held_states_transparent_sample :
    let broken := sampleEvent "broken" (.str "first")
      (.arr [.obj [("op", .str "replace"), ("path", .str "/n"), ("value", .int 5)],
        .obj [("op", .str "remove"), ("path", .str "/m")]])
    let branch := Operation.branch (.str (Ident.streamId "first"))
    let calls := [.op (.submit sampleGenesis sampleOwner),
      .op (.submit (sampleUpdate "second" "first" 1) .none), .op (.submit broken .none),
      .op (branch (.str "broken")), .op (branch (.str "second")), .restart (.ofNat 2),
      .op (.submit (sampleUpdate "third" "second" 3) .none), .clear,
      .op (branch (.str "third"))]
    let en := sampleEngine .sqlite (some (.empty (.ofNat 1)))
    (en.carryAll calls).1.map (fun r => r.toBool) =
        [true, true, true, false, true, true, true, true, true] ∧
      SameRun (en.carryAll calls) (en.uncached.carryAll calls) := by
  intro broken branch calls en
  have hbinds : Binds (submitted (operations calls)) := .of_pairwise (by decide +kernel)
  exact ⟨by decide +kernel,
    (sampleEngine_fresh .sqlite (.ofNat 1)).held_states_transparent
      (fun _ => Index.ignoresKeyOrder_ownSignal) calls hbinds⟩

end Engine

end ChainFold
