import ChainFold.Proofs.Engine.History
import ChainFold.Proofs.Engine.Projection
import Mathlib.Logic.Function.Basic
import Mathlib.Logic.Relation

/-!
# Clients that submit at the same time

Any number of clients submit lists of events to one engine.  An event is checked before
its client waits for the store, and clients get the store in any order.  However their
steps are interleaved, the chain of a stream consists of the events that were answered
as applied to it, in the order of the answers, and it is never taken back.
-/

namespace ChainFold

/-- Following `prev` among the stored events leads from one event to another. -/
def Tables.Reaches (t : Tables) : Event → Event → Prop :=
  Relation.ReflTransGen fun x y => t.Stores y ∧ x.prev = y.cid

namespace Engine

/-- A client: what it has still to submit, and the checked event with which it waits. -/
structure Client where
  queue : List (Event × OwnerClaim)
  waiting : Option (Event × OwnerClaim)

/-- An engine with its clients, and the answers that have been given. -/
structure Service (ι : Type) where
  engine : Engine
  clients : ι → Client
  answers : List Answer

/-- Whose turn it is: a client takes its next step, or someone rebuilds or projects a stream. -/
inductive Turn (ι : Type) where
  | client (i : ι)
  | rebuild (id : Json)
  | branch (id tip : Json)

namespace Service

variable {ι : Type}

/-- A service in which nothing has been submitted yet. -/
def start (en : Engine) (queues : ι → List (Event × OwnerClaim)) : Service ι :=
  ⟨en, fun i => ⟨queues i, none⟩, []⟩

variable [DecidableEq ι]

def check (sys : Service ι) (i : ι) (e : Event) (claim : OwnerClaim)
    (rest : List (Event × OwnerClaim)) : Service ι :=
  match sys.engine.observe (sys.engine.admitting e) with
  | (.ok e, en) =>
    ⟨en, Function.update sys.clients i ⟨rest, some (e, claim)⟩, sys.answers⟩
  | (.error f, en) =>
    ⟨en, Function.update sys.clients i ⟨rest, none⟩, sys.answers ++ [⟨e, .error f⟩]⟩

/-- A client has the store for the event with which it waits, and is answered. -/
def settle (sys : Service ι) (i : ι) (e : Event) (claim : OwnerClaim)
    (rest : List (Event × OwnerClaim)) : Service ι :=
  let (outcome, en) := sys.engine.commit (sys.engine.accepting e claim)
  ⟨en, Function.update sys.clients i ⟨rest, none⟩, sys.answers ++ [⟨e, outcome⟩]⟩

def act (sys : Service ι) (i : ι) : Service ι :=
  match sys.clients i with
  | ⟨rest, some (e, claim)⟩ => sys.settle i e claim rest
  | ⟨(e, claim) :: rest, none⟩ => sys.check i e claim rest
  | ⟨[], none⟩ => sys

def step (sys : Service ι) : Turn ι → Service ι
  | .client i => sys.act i
  | .rebuild id => { sys with engine := (sys.engine.rebuild id).2 }
  | .branch id tip => { sys with engine := (sys.engine.branch id tip).2 }

def run (sys : Service ι) (turns : List (Turn ι)) : Service ι := turns.foldl step sys

/-- The chain of a stream, from its genesis event to its tip. -/
def chain (sys : Service ι) (id : String) : Except Failure (List Event) :=
  chainOf sys.engine.backend sys.engine.tables (.str id) .null

/-! ## What every turn keeps -/

/-- What holds between the turns of a service over a store that was empty. -/
structure Orderly (sys : Service ι) : Prop where
  steady : sys.engine.Steady
  checked : ∀ i e claim, (sys.clients i).waiting = some (e, claim) → e.WellFormed
  records : Records sys.engine.tables sys.answers

variable {sys : Service ι} {e : Event} {claim : OwnerClaim} {rest : List (Event × OwnerClaim)}

theorem checked_update {clients : ι → Client} (i : ι) (client : Client)
    (h : ∀ i e claim, (clients i).waiting = some (e, claim) → e.WellFormed)
    (hclient : ∀ e claim, client.waiting = some (e, claim) → e.WellFormed) :
    ∀ j e claim, (Function.update clients i client j).waiting = some (e, claim) →
      e.WellFormed := by
  intro j e claim hj
  by_cases hij : j = i
  · subst hij
    rw [Function.update_self] at hj
    exact hclient e claim hj
  · rw [Function.update_of_ne hij] at hj
    exact h j e claim hj

theorem Orderly.check (h : sys.Orderly) (i : ι) (e : Event) (claim : OwnerClaim)
    (rest : List (Event × OwnerClaim)) : (sys.check i e claim rest).Orderly := by
  obtain ⟨d, hd, hrecent⟩ := observe_of_isPlain (sys.engine.admitting_isPlain e) sys.engine
  have hst := h.steady.with_desk (Desk.keeps_of_recent_eq hrecent)
  unfold Service.check
  rw [hd]
  cases hadm : sys.engine.admission e with
  | error f =>
      exact ⟨hst, checked_update i _ h.checked (by simp), h.records.refused e f⟩
  | ok e' =>
      refine ⟨hst, checked_update i _ h.checked ?_, h.records⟩
      intro x claim' hx
      obtain ⟨rfl, rfl⟩ := Prod.mk.inj (Option.some.inj hx)
      exact (admission_eq_ok hadm).1 ▸ (admission_eq_ok hadm).2.1

theorem Orderly.settle (h : sys.Orderly) (i : ι) (hwf : e.WellFormed) (claim : OwnerClaim)
    (rest : List (Event × OwnerClaim)) : (sys.settle i e claim rest).Orderly := by
  obtain ⟨c, hc, -⟩ := hwf.cid_text
  obtain ⟨g, hg, -⟩ := hwf.genesis_text
  obtain ⟨d, hd, hsettles⟩ := exists_settles h.steady hwf hc hg claim
  have hsteady := hsettles.steady
  have hchecked := checked_update i ⟨rest, none⟩ h.checked (by simp)
  unfold Service.settle
  rw [hd]
  cases hres : sys.engine.acceptance e claim sys.engine.desk.heldAt with
  | error f =>
      rw [hres] at hsteady
      exact ⟨hsteady, hchecked, h.records.refused e f⟩
  | ok p =>
      obtain ⟨r, holdings⟩ := p
      rw [hres] at hsteady
      exact ⟨hsteady, hchecked,
        h.records.filed h.steady.sound hwf hc hg (hsettles.filed r holdings hres)⟩

theorem Orderly.act (h : sys.Orderly) (i : ι) : (sys.act i).Orderly := by
  unfold Service.act
  split
  · rename_i rest e claim hclient
    exact h.settle i (h.checked i e claim (by rw [hclient])) claim rest
  · rename_i e claim rest hclient
    exact h.check i e claim rest
  · exact h

theorem Orderly.step (h : sys.Orderly) (turn : Turn ι) : (sys.step turn).Orderly := by
  cases turn with
  | client i => exact h.act i
  | rebuild id =>
      obtain ⟨hevents, hstreams⟩ := h.steady.rebuild_tables id
      exact ⟨h.steady.rebuild id, h.checked, h.records.of_eq hevents hstreams⟩
  | branch id tip => exact ⟨h.steady.branch id tip, h.checked, h.records⟩

theorem Orderly.run (h : sys.Orderly) (turns : List (Turn ι)) : (sys.run turns).Orderly := by
  induction turns generalizing sys with
  | nil => exact h
  | cons turn rest ih => exact ih (h.step turn)

omit [DecidableEq ι] in
theorem start_orderly {en : Engine} (h : en.Fresh) (queues : ι → List (Event × OwnerClaim)) :
    (start en queues).Orderly where
  steady := h.steady
  checked := by simp [start]
  records := by
    show Records en.tables []
    rw [h.tables_eq]
    exact records_empty

theorem answers_kept_step (sys : Service ι) (turn : Turn ι) :
    sys.answers <+: (sys.step turn).answers := by
  cases turn with
  | client i =>
      show sys.answers <+: (sys.act i).answers
      unfold act
      split
      · exact List.prefix_append _ _
      · unfold check
        split
        · exact List.prefix_rfl
        · exact List.prefix_append _ _
      · exact List.prefix_rfl
  | rebuild id => exact List.prefix_rfl
  | branch id tip => exact List.prefix_rfl

theorem answers_kept (sys : Service ι) (turns : List (Turn ι)) :
    sys.answers <+: (sys.run turns).answers := by
  induction turns generalizing sys with
  | nil => exact List.prefix_rfl
  | cons turn rest ih => exact (sys.answers_kept_step turn).trans (ih (sys.step turn))

/-! ## Chains and answers -/

omit [DecidableEq ι]

/-- A stream that is there has the chain that was applied to it, with its tip at the end. -/
theorem Orderly.chain_eq (h : sys.Orderly) {id : String} {row : Stream}
    (hrow : sys.engine.tables.streams.get? (.text id) = some row) :
    sys.chain id = .ok (appliedTo sys.answers (.str id)) ∧
      ∃ tip, sys.engine.tables.Stores tip ∧ row.tip = tip.cid ∧
        Lineage sys.engine.tables.Stores tip (appliedTo sys.answers (.str id)) := by
  obtain ⟨tip, htip, heq, hl⟩ := h.records.lineage id row hrow
  obtain ⟨g, tip', chain', s, hkey, hp⟩ := h.steady.sound.projects _ row hrow
  obtain rfl : id = Ident.streamId g := by simpa using hkey
  have hb := h.steady.sound.binding
  obtain rfl := hb.unique _ _ hp.stored htip (hp.tip_eq.symm.trans heq)
  obtain rfl := hl.unique hb hp.lineage
  exact ⟨h.steady.sound.chainOf_tip hrow hp, tip', htip, heq, hl⟩

theorem exists_row_of_chain {id : String} {chain : List Event} (h : sys.chain id = .ok chain) :
    ∃ row, sys.engine.tables.streams.get? (.text id) = some row := by
  cases hrow : sys.engine.tables.streams.get? (.text id) with
  | some row => exact ⟨row, rfl⟩
  | none => simp [Service.chain, chainOf, Tables.stream?_of_none hrow, found] at h

theorem Orderly.eq_appliedTo (h : sys.Orderly) {id : String} {chain : List Event}
    (hchain : sys.chain id = .ok chain) : chain = appliedTo sys.answers (.str id) := by
  obtain ⟨row, hrow⟩ := exists_row_of_chain hchain
  exact Except.ok.inj (hchain.symm.trans (h.chain_eq hrow).1)

/-- Whatever an event of a chain leads to is in the chain. -/
theorem Orderly.mem_of_reaches (h : sys.Orderly) {id : String} {chain : List Event}
    (hchain : sys.chain id = .ok chain) {x y : Event} (hx : x ∈ chain)
    (hreaches : sys.engine.tables.Reaches x y) : y ∈ chain := by
  obtain ⟨row, hrow⟩ := exists_row_of_chain hchain
  obtain rfl := h.eq_appliedTo hchain
  obtain ⟨-, tip, -, -, hl⟩ := h.chain_eq hrow
  induction hreaches with
  | refl => exact hx
  | tail _ hstep ih => exact hl.mem_of_prev h.steady.sound.binding ih hstep.1 hstep.2

/-- No event is followed by two events that were applied. -/
theorem length_followers_le (ws : List (Json × Event)) {p : Json} (hp : p ≠ .null)
    (h : ws.Pairwise fun w w' => w.2.prev = w'.2.prev → w.2.prev = .null) :
    (ws.filter (·.2.prev = p)).length ≤ 1 := by
  have hpairs := h.filter (·.2.prev = p)
  have hall : ∀ w ∈ ws.filter (·.2.prev = p), w.2.prev = p := by simp
  generalize ws.filter (·.2.prev = p) = followers at hpairs hall
  match followers with
  | [] => simp
  | [_] => simp
  | w :: w' :: rest =>
      have hw := hall w (by simp)
      have hw' := hall w' (by simp)
      have hnull := (List.pairwise_cons.mp hpairs).1 w' (by simp) (hw.trans hw'.symm)
      exact absurd (hw.symm.trans hnull) hp

/-- What the answers of a service say about the chains that stand later on. -/
structure Linear (sys later : Service ι) : Prop where
  /-- The chain of a stream is what was applied to it, and ends at its tip. -/
  chain_eq : ∀ id row, later.engine.tables.streams.get? (.text id) = some row →
    later.chain id = .ok (appliedTo later.answers (.str id)) ∧
      (appliedTo later.answers (.str id)).getLast?.map Event.cid = some row.tip
  /-- What was applied to a stream names the genesis event of the stream. -/
  stream_eq : ∀ w ∈ winners later.answers, ∃ g, w.2.genesis = .str g ∧
    w.1 = .str (Ident.streamId g)
  /-- Nothing was applied to a stream that is not there. -/
  empty : ∀ id, later.engine.tables.streams.get? (.text id) = none →
    appliedTo later.answers (.str id) = []
  /-- At most one event was ever applied on top of a tip. -/
  one_follower : ∀ p, p ≠ .null → ((winners later.answers).filter (·.2.prev = p)).length ≤ 1
  /-- Chains are only ever extended. -/
  chain_prefix : ∀ id chain chain', sys.chain id = .ok chain → later.chain id = .ok chain' →
    chain <+: chain'
  /-- The tip that a conflict names stays on the chain. -/
  tip_stays : ∀ a ∈ sys.answers, ∀ r, a.Lost r → ∃ id conflict chain, r.stream = .str id ∧
    r.conflict = some conflict ∧ later.chain id = .ok chain ∧
    conflict.currentTip ∈ chain.map Event.cid
  /-- An event stored beside the tip stays off every chain, with all that lead to it. -/
  loser_stays_off : ∀ a ∈ sys.answers, ∀ r, a.Lost r →
    ∀ x, later.engine.tables.Reaches x a.event →
      ∀ id chain, later.chain id = .ok chain → x ∉ chain

theorem Orderly.linear {later : Service ι} (h : sys.Orderly) (h' : later.Orderly)
    (hanswers : sys.answers <+: later.answers) : Linear sys later := by
  have hold : ∀ a ∈ sys.answers, a ∈ later.answers := fun a ha => hanswers.subset ha
  constructor
  case chain_eq =>
    intro id row hrow
    obtain ⟨hchain, tip, -, heq, hl⟩ := h'.chain_eq hrow
    obtain ⟨before, hbefore⟩ := hl.exists_concat
    refine ⟨hchain, ?_⟩
    rw [hbefore, heq]
    simp
  case stream_eq => exact h'.records.named
  case empty => exact h'.records.empty
  case one_follower => exact fun p hp => length_followers_le _ hp h'.records.single
  case chain_prefix =>
    intro id chain chain' hchain hchain'
    rw [h.eq_appliedTo hchain, h'.eq_appliedTo hchain']
    exact appliedTo_prefix hanswers _
  case tip_stays =>
    intro a ha r hr
    obtain ⟨id, conflict, hstream, hconflict, hmem⟩ := h'.records.lost_tip a (hold a ha) r hr
    cases hrow : later.engine.tables.streams.get? (.text id) with
    | none =>
        rw [h'.records.empty id hrow] at hmem
        simp at hmem
    | some row => exact ⟨id, conflict, _, hstream, hconflict, (h'.chain_eq hrow).1, hmem⟩
  case loser_stays_off =>
    intro a ha r hr x hreaches id chain hchain hx
    have hmem := h'.mem_of_reaches hchain hx hreaches
    rw [h'.eq_appliedTo hchain] at hmem
    exact h'.records.lost_apart a (hold a ha) r hr _ (mem_appliedTo_iff.mp hmem) rfl

/--
However any number of clients get the store for the events that they submit, at any time
the chains are those of the answers so far, and what the answers of an earlier time say
about the chains stays true.
-/
theorem linear_of_fresh [DecidableEq ι] {en : Engine} (h : en.Fresh)
    (queues : ι → List (Event × OwnerClaim)) (turns more : List (Turn ι)) :
    Linear ((start en queues).run turns) (((start en queues).run turns).run more) := by
  have horderly := (start_orderly h queues).run turns
  exact horderly.linear (horderly.run more) (answers_kept _ more)

/-- Two clients race for the first tip: one event is applied, the other one is stored beside it. -/
theorem linear_of_race :
    let queues : Bool → List (Event × OwnerClaim) := fun i =>
      if i then [(sampleGenesis, sampleOwner), (sampleUpdate "second" "first" 1, .none)]
      else [(sampleUpdate "other" "first" 2, .none), (sampleUpdate "last" "other" 3, .none)]
    let sys := (start (sampleEngine .memory none) queues).run
      [.client true, .client true, .client true, .client false, .client true, .client false]
    let later := sys.run [.client false, .client false]
    sys.answers.map (fun a => a.outcome.toOption.map Receipt.status) =
        [some .applied, some .applied, some .notApplied] ∧
      appliedTo later.answers (.str (Ident.streamId "first")) =
        [sampleGenesis, sampleUpdate "second" "first" 1] ∧
      Linear sys later := by
  intro queues sys later
  have hfresh : (sampleEngine .memory none).Fresh := ⟨rfl, by simp [sampleEngine, successor]⟩
  exact ⟨by decide +kernel, by decide +kernel, linear_of_fresh hfresh queues _ _⟩

end Service

end Engine

end ChainFold
