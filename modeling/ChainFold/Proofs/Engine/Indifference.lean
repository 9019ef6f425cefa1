import ChainFold.Proofs.Engine.Permanence

/-!
# Engines whose held states do not show in what they store

An engine that holds no states, or whose extractor gives contents that agree the same
signal, answers a submission in a way that does not depend on its desk.  This needs no
trust in what is held for events other than tips, and no promise about cids.
-/

namespace ChainFold.Engine

variable {en en' : Engine} {e : Event} {claim : OwnerClaim} {d : Desk} {α : Type}

/-! ## What is held -/

/-- It does not show what is held: nothing is, or contents that agree have the same signal. -/
def Indifferent (en : Engine) : Prop :=
  en.desk.recent = none ∨ Index.Respects en.backend en.extract

theorem indifferent_of_extract (h : en.desk.recent ≠ none → en.backend.isRelational = true →
    Index.IgnoresKeyOrder en.extract) : en.Indifferent := by
  by_cases hnone : en.desk.recent = none
  · exact .inl hnone
  · exact .inr (Index.IgnoresKeyOrder.respects (h hnone))

theorem Steady.recent_perform (hst : en.Steady) (h : en.desk.recent = none) (op : Operation) :
    (en.perform op).2.desk.recent = none := by
  cases op using en.cases_reads with
  | submit e claim =>
      show (en.submit e claim).2.desk.recent = none
      cases hst.submits e claim with
      | refused f d hadm hrecent heq =>
          rw [heq]
          exact hrecent.trans h
      | settled c g d hadm hwf hc hg hsettles heq =>
          rw [heq, desk_behind]
          exact hsettles.after.none h
  | rebuild id =>
      obtain ⟨d, hd, hrecent⟩ := en.rebuild_eq id
      show (en.rebuild id).2.desk.recent = none
      rw [hd, desk_behind]
      exact hrecent.trans h
  | branch id tip =>
      show (en.branch id tip).2.desk.recent = none
      cases hload : en.loaded id tip with
      | error f =>
          obtain ⟨d, hd, hrecent⟩ := branch_of_error hload
          rw [hd]
          exact hrecent.trans h
      | ok chain =>
          obtain ⟨d, hrecent, hd⟩ := branch_of_ok hload
          obtain ⟨d', hd', hnone⟩ := Fold.project_of_none (hrecent.trans h) chain
          rw [hd, hd']
          exact hnone
  | register m => exact h
  | reads op hreads =>
      obtain ⟨r, hr⟩ := hreads
      obtain ⟨d, hd, hrecent⟩ := hr en.desk
      have hd : en.perform op = (r, { en with desk := d }) := hd
      rw [hd]
      exact hrecent.trans h

theorem Steady.indifferent_perform (hst : en.Steady) (h : en.Indifferent) (op : Operation) :
    (en.perform op).2.Indifferent := by
  rcases h with hnone | hrespects
  · exact .inl (hst.recent_perform hnone op)
  · have hsetup := perform_sameSetup en op
    refine .inr ?_
    rw [hsetup.backend_eq, hsetup.extract_eq]
    exact hrespects

theorem Steady.acceptance_eq_bare (hst : en.Steady) (h : en.Indifferent) (hwf : e.WellFormed)
    (claim : OwnerClaim) :
    en.acceptance e claim en.desk.heldAt = en.acceptance e claim fun _ => none := by
  rcases h with hnone | hrespects
  · have hheld : en.desk.heldAt = fun _ => none := funext (Desk.heldAt_of_none hnone)
    rw [hheld]
  · exact acceptance_congr hst.sound hrespects hst.fits hwf claim

theorem Steady.recent_carry (hst : en.Steady) (h : en.desk.recent = none) (call : Call) :
    (en.carry call).2.desk.recent = none := by
  cases call with
  | op op => exact hst.recent_perform h op
  | clear | restart => exact (keeps_holding en fun _ => rfl).none h

theorem Steady.indifferent_carry (hst : en.Steady) (h : en.Indifferent) (call : Call) :
    (en.carry call).2.Indifferent := by
  cases call with
  | op op => exact hst.indifferent_perform h op
  | clear | restart => exact h.imp_left (keeps_holding en fun _ => rfl).none

theorem Steady.indifferent_carryAll (hst : en.Steady) (h : en.Indifferent) (calls : List Call) :
    (en.carryAll calls).2.Indifferent := by
  induction calls generalizing en with
  | nil => exact h
  | cons call rest ih => exact ih (hst.carry call) (hst.indifferent_carry h call)

/-! ## What a submission comes to -/

/-- What a submission comes to in tables and archive when nothing is held. -/
def outcome (en : Engine) (e : Event) (claim : OwnerClaim) :
    Except Failure (Receipt × Holdings) := do
  let e ← en.admission e
  en.acceptance e claim fun _ => none

/-- The holdings behind a transaction: new ones only if it succeeded. -/
def Holdings.behind (h : Holdings) : Except Failure (α × Holdings) → Holdings
  | .ok (_, h') => h'
  | .error _ => h

theorem Steady.submit_outcome (hst : en.Steady) (h : en.Indifferent) (e : Event)
    (claim : OwnerClaim) : (en.submit e claim).1 = (en.outcome e claim).map (·.1) ∧
      (en.submit e claim).2.holdings = en.holdings.behind (en.outcome e claim) := by
  unfold outcome
  cases hst.submits e claim with
  | refused f d hadm hrecent heq =>
      rw [heq, hadm]
      exact ⟨rfl, rfl⟩
  | settled c g d hadm hwf hc hg hsettles heq =>
      rw [heq, hadm, ok_bind, hst.acceptance_eq_bare h hwf claim]
      cases en.acceptance e claim fun _ => none <;> exact ⟨rfl, rfl⟩

theorem submit_registry (en : Engine) (e : Event) (claim : OwnerClaim) :
    (en.submit e claim).2.registry = en.registry := by
  unfold submit commit
  rcases ((en.submitting e claim).run).run en.desk with ⟨r, d⟩
  cases r <;> rfl

theorem outcome_congr (hsetup : en.SameSetup en') (hregistry : en'.registry = en.registry)
    (hholdings : en'.holdings = en.holdings) (e : Event) (claim : OwnerClaim) :
    en'.outcome e claim = en.outcome e claim := by
  have htables : en'.tables = en.tables := congrArg Holdings.tables hholdings
  have harchive : en'.archive = en.archive := congrArg Holdings.archive hholdings
  simp only [outcome, admission_congr hsetup, acceptance, resolution, checkOpen_congr hsetup,
    ruling, settlement, hsetup.backend_eq, hsetup.extract_eq, hregistry, htables, harchive]

theorem submit_sameSetup (en : Engine) (e : Event) (claim : OwnerClaim) :
    en.SameSetup (en.submit e claim).2 :=
  commit_sameSetup en (en.submitting e claim)

/-! ## The same from two desks -/

/-- A submission has the same answer and stores the same whatever is held. -/
theorem Steady.submit_sameFrom (hst : en.Steady) (hind : en.Indifferent)
    (hst' : Steady { en with desk := d }) (hind' : Indifferent { en with desk := d }) (e : Event)
    (claim : OwnerClaim) :
    (Engine.submit { en with desk := d } e claim).1 = (en.submit e claim).1 ∧
      ∃ d', (Engine.submit { en with desk := d } e claim).2 =
        { (en.submit e claim).2 with desk := d' } := by
  have hadm_eq : Engine.admission { en with desk := d } e = en.admission e := rfl
  cases hst.submits e claim with
  | refused f d₁ hadm hrecent₁ heq₁ =>
      cases hst'.submits e claim with
      | settled c g d₂ hadm' => simp [hadm_eq, hadm] at hadm'
      | refused f' d₂ hadm' hrecent₂ heq₂ =>
          obtain rfl : f = f' := Except.error.inj (hadm.symm.trans (hadm_eq ▸ hadm'))
          rw [heq₁, heq₂]
          exact ⟨rfl, d₂, rfl⟩
  | settled c g d₁ hadm hwf hc hg hsettles₁ heq₁ =>
      cases hst'.submits e claim with
      | refused f d₂ hadm' => simp [hadm_eq, hadm] at hadm'
      | settled c' g' d₂ hadm' hwf' hc' hg' hsettles₂ heq₂ =>
          rw [heq₁, heq₂, hst.acceptance_eq_bare hind hwf claim,
            hst'.acceptance_eq_bare hind' hwf claim]
          exact ⟨rfl, _, behind_eq_with_desk en d d₁ d₂ _⟩

/-- The same is answered and stored with one and with another desk. -/
def SameFrom (en : Engine) (d : Desk) (call : Call) : Prop :=
  SameAnswer (en.carry call).1 (Engine.carry { en with desk := d } call).1 ∧
    ∃ d', (Engine.carry { en with desk := d } call).2 = { (en.carry call).2 with desk := d' }

theorem Reads.sameFrom {op : Operation} (h : en.Reads op) (d : Desk) : en.SameFrom d (.op op) := by
  obtain ⟨r, hr⟩ := h
  obtain ⟨d₁, hd₁, -⟩ := hr en.desk
  obtain ⟨d₂, hd₂, -⟩ := hr d
  have hd₁ : en.perform op = (r, { en with desk := d₁ }) := hd₁
  simp only [SameFrom, carry, hd₁, hd₂]
  exact ⟨.refl r, d₂, rfl⟩

theorem rebuild_sameFrom (en : Engine) (d : Desk) (id : Json) :
    en.SameFrom d (.op (.rebuild id)) := by
  obtain ⟨d₁, hd₁, -⟩ := en.rebuild_eq id
  obtain ⟨d₂, hd₂, -⟩ := Engine.rebuild_eq { en with desk := d } id
  have hsame : Engine.rebuilt { en with desk := d } id = en.rebuilt id := rfl
  simp only [SameFrom, carry, perform, responding, hd₁, hd₂, hsame]
  exact ⟨.refl _, _, behind_eq_with_desk en d d₁ d₂ _⟩

end ChainFold.Engine
