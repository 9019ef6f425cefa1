import ChainFold.Proofs.Engine.Indifference

/-!
# Rejected submissions leave no trace

A submission that fails leaves what is stored as it was.  On the desk it can leave one
state, the fold of its event under the cid of the event.  A later event under that cid
replaces the state if it is folded itself, so the state is seen only if such an event is
stored beside the tip of its stream, which takes no fold.  In a run without such an event
no call is answered differently because of a submission that failed before.
-/

namespace ChainFold

namespace Engine

variable {en : Engine} {e x : Event} {claim : OwnerClaim} {c g : String} {held : Held} {t : Tables}
  {d : Desk} {late : List Event} {known : Event → Prop}

/-! ## Events that fail although they can be folded -/

def beside (en : Engine) : Call → List Event
  | .op (.submit e claim) =>
    match (en.submit e claim).1 with
    | .ok r => if r.status = .notApplied then [e] else []
    | .error _ => []
  | _ => []

def besideIn (en : Engine) : List Call → List Event
  | [] => []
  | call :: rest => en.beside call ++ (en.carry call).2.besideIn rest

/--
A submission that fails although its event is in order, linked, and can be folded: on
account of its owner or its header, or of what the store, the index or the archive say.
-/
structure FoldsInVain (en : Engine) (e : Event) (claim : OwnerClaim) : Prop where
  fails : ∃ f, (en.submit e claim).1 = .error f
  admitted : en.admission e = .ok e
  folded : ∃ id s, streamOf e = .ok id ∧ en.Folded en.tables e (.str id) (fun _ => none) s

/-- A call does not fold an event in vain under the cid of another event of a list. -/
def Spares (en : Engine) (late : List Event) : Call → Prop
  | .op (.submit e claim) => en.FoldsInVain e claim → ∀ x ∈ late, x.cid = e.cid → x = e
  | _ => True

/-- In a run nothing is stored beside a tip under the cid of another event folded in vain. -/
def Untainted (en : Engine) : List Call → Prop
  | [] => True
  | call :: rest =>
      en.Spares ((en.carry call).2.besideIn rest) call ∧ (en.carry call).2.Untainted rest

/-- It is enough that events stored beside tips share their cids with no other event. -/
theorem untainted_of_forall (calls : List Call)
    (h : ∀ e ∈ submitted (operations calls), ∀ x ∈ en.besideIn calls, x.cid = e.cid → x = e) :
    en.Untainted calls := by
  induction calls generalizing en with
  | nil => trivial
  | cons call rest ih =>
      rw [submitted_operations_cons] at h
      constructor
      · cases call with
        | op op =>
            cases op with
            | submit e claim =>
                exact fun _ x hx => h e (List.mem_append_left _ (List.mem_singleton_self e)) x
                  (List.mem_append_right _ hx)
            | _ => trivial
        | _ => trivial
      · exact ih fun e he x hx => h e (List.mem_append_right _ he) x (List.mem_append_right _ hx)

/-- What is folded with held states is folded from the rows as well. -/
theorem Folded.exists_bare (hs : t.Sound en.backend) (hfits : Held.Fits en.backend t held)
    {stream : String} {s : Fold.State} (h : en.Folded t e (.str stream) held s) :
    ∃ s', en.Folded t e (.str stream) (fun _ => none) s' := by
  rcases h with h | ⟨hlink, row, hrow, hs₁⟩
  · exact ⟨s, .inl h⟩
  · obtain ⟨row', hrow', -⟩ := Tables.exists_row_of_stream? hrow
    obtain ⟨g, tip, chain, f, -, hp⟩ := hs.projects _ row' hrow'
    have hsame : row = row' := by
      rw [Tables.stream?_of_some hrow' hp.isObject] at hrow
      exact (Option.some.inj (Except.ok.inj hrow)).symm
    rw [hsame] at hs₁ hrow
    have hagree := (agree_currentOf hfits hrow' hp).trans hp.agree.symm
    obtain ⟨s', hs', -⟩ := hagree.exists_advance hs₁
    exact ⟨s', .inr ⟨hlink, row', hrow, hs'⟩⟩

/-! ## Events that are stored in the end -/

/-- The events that are stored, with those of a list. -/
def Lasts (en : Engine) (late : List Event) (x : Event) : Prop := en.tables.Stores x ∨ x ∈ late

theorem beside_subset_filed (op : Operation) : en.beside (.op op) ⊆ en.filed op := by
  cases op with
  | submit e claim =>
      simp only [beside, filed]
      cases (en.submit e claim).1 with
      | error f => exact List.Subset.refl _
      | ok r =>
          dsimp only
          split <;> rename_i hstatus
          · rw [if_pos (.inr hstatus)]
            exact List.Subset.refl _
          · exact List.nil_subset _
  | _ => exact List.nil_subset _

/-- What is stored, or is stored by a call beside a tip, is stored after the call. -/
theorem Steady.stores_carry (hst : en.Steady) (call : Call)
    (h : en.Lasts (en.beside call) x) : (en.carry call).2.tables.Stores x := by
  cases call with
  | op op =>
      refine (hst.stores_perform_iff op x).mpr ?_
      exact h.symm.imp_left (beside_subset_filed op ·)
  | clear | restart => exact h.resolve_right List.not_mem_nil

theorem Steady.stores_carryAll (hst : en.Steady) (calls : List Call)
    (h : en.Lasts (en.besideIn calls) x) : (en.carryAll calls).2.tables.Stores x := by
  induction calls generalizing en with
  | nil => exact h.resolve_right List.not_mem_nil
  | cons call rest ih =>
      refine ih (hst.carry call) ?_
      rcases h with h | h
      · exact .inl (hst.stores_carry call (.inl h))
      · exact (List.mem_append.mp h).imp_left fun h => hst.stores_carry call (.inr h)

/-- The events that are stored now or later beside a tip are stored together in the end. -/
theorem Steady.binding_lasts (hst : en.Steady) (calls : List Call) :
    Binding (en.Lasts (en.besideIn calls)) :=
  (hst.carryAll calls).sound.binding.mono fun _ => hst.stores_carryAll calls

theorem Steady.lasts_mono (hst : en.Steady) (op : Operation) (late : List Event) (x : Event)
    (h : en.Lasts (en.beside (.op op) ++ late) x) : (en.perform op).2.Lasts late x := by
  rcases h with hx | hx
  · exact .inl (hst.stores_carry (.op op) (.inl hx))
  · exact (List.mem_append.mp hx).imp_left fun hx => hst.stores_carry (.op op) (.inr hx)

/-- Among the events that last, a call adds none that it does not file. -/
theorem Steady.lasts_eq (hst : en.Steady) (op : Operation) (late : List Event)
    (h : ∀ x ∈ en.filed op, en.Lasts (en.beside (.op op) ++ late) x) :
    (en.perform op).2.Lasts late = en.Lasts (en.beside (.op op) ++ late) := by
  funext x
  refine propext ⟨?_, hst.lasts_mono op late x⟩
  rintro (hx | hx)
  · exact ((hst.stores_perform_iff op x).mp hx).elim (h x) .inl
  · exact .inr (List.mem_append_right _ hx)

/-! ## What a submission leaves on the desk -/

theorem eq_of_mem_filed (h : x ∈ en.filed (.submit e claim)) : x = e := by
  rw [filed] at h
  cases hres : (en.submit e claim).1 with
  | error f => simp [hres] at h
  | ok r =>
      rw [hres] at h
      exact (List.mem_ite_nil_right.mp h).2 |> List.mem_singleton.mp

/-- What is left of an event that was rejected is not under the cid of an event that lasts. -/
theorem Reliable.trusts_of_vain (h : Reliable (en.Lasts late) en) (hst : en.Steady)
    (hb : Binding (en.Lasts late)) (hc : e.cid = .str c) (he : ¬ en.Lasts late e)
    (hspares : ∀ x ∈ late, x.cid = e.cid → x = e) {s : Fold.State} {stream : Json}
    (hfolded : en.Folded en.tables e stream en.desk.heldAt s)
    (hlearns : en.desk.Learns (.text c) s d) :
    d.Trusts en.backend (en.Lasts late) (en.Lasts late) := by
  have hnew : en.tables.events.get? (.text c) = none := by simpa [hc] using hfolded.event?_eq
  refine h.trusts.learns hlearns fun x hx hkey => ?_
  obtain ⟨c', hc'⟩ := hb.text x hx
  rw [hc'] at hkey
  obtain rfl : c' = c := by simpa [Json.key?] using hkey
  rcases hx with hstored | hlate
  · have hget := hst.sound.get?_of_stores hstored hc'
    simp [hnew] at hget
  · exact absurd (.inr (hspares x hlate (hc'.trans hc.symm) ▸ hlate)) he

/-- After a submission that was rejected the desk is still right for the events that last. -/
theorem Reliable.trusts_of_rejected (h : Reliable (en.Lasts late) en) (hst : en.Steady)
    (hb : Binding (en.Lasts late)) (hadm : en.admission e = .ok e) (hwf : e.WellFormed)
    (hc : e.cid = .str c) (hg : e.genesis = .str g) (he : ¬ en.Lasts late e) {f : Failure}
    (hfails : (en.submit e claim).1 = .error f) (hsettles : en.Settles e claim c g d)
    (hspares : en.desk.recent = none ∨ en.Spares late (.op (.submit e claim))) :
    d.Trusts en.backend (en.Lasts late) (en.Lasts late) := by
  rcases hspares with hnone | hspares
  · exact Desk.trusts_of_none (hsettles.after.none hnone)
  · rcases hsettles.after with ⟨-, hkeeps⟩ | ⟨s, hfolded, hlearns⟩
    · exact h.trusts.keeps hkeeps
    · obtain ⟨s', hbare⟩ := hfolded.exists_bare hst.sound hst.fits
      have hvain : en.FoldsInVain e claim :=
        ⟨⟨f, hfails⟩, hadm, _, s', hwf.streamOf_eq hg, hbare⟩
      exact h.trusts_of_vain hst hb hc he (hspares hvain) hfolded hlearns

/-- An event that became the tip has replaced what was held under its cid. -/
theorem Reliable.trusts_of_applied {known' : Event → Prop} (h : Reliable known en)
    (hst : en.Steady) (hb : Binding known') (hwf : e.WellFormed) (hc : e.cid = .str c)
    (he : known' e) (hsub : ∀ x, known x → known' x) (hnew : ∀ x, known' x → x = e ∨ known x)
    {s : Fold.State}
    (hfolded : en.Folded en.tables e (.str (Ident.streamId g)) en.desk.heldAt s)
    (hlearns : en.desk.Learns (.text c) s d) : d.Trusts en.backend known' known' := by
  have hkey : e.cid.key? = some (.text c) := by rw [hc]; rfl
  intro x k s' hx hk hholds
  rcases hlearns.holds k s' hholds with ⟨rfl, rfl⟩ | ⟨hne, hheld⟩
  · obtain rfl := (scope_refl hb).eq_of_key hx he hk hkey
    exact (isFoldAt_of_folded hst.sound hst.fits hwf hc hfolded).mono fun y hy =>
      hsub y (h.known_of_stores y hy)
  · rcases hnew x hx with rfl | hx
    · exact absurd (Option.some.inj (hk.symm.trans hkey)) hne
    · exact (h.trusts x k s' hx hk hheld).mono hsub

/-- After a submission no event lasts that did not before, but for the one submitted. -/
theorem Steady.eq_or_lasts (hst : en.Steady) (h : (en.submit e claim).2.Lasts late x) :
    x = e ∨ en.Lasts (en.beside (.op (.submit e claim)) ++ late) x := by
  rcases h with hx | hx
  · exact ((hst.stores_perform_iff (.submit e claim) x).mp hx).imp eq_of_mem_filed .inl
  · exact .inr (.inr (List.mem_append_right _ hx))

/-- An event that is answered, but neither stored before nor beside a tip, is applied. -/
theorem applied_of_not_lasts {id : String} {t' : Tables} {r : Receipt}
    (hr : (en.submit e claim).1 = .ok r)
    (hfiled : Filed en.backend held en.tables e c id t' r)
    (he : ¬ en.Lasts (en.beside (.op (.submit e claim)) ++ late) e) : r.status = .applied := by
  rcases hfiled.duplicate_or_new with ⟨-, hstored, -⟩ | ⟨hstatus, -, -⟩
  · exact absurd (.inl ⟨_, hstored⟩) he
  · refine hstatus.resolve_right fun hstatus => he (.inr (List.mem_append_left _ ?_))
    simp [beside, hr, hstatus]

/-- After a submission the desk is right for the events that last from then on. -/
theorem Reliable.submit_lasts
    (h : Reliable (en.Lasts (en.beside (.op (.submit e claim)) ++ late)) en) (hst : en.Steady)
    (hb : Binding ((en.submit e claim).2.Lasts late))
    (hspares : en.desk.recent = none ∨ en.Spares late (.op (.submit e claim))) :
    Reliable ((en.submit e claim).2.Lasts late) (en.submit e claim).2 := by
  have hsub := hst.lasts_mono (.submit e claim) late
  have hbknown := hb.mono hsub
  -- Where nothing new is filed the same events last.
  have hsame : (∀ x ∈ en.filed (.submit e claim),
      en.Lasts (en.beside (.op (.submit e claim)) ++ late) x) →
      (en.submit e claim).2.Lasts late = en.Lasts (en.beside (.op (.submit e claim)) ++ late) :=
    hst.lasts_eq (.submit e claim) late
  cases hst.submits e claim with
  | refused f d hadm hrecent heq =>
      rw [hsame (by simp [filed, heq]), heq]
      exact h.with_desk (Desk.keeps_of_recent_eq hrecent)
  | settled c g d hadm hwf hc hg hsettles heq =>
      by_cases he : en.Lasts (en.beside (.op (.submit e claim)) ++ late) e
      · rw [hsame fun x hx => eq_of_mem_filed hx ▸ he]
        exact h.submit hbknown (fun _ => he) claim
      · cases hres : en.acceptance e claim en.desk.heldAt with
        | error f =>
            rw [hres] at heq
            have hfails : (en.submit e claim).1 = .error f := by rw [heq]; rfl
            have hbeside : en.beside (.op (.submit e claim)) = [] := by simp [beside, hfails]
            rw [hsame (by simp [filed, hfails]), heq]
            rw [hbeside, List.nil_append] at h hbknown he ⊢
            exact ⟨h.sound, h.known_of_stores,
              h.trusts_of_rejected hst hbknown hadm hwf hc hg he hfails hsettles hspares⟩
        | ok p =>
            obtain ⟨r, holdings⟩ := p
            have hr : (en.submit e claim).1 = .ok r := by rw [heq, hres]; rfl
            have hstatus := applied_of_not_lasts hr (hsettles.filed r holdings hres) he
            have hstored : (en.submit e claim).2.tables.Stores e :=
              (hst.stores_perform_iff (.submit e claim) e).mpr (.inl (by simp [filed, hr, hstatus]))
            rcases hsettles.after with ⟨hno, -⟩ | ⟨s, hfolded, hlearns⟩
            · exact absurd hstatus (hno _ hres)
            · have htrusts := h.trusts_of_applied hst hb hwf hc (.inl hstored) hsub
                (fun _ => hst.eq_or_lasts) hfolded hlearns
              refine ⟨(hst.submit e claim).sound, fun x hx => .inl hx, ?_⟩
              rw [(submit_sameSetup en e claim).backend_eq,
                show (en.submit e claim).2.desk = d by rw [heq]; exact desk_behind en d _]
              exact htrusts

/-- After a call the desk is right for the events that last from then on. -/
theorem Reliable.carry_lasts {call : Call} (h : Reliable (en.Lasts (en.beside call ++ late)) en)
    (hst : en.Steady) (hb : Binding ((en.carry call).2.Lasts late))
    (hspares : en.desk.recent = none ∨ en.Spares late call) :
    Reliable ((en.carry call).2.Lasts late) (en.carry call).2 := by
  have hother : ∀ op, en.filed op = [] → submitted [op] = [] →
      Reliable (en.Lasts (en.beside (.op op) ++ late)) en →
      Binding ((en.perform op).2.Lasts late) →
      Reliable ((en.perform op).2.Lasts late) (en.perform op).2 := by
    intro op hfiled hsubmitted h hb
    rw [hst.lasts_eq op late (by simp [hfiled])] at hb ⊢
    exact h.perform hb op (by simp [hsubmitted])
  cases call with
  | clear | restart => exact h.with_desk (keeps_holding en fun _ => rfl)
  | op op =>
      cases op with
      | submit e claim => exact h.submit_lasts hst hb hspares
      | _ => exact hother _ rfl rfl h hb

/-! ## Runs from two desks -/

/-- An engine whose desk is right for the events that are stored now or later beside a tip. -/
structure Poised (en : Engine) (late : List Event) : Prop where
  binding : Binding (en.Lasts late)
  reliable : Reliable (en.Lasts late) en
  indifferent : en.Indifferent

theorem Poised.steady (h : en.Poised late) : en.Steady := h.reliable.steady h.binding

theorem Poised.carry {call : Call} (h : en.Poised (en.beside call ++ late))
    (hb : Binding ((en.carry call).2.Lasts late))
    (hspares : en.desk.recent = none ∨ en.Spares late call) : (en.carry call).2.Poised late :=
  ⟨hb, h.reliable.carry_lasts h.steady hb hspares, h.steady.indifferent_carry h.indifferent call⟩

theorem Poised.carryAll {calls rest : List Call} (h : en.Poised (en.besideIn (calls ++ rest)))
    (huntainted : en.desk.recent = none ∨ en.Untainted (calls ++ rest)) :
    (en.carryAll calls).2.Poised ((en.carryAll calls).2.besideIn rest) ∧
      ((en.carryAll calls).2.desk.recent = none ∨ (en.carryAll calls).2.Untainted rest) := by
  induction calls generalizing en with
  | nil => exact ⟨h, huntainted⟩
  | cons call calls ih =>
      refine ih (h.carry ((h.steady.carry call).binding_lasts _) ?_) ?_
      · exact huntainted.imp_right And.left
      · exact huntainted.imp (h.steady.recent_carry · call) And.right

/-- A branch is projected to the fold of its chain from either desk. -/
theorem Reliable.branch_sameFrom (h : Reliable known en) (h' : Reliable known { en with desk := d })
    (hb : Binding known) (id tip : Json) : en.SameFrom d (.op (.branch id tip)) := by
  cases hload : en.loaded id tip with
  | error f =>
      have hload' : Engine.loaded { en with desk := d } id tip = .error f := hload
      obtain ⟨d₁, hd₁, -⟩ := branch_of_error hload
      obtain ⟨d₂, hd₂, -⟩ := branch_of_error hload'
      simp only [SameFrom, Engine.carry, Engine.perform, hd₁, hd₂]
      exact ⟨.refl _, d₂, rfl⟩
  | ok chain =>
      have hload' : Engine.loaded { en with desk := d } id tip = .ok chain := hload
      obtain ⟨r₁, d₁, hd₁, -, hagree₁⟩ := h.exists_branch hb hload
      obtain ⟨r₂, d₂, hd₂, -, hagree₂⟩ := h'.exists_branch hb hload'
      simp only [SameFrom, Engine.carry, Engine.perform, hd₁, hd₂]
      exact ⟨sameAnswer_of_agreeOn (hagree₁.trans hagree₂.symm), d₂, rfl⟩

/-- A call does the same from two desks that are both right for the events that last. -/
theorem Poised.sameFrom (h : en.Poised late) (h' : Poised { en with desk := d } late)
    (call : Call) : en.SameFrom d call := by
  cases call with
  | clear | restart => exact ⟨.refl _, _, rfl⟩
  | op op =>
      cases op using en.cases_reads with
      | submit e claim =>
          obtain ⟨hanswer, d', hd'⟩ :=
            h.steady.submit_sameFrom h.indifferent h'.steady h'.indifferent e claim
          simp only [SameFrom, Engine.carry, Engine.perform, responding, hanswer, hd']
          exact ⟨.refl _, d', rfl⟩
      | rebuild id => exact rebuild_sameFrom en d id
      | branch id tip => exact h.reliable.branch_sameFrom h'.reliable h.binding id tip
      | register m => exact ⟨.refl _, d, rfl⟩
      | reads op hreads => exact hreads.sameFrom d

/-- Which events a call stores, or folds in vain, does not depend on what is held. -/
theorem Poised.spares_from (h : en.Poised late) (h' : Poised { en with desk := d } late)
    (call : Call) : Engine.beside { en with desk := d } call = en.beside call ∧
      ∀ xs, en.Spares xs call → Engine.Spares { en with desk := d } xs call := by
  cases call with
  | clear | restart => exact ⟨rfl, fun _ hspares => hspares⟩
  | op op =>
      cases op with
      | submit e claim =>
          obtain ⟨hanswer, -⟩ :=
            h.steady.submit_sameFrom h.indifferent h'.steady h'.indifferent e claim
          refine ⟨by simp only [Engine.beside, hanswer], ?_⟩
          intro xs hspares hvain
          exact hspares ⟨hanswer ▸ hvain.fails, hvain.admitted, hvain.folded⟩
      | _ => exact ⟨rfl, fun _ hspares => hspares⟩

/-- In an untainted run it does not show which of two desks an engine starts from. -/
theorem Poised.sameRun (calls : List Call) :
    ∀ {en : Engine} {d : Desk}, en.Poised (en.besideIn calls) →
      Poised { en with desk := d } (en.besideIn calls) →
      (en.desk.recent = none ∧ d.recent = none ∨ en.Untainted calls) →
      SameRun (en.carryAll calls) (Engine.carryAll { en with desk := d } calls) := by
  induction calls with
  | nil => exact fun _ _ _ => ⟨.nil, rfl, rfl, rfl⟩
  | cons call rest ih =>
      intro en d h h' huntainted
      obtain ⟨hanswer, d', hd'⟩ := h.sameFrom h' call
      obtain ⟨hbeside, hspares⟩ := h.spares_from h' call
      have hb := (h.steady.carry call).binding_lasts rest
      have hnext : (en.carry call).2.Poised ((en.carry call).2.besideIn rest) :=
        h.carry hb (huntainted.imp And.left And.left)
      have hnext' : (Engine.carry { en with desk := d } call).2.Poised
          ((en.carry call).2.besideIn rest) := by
        refine Poised.carry ?_ ?_ ?_
        · rw [hbeside]
          exact h'
        · rw [hd']
          exact hb
        · exact huntainted.imp And.right fun hu => hspares _ hu.1
      have hrest : SameRun ((en.carry call).2.carryAll rest)
          ((Engine.carry { en with desk := d } call).2.carryAll rest) := by
        have hnone : en.desk.recent = none ∧ d.recent = none →
            (en.carry call).2.desk.recent = none ∧
              (Engine.carry { en with desk := d } call).2.desk.recent = none := fun hnone =>
          ⟨h.steady.recent_carry hnone.1 call, h'.steady.recent_carry hnone.2 call⟩
        rw [hd'] at hnext' hnone ⊢
        exact ih hnext hnext' (huntainted.imp hnone And.right)
      exact ⟨.cons hanswer hrest.answers, hrest.tables_eq, hrest.archive_eq, hrest.registry_eq⟩

/-! ## No trace -/

theorem Fresh.poised (h : en.Fresh) (hind : en.Indifferent) (calls : List Call) :
    en.Poised (en.besideIn calls) :=
  ⟨h.steady.binding_lasts calls, h.reliable _, hind⟩

/--
Whether a submission that fails is made or not, every later call is answered the same, and
in the end the same is stored.  An engine that holds states must not store an event beside
a tip under the cid of another one that it has folded in vain, and it needs an extractor
that does not tell the written order of the members where a row is stored without it.
-/
theorem Fresh.rejected_traceless (h : en.Fresh)
    (hextract : en.desk.recent ≠ none → en.backend.isRelational = true →
      Index.IgnoresKeyOrder en.extract)
    (before later : List Call) (e : Event) (claim : OwnerClaim) {f : Failure}
    (hfails : ((en.carryAll before).2.submit e claim).1 = .error f)
    (huntainted : en.desk.recent ≠ none →
      en.Untainted (before ++ .op (.submit e claim) :: later)) :
    SameRun (((en.carryAll before).2.submit e claim).2.carryAll later)
      ((en.carryAll before).2.carryAll later) := by
  obtain ⟨hpoised, hquiet⟩ := (h.poised (indifferent_of_extract hextract) _).carryAll
    (or_iff_not_imp_left.mpr huntainted)
  generalize (en.carryAll before).2 = en₀ at *
  have hst := hpoised.steady
  have hbeside : en₀.beside (.op (.submit e claim)) = [] := by simp [beside, hfails]
  have hnext : (en₀.submit e claim).2.Poised ((en₀.submit e claim).2.besideIn later) :=
    hpoised.carry ((hst.submit e claim).binding_lasts later) (hquiet.imp_right And.left)
  have hsame : en₀.Poised ((en₀.submit e claim).2.besideIn later) := by
    have hpoised : en₀.Poised (en₀.beside (.op (.submit e claim)) ++
        (en₀.submit e claim).2.besideIn later) := hpoised
    rwa [hbeside, List.nil_append] at hpoised
  have hquiet' : (en₀.submit e claim).2.desk.recent = none ∧ en₀.desk.recent = none ∨
      (en₀.submit e claim).2.Untainted later :=
    hquiet.imp (fun hnone => ⟨hst.recent_perform hnone (.submit e claim), hnone⟩) And.right
  cases hst.commits e claim with
  | answered c g r holdings d hadm hwf hc hg hres hfiled heq =>
      rw [heq] at hfails
      cases hfails
  | failed f' d heq =>
      rw [heq] at hnext hsame hquiet' ⊢
      exact hnext.sameRun later hsame hquiet'

/-- A first event of a chain with a model that no stream can have. -/
def sampleUnusable (cid : String) : Event :=
  ⟨.str cid, .null, .str cid,
    [.bytes ((Payload.encode (.obj [("n", .int 9)]) (.str "") .null).toOption.getD [])]⟩

/-- The cid of a rejected event is used again, for one that becomes the tip. -/
theorem rejected_traceless_sample :
    let en := sampleEngine .sqlite (some (.empty (.ofNat 2)))
    let before := [.op (.submit sampleGenesis sampleOwner)]
    let later := [.op (.submit (sampleUpdate "second" "first" 1) .none),
      .op (.submit (sampleUpdate "late" "first" 3) .none),
      .op (.branch (.str (Ident.streamId "first")) (.str "second")),
      .op (.branch (.str (Ident.streamId "first")) (.str "late"))]
    ((en.carryAll before).2.submit (sampleUnusable "second") sampleOwner).1 =
        .error (.malformedEvent "second" "header model must not be empty") ∧
      SameRun
        (((en.carryAll before).2.submit (sampleUnusable "second") sampleOwner).2.carryAll later)
        ((en.carryAll before).2.carryAll later) := by
  intro en before later
  have hfails : ((en.carryAll before).2.submit (sampleUnusable "second") sampleOwner).1 =
      .error (.malformedEvent "second" "header model must not be empty") := by
    decide +kernel
  refine ⟨hfails, (sampleEngine_fresh .sqlite (.ofNat 2)).rejected_traceless
    (fun _ _ => Index.ignoresKeyOrder_ownSignal) before later _ _ hfails fun _ => ?_⟩
  refine untainted_of_forall _ ?_
  decide +kernel

/-- Runs that are answered the same project the same branch at their end. -/
theorem sameAnswer_of_branch (ops : List Operation) (id tip : Json) {en en' : Engine}
    (h : List.Forall₂ SameAnswer (en.carryAll (ops.map .op ++ [.op (.branch id tip)])).1
      (en'.carryAll (ops.map .op ++ [.op (.branch id tip)])).1) :
    SameAnswer (((en.after ops).branch id tip).1.map .state)
      (((en'.after ops).branch id tip).1.map .state) := by
  induction ops generalizing en en' with
  | nil => exact (List.forall₂_cons.mp h).1
  | cons first rest ih => exact ih (List.forall₂_cons.mp h).2

/--
The cid of a rejected event is used again, for one that is stored beside the tip: behind
the rejected one its branch is the state of that event, and not its own.
-/
theorem rejected_shows :
    let en := (sampleEngine .memory (some (.empty (.ofNat 10)))).after
      [.submit sampleGenesis sampleOwner]
    let behind := (en.submit (sampleUnusable "late") sampleOwner).2
    let stored := [.submit (sampleUpdate "second" "first" 1) .none,
      .submit (sampleUpdate "late" "first" 3) .none]
    let id := .str (Ident.streamId "first")
    (en.submit (sampleUnusable "late") sampleOwner).1 =
        .error (.malformedEvent "late" "header model must not be empty") ∧
      ¬ List.Forall₂ SameAnswer
        (behind.carryAll (stored.map .op ++ [.op (.branch id "late")])).1
        (en.carryAll (stored.map .op ++ [.op (.branch id "late")])).1 := by
  intro en behind stored id
  have hfails : (en.submit (sampleUnusable "late") sampleOwner).1 =
      .error (.malformedEvent "late" "header model must not be empty") := by
    decide +kernel
  have hbehind : ((behind.after stored).branch id "late").1 =
      .ok ⟨"late", .obj [("n", .int 9)], .str "", .null⟩ := by
    decide +kernel
  have hbare : ((en.after stored).branch id "late").1 =
      .ok ⟨"late", .obj [("n", .int 3)], .null, .null⟩ := by
    decide +kernel
  refine ⟨hfails, ?_⟩
  clear_value behind en stored id
  intro h
  have hsame := sameAnswer_of_branch stored id "late" h
  rw [hbehind, hbare] at hsame
  exact absurd hsame.2.1 (by decide +kernel)

end Engine

end ChainFold
