import ChainFold.Proofs.Engine.Projection

/-!
# Where stored events come from

No call but a submission adds an event, so every stored event has been submitted.  Nor
does any call open or close the store, or change how events are checked and indexed.
-/

namespace ChainFold.Engine

variable {en : Engine} {t t' : Tables} {e x : Event} {c id : String} {held : Held} {r : Receipt}
  {b : Backend}

/-! ## Stored events -/

def submitted : List Operation → List Event
  | [] => []
  | .submit e _ :: rest => e :: submitted rest
  | _ :: rest => submitted rest

theorem Filed.eq_or_stores (h : Filed b held t e c id t' r) (hx : t'.Stores x) :
    x = e ∨ t.Stores x := by
  cases h with
  | duplicate _ _ ht => exact .inr (ht ▸ hx)
  | created hnew _ _ _ hevents _ => exact (stores_insert_iff hnew hevents x).mp hx
  | beside hnew _ _ _ ht =>
      subst ht
      exact (stores_insert_iff hnew rfl x).mp hx
  | advanced hnew _ _ _ _ _ _ hevents _ => exact (stores_insert_iff hnew hevents x).mp hx

theorem Steady.eq_or_stores_of_submit (hst : en.Steady) {e : Event} {claim : OwnerClaim}
    (hx : (en.submit e claim).2.tables.Stores x) : x = e ∨ en.tables.Stores x := by
  cases hst.commits e claim with
  | failed f d heq =>
      rw [heq] at hx
      exact .inr hx
  | answered c g r h d hadm hwf hc hg hres hfiled heq =>
      rw [heq] at hx
      exact hfiled.eq_or_stores hx

/-- What is stored after a call was stored before or is submitted with it. -/
theorem Steady.mem_submitted_or_stores (hst : en.Steady) (op : Operation)
    (hx : (en.perform op).2.tables.Stores x) : x ∈ submitted [op] ∨ en.tables.Stores x := by
  cases op with
  | submit e claim => exact (hst.eq_or_stores_of_submit hx).imp_left List.mem_singleton.mpr
  | rebuild id =>
      have hstores := Tables.stores_of_events_eq (hst.rebuild_tables id).1
      exact .inr (hstores ▸ hx)
  | branch | getStream | getFolder | getEvent | loadEvents | listStreams | findByContent
  | queryBySignal | signals | register => exact .inr hx

theorem submitted_cons (op : Operation) (rest : List Operation) :
    submitted (op :: rest) = submitted [op] ++ submitted rest := by
  cases op <;> rfl

/-- In a run that starts from an empty store only events that were submitted are stored. -/
theorem Fresh.mem_submitted (h : en.Fresh) (ops : List Operation)
    (hx : (en.after ops).tables.Stores x) : x ∈ submitted ops := by
  have hrun : ∀ (ops : List Operation) (en : Engine), en.Steady →
      (en.after ops).tables.Stores x → x ∈ submitted ops ∨ en.tables.Stores x := by
    intro ops
    induction ops with
    | nil => exact fun en _ hx => .inr hx
    | cons op rest ih =>
        intro en hst hx
        rw [submitted_cons, List.mem_append]
        rcases ih _ (hst.perform op) hx with hx | hx
        · exact .inl (.inr hx)
        · exact (hst.mem_submitted_or_stores op hx).imp_left .inl
  exact (hrun ops en h.steady hx).resolve_right (h.not_stores x)

/-! ## What no call changes -/

/-- Two engines that check, keep and index events in the same way. -/
structure SameSetup (en en' : Engine) : Prop where
  backend_eq : en'.backend = en.backend
  isOpen_eq : en'.store.isOpen = en.store.isOpen
  extract_eq : en'.extract = en.extract
  limit_eq : en'.maxBlockBytes = en.maxBlockBytes

theorem SameSetup.refl (en : Engine) : en.SameSetup en := ⟨rfl, rfl, rfl, rfl⟩

theorem SameSetup.trans {en en' en'' : Engine} (h : en.SameSetup en') (h' : en'.SameSetup en'') :
    en.SameSetup en'' :=
  ⟨h'.backend_eq.trans h.backend_eq, h'.isOpen_eq.trans h.isOpen_eq,
    h'.extract_eq.trans h.extract_eq, h'.limit_eq.trans h.limit_eq⟩

theorem commit_sameSetup {α : Type} (en : Engine) (w : Work (α × Holdings)) :
    en.SameSetup (en.commit w).2 := by
  unfold commit
  rcases (w.run).run en.desk with ⟨r, d⟩
  cases r <;> exact ⟨rfl, rfl, rfl, rfl⟩

theorem perform_sameSetup (en : Engine) (op : Operation) : en.SameSetup (en.perform op).2 := by
  cases op with
  | submit e claim => exact commit_sameSetup en (en.submitting e claim)
  | rebuild id => exact commit_sameSetup en (en.rebuilding id)
  | branch | getStream | getFolder | getEvent | loadEvents | listStreams | findByContent
  | queryBySignal | signals | register => exact ⟨rfl, rfl, rfl, rfl⟩

theorem after_sameSetup (en : Engine) (ops : List Operation) : en.SameSetup (en.after ops) := by
  induction ops generalizing en with
  | nil => exact .refl en
  | cons op rest ih => exact (perform_sameSetup en op).trans (ih (en.perform op).2)

end ChainFold.Engine
