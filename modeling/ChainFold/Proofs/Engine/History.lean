import ChainFold.Proofs.Engine.Filing

/-!
# Tables and the answers that led to them

The answers that have been given, in their order, determine the chains that the tables
hold: the chain of a stream consists of the events that were answered as applied to it.
Filing an event keeps this, and so does refusing one.
-/

namespace ChainFold.Engine

/-- A submitted event with its answer. -/
structure Answer where
  event : Event
  outcome : Except Failure Receipt

namespace Answer

/-- The event with its stream, if it became the tip. -/
def won? (a : Answer) : Option (Json × Event) :=
  match a.outcome with
  | .ok r => if r.status = .applied then some (r.stream, a.event) else none
  | .error _ => none

/-- The answer is a receipt of an event that was stored beside the tip. -/
def Lost (a : Answer) (r : Receipt) : Prop := a.outcome = .ok r ∧ r.status = .notApplied

end Answer

/-- The events that were answered as applied, with their streams, in the order of the answers. -/
def winners (answers : List Answer) : List (Json × Event) := answers.filterMap Answer.won?

/-- The events that were answered as applied to a stream, in the order of the answers. -/
def appliedTo (answers : List Answer) (id : Json) : List Event :=
  ((winners answers).filter (·.1 = id)).map (·.2)

variable {answers : List Answer} {a : Answer} {e : Event} {id stream : Json}

theorem not_lost_of_won {w : Json × Event} (h : a.won? = some w) {r : Receipt} : ¬ a.Lost r := by
  rintro ⟨houtcome, hstatus⟩
  simp [Answer.won?, houtcome, hstatus] at h

theorem winners_concat (answers : List Answer) (a : Answer) :
    winners (answers ++ [a]) = winners answers ++ a.won?.toList := by
  rw [winners, List.filterMap_append]
  cases h : a.won? <;> simp [h, winners]

theorem winners_concat_of_none (h : a.won? = none) :
    winners (answers ++ [a]) = winners answers := by
  rw [winners_concat, h]
  simp

theorem appliedTo_concat_of_none (h : a.won? = none) (id : Json) :
    appliedTo (answers ++ [a]) id = appliedTo answers id := by
  rw [appliedTo, winners_concat_of_none h, appliedTo]

theorem appliedTo_concat_of_some (h : a.won? = some (stream, e)) (id : Json) :
    appliedTo (answers ++ [a]) id =
      if stream = id then appliedTo answers id ++ [e] else appliedTo answers id := by
  rw [appliedTo, winners_concat, h]
  split <;> simp_all [appliedTo]

theorem mem_appliedTo_iff : e ∈ appliedTo answers id ↔ (id, e) ∈ winners answers := by
  simp [appliedTo]

/-- More answers extend what was applied to a stream. -/
theorem appliedTo_prefix {answers' : List Answer} (h : answers <+: answers') (id : Json) :
    appliedTo answers id <+: appliedTo answers' id := by
  obtain ⟨more, rfl⟩ := h
  refine ⟨appliedTo more id, ?_⟩
  simp [appliedTo, winners]

/-! ## What tables have to do with answers -/

/-- The chains that tables hold are those of the answers that have been given. -/
structure Records (t : Tables) (answers : List Answer) : Prop where
  empty : ∀ id, t.streams.get? (.text id) = none → appliedTo answers (.str id) = []
  lineage : ∀ id row, t.streams.get? (.text id) = some row → ∃ tip, t.Stores tip ∧
    row.tip = tip.cid ∧ Lineage t.Stores tip (appliedTo answers (.str id))
  named : ∀ w ∈ winners answers, ∃ g, w.2.genesis = .str g ∧ w.1 = .str (Ident.streamId g)
  single : (winners answers).Pairwise fun w w' => w.2.prev = w'.2.prev → w.2.prev = .null
  lost_stored : ∀ a ∈ answers, ∀ r, a.Lost r → t.Stores a.event
  lost_apart : ∀ a ∈ answers, ∀ r, a.Lost r → ∀ w ∈ winners answers, w.2 ≠ a.event
  lost_tip : ∀ a ∈ answers, ∀ r, a.Lost r → ∃ id conflict, r.stream = .str id ∧
    r.conflict = some conflict ∧
    conflict.currentTip ∈ (appliedTo answers (.str id)).map Event.cid

theorem records_empty : Records .empty [] := by
  constructor <;> simp [Tables.empty, winners, appliedTo]

namespace Records

variable {b : Backend} {t t' : Tables} {c g : String} {held : Held} {r : Receipt}

theorem exists_lineage_of_winner (h : Records t answers) {w : Json × Event}
    (hw : w ∈ winners answers) : ∃ g tip, w.2.genesis = .str g ∧ t.Stores tip ∧
      Lineage t.Stores tip (appliedTo answers (.str (Ident.streamId g))) ∧
      w.2 ∈ appliedTo answers (.str (Ident.streamId g)) := by
  obtain ⟨id, e⟩ := w
  obtain ⟨g, hg, rfl⟩ := h.named _ hw
  have hmem := mem_appliedTo_iff.mpr hw
  cases hrow : t.streams.get? (.text (Ident.streamId g)) with
  | none =>
      rw [h.empty _ hrow] at hmem
      simp at hmem
  | some row =>
      obtain ⟨tip, htip, -, hl⟩ := h.lineage _ row hrow
      exact ⟨g, tip, hg, htip, hl, hmem⟩

theorem stores_of_winner (h : Records t answers) {w : Json × Event} (hw : w ∈ winners answers) :
    t.Stores w.2 := by
  obtain ⟨g, tip, -, htip, hl, hmem⟩ := h.exists_lineage_of_winner hw
  exact hl.known_of_mem htip hmem

/-- Only events and streams matter. -/
theorem of_eq (h : Records t answers) (hevents : t'.events = t.events)
    (hstreams : t'.streams = t.streams) : Records t' answers := by
  have hstores := Tables.stores_of_events_eq hevents
  refine ⟨hstreams ▸ h.empty, ?_, h.named, h.single, hstores ▸ h.lost_stored, h.lost_apart,
    h.lost_tip⟩
  rw [hstreams, hstores]
  exact h.lineage

/--
An answer that applies nothing leaves the chains as they are.  An event that it stores
beside a tip must not have been applied before.
-/
theorem concat_of_none (h : Records t answers) (hwon : a.won? = none)
    (hstreams : t'.streams = t.streams) (hsub : ∀ x, t.Stores x → t'.Stores x)
    (hstored : ∀ r, a.Lost r → t'.Stores a.event)
    (hapart : ∀ r, a.Lost r → ∀ w ∈ winners answers, w.2 ≠ a.event)
    (htip : ∀ r, a.Lost r → ∃ id conflict, r.stream = .str id ∧ r.conflict = some conflict ∧
      conflict.currentTip ∈ (appliedTo answers (.str id)).map Event.cid) :
    Records t' (answers ++ [a]) := by
  constructor
  case empty =>
    simp only [appliedTo_concat_of_none hwon, hstreams]
    exact h.empty
  case lineage =>
    simp only [appliedTo_concat_of_none hwon, hstreams]
    intro id row hrow
    obtain ⟨tip, hstored, heq, hl⟩ := h.lineage id row hrow
    exact ⟨tip, hsub tip hstored, heq, hl.mono hsub⟩
  case named =>
    rw [winners_concat_of_none hwon]
    exact h.named
  case single =>
    rw [winners_concat_of_none hwon]
    exact h.single
  case lost_stored =>
    refine List.forall_mem_append.mpr ⟨?_, List.forall_mem_singleton.mpr hstored⟩
    exact fun x hx r hr => hsub _ (h.lost_stored x hx r hr)
  case lost_apart =>
    rw [winners_concat_of_none hwon]
    exact List.forall_mem_append.mpr ⟨h.lost_apart, List.forall_mem_singleton.mpr hapart⟩
  case lost_tip =>
    simp only [appliedTo_concat_of_none hwon]
    exact List.forall_mem_append.mpr ⟨h.lost_tip, List.forall_mem_singleton.mpr htip⟩

/-- An answer that neither applies its event nor stores it beside the tip changes nothing. -/
theorem concat_of_idle (h : Records t answers) (hwon : a.won? = none) (hlost : ∀ r, ¬ a.Lost r) :
    Records t (answers ++ [a]) :=
  h.concat_of_none hwon rfl (fun _ hx => hx) (fun r hr => absurd hr (hlost r))
    (fun r hr => absurd hr (hlost r)) fun r hr => absurd hr (hlost r)

theorem refused (h : Records t answers) (e : Event) (f : Failure) :
    Records t (answers ++ [⟨e, .error f⟩]) :=
  h.concat_of_idle rfl fun r hr => by simp [Answer.Lost] at hr

/-! ## Filing an event -/

theorem beside (h : Records t answers) (hs : t.Sound b) (hc : e.cid = .str c)
    (hnew : t.events.get? (.text c) = none) {id : String} {row : Stream}
    (hrow : t.streams.get? (.text id) = some row) :
    Records (t.withEvent c e)
      (answers ++ [⟨e, .ok (Resolution.conflictReceipt (.str id) e row.tip)⟩]) := by
  refine h.concat_of_none rfl rfl (stores_withEvent hnew) ?_ ?_ ?_
  · exact fun r hr => (stores_insert_iff hnew rfl e).mpr (.inl rfl)
  · exact fun r hr w hw => hs.ne_of_new hc hnew (h.stores_of_winner hw)
  · intro r hr
    obtain ⟨tip, -, heq, hl⟩ := h.lineage id row hrow
    obtain rfl := Except.ok.inj hr.1
    exact ⟨id, _, rfl, rfl, heq ▸ List.mem_map_of_mem hl.mem_self⟩

/-- The chains of streams behind an answer that extends the chain of one. -/
theorem lineage_of_won (h : Records t answers) (hsub : ∀ x, t.Stores x → t'.Stores x)
    {stream : String}
    (hwon : a.won? = some (.str stream, e)) (he : t'.Stores e) {row : Stream}
    (hstreams : t'.streams = t.streams.insert (.text stream) row) (htip : row.tip = e.cid)
    (hl : Lineage t'.Stores e (appliedTo answers (.str stream) ++ [e])) (id : String)
    {row' : Stream} (hrow' : t'.streams.get? (.text id) = some row') :
    ∃ tip, t'.Stores tip ∧ row'.tip = tip.cid ∧
      Lineage t'.Stores tip (appliedTo (answers ++ [a]) (.str id)) := by
  rw [hstreams, Table.get?_insert] at hrow'
  rw [appliedTo_concat_of_some hwon]
  split at hrow'
  · rename_i heq
    obtain rfl := Option.some.inj hrow'
    obtain rfl : stream = id := by simpa using heq
    rw [if_pos rfl]
    exact ⟨e, he, htip, hl⟩
  · rename_i hne
    rw [if_neg (by simpa using hne)]
    obtain ⟨tip, hstored, heq, hl'⟩ := h.lineage id row' hrow'
    exact ⟨tip, hsub tip hstored, heq, hl'.mono hsub⟩

theorem applied (h : Records t answers) (hs : t.Sound b) (hc : e.cid = .str c)
    (hg : e.genesis = .str g) (hnew : t.events.get? (.text c) = none)
    (hevents : t'.events = t.events.insert (.text c) e) {row : Stream}
    (hstreams : t'.streams = t.streams.insert (.text (Ident.streamId g)) row)
    (htip : row.tip = e.cid)
    (hl : Lineage t'.Stores e (appliedTo answers (.str (Ident.streamId g)) ++ [e]))
    (hsingle : ∀ w ∈ winners answers, w.2.prev = e.prev → w.2.prev = .null)
    (hwon : a.won? = some (.str (Ident.streamId g), e)) : Records t' (answers ++ [a]) := by
  have hsub := stores_of_insert hnew hevents
  have he : t'.Stores e := (stores_insert_iff hnew hevents e).mpr (.inl rfl)
  have hlost : ∀ r, ¬ a.Lost r := fun r => not_lost_of_won hwon
  constructor
  case empty =>
    intro id hid
    rw [hstreams, Table.get?_insert] at hid
    rw [appliedTo_concat_of_some hwon]
    split at hid
    · simp at hid
    · rename_i hne
      rw [if_neg (by simpa using hne)]
      exact h.empty id hid
  case lineage =>
    exact fun id row' hrow' => h.lineage_of_won hsub hwon he hstreams htip hl id hrow'
  case named =>
    rw [winners_concat, hwon]
    exact List.forall_mem_append.mpr ⟨h.named, List.forall_mem_singleton.mpr ⟨g, hg, rfl⟩⟩
  case single =>
    rw [winners_concat, hwon, Option.toList_some, List.pairwise_append]
    refine ⟨h.single, List.pairwise_singleton _ _, ?_⟩
    exact fun w hw => List.forall_mem_singleton.mpr (hsingle w hw)
  case lost_stored =>
    refine List.forall_mem_append.mpr ⟨?_, List.forall_mem_singleton.mpr ?_⟩
    · exact fun x hx r hr => hsub _ (h.lost_stored x hx r hr)
    · exact fun r hr => absurd hr (hlost r)
  case lost_apart =>
    rw [winners_concat, hwon]
    refine List.forall_mem_append.mpr ⟨?_, List.forall_mem_singleton.mpr ?_⟩
    · intro x hx r hr
      refine List.forall_mem_append.mpr ⟨h.lost_apart x hx r hr, List.forall_mem_singleton.mpr ?_⟩
      exact (hs.ne_of_new hc hnew (h.lost_stored x hx r hr)).symm
    · exact fun r hr => absurd hr (hlost r)
  case lost_tip =>
    refine List.forall_mem_append.mpr ⟨?_, List.forall_mem_singleton.mpr ?_⟩
    · intro x hx r hr
      obtain ⟨id, conflict, hstream, hconflict, hmem⟩ := h.lost_tip x hx r hr
      have hgrows := appliedTo_prefix (List.prefix_append answers [a]) (.str id)
      exact ⟨id, conflict, hstream, hconflict, (hgrows.map Event.cid).subset hmem⟩
    · exact fun r hr => absurd hr (hlost r)

/-- No winner has followed the tip that stands. -/
theorem prev_ne_of_winner (h : Records t answers) (hb : Binding t.Stores) {tip : Event}
    (htip : t.Stores tip) (hg : tip.genesis = .str g)
    (hl : Lineage t.Stores tip (appliedTo answers (.str (Ident.streamId g)))) {w : Json × Event}
    (hw : w ∈ winners answers) : w.2.prev ≠ tip.cid := by
  intro hprev
  obtain ⟨g', tip', hg', htip', hl', hmem⟩ := h.exists_lineage_of_winner hw
  obtain ⟨before, -, hlw⟩ := hl'.exists_of_mem hmem
  obtain ⟨chain, -, -, hgenesis⟩ := hlw.of_prev hb htip hprev
  obtain rfl : g' = g := by simpa [hg', hg] using hgenesis.symm
  exact hl.prev_ne_of_mem hb htip hmem hprev

/-- Filing an event keeps the chains those of the answers. -/
theorem filed (h : Records t answers) (hs : t.Sound b) (hwf : e.WellFormed)
    (hc : e.cid = .str c) (hg : e.genesis = .str g)
    (hfiled : Filed b held t e c (Ident.streamId g) t' r) :
    Records t' (answers ++ [⟨e, .ok r⟩]) := by
  cases hfiled with
  | duplicate _ _ ht =>
      subst ht
      refine h.concat_of_idle rfl fun r' hr => ?_
      obtain rfl := Except.ok.inj hr.1
      simp [Answer.Lost] at hr
  | beside hnew _ hrow _ ht =>
      subst ht
      exact h.beside hs hc hnew hrow
  | @created owner s hnew hprev hrow hstate hevents hstreams =>
      refine h.applied hs hc hg hnew hevents hstreams (Fold.State.tip_of_ofGenesis hstate) ?_ ?_ rfl
      · rw [h.empty _ hrow]
        exact .first hprev (hwf.genesis_eq_cid hprev)
      · exact fun w _ heq => heq.trans hprev
  | @advanced row parent s hnew hparent hprev hgenesis hrow hmoves hstate hevents hstreams =>
      obtain ⟨tip, htip, heq, hl⟩ := h.lineage _ row hrow
      obtain rfl := hs.binding.unique _ _ hparent htip (hprev.symm.trans (hmoves.trans heq))
      have hsub := stores_of_insert hnew hevents
      refine h.applied hs hc hg hnew hevents hstreams rfl ?_ ?_ rfl
      · exact .next (hsub _ hparent) hprev hgenesis (hl.mono hsub)
      · intro w hw hsame
        exact absurd (hsame.trans hprev)
          (h.prev_ne_of_winner hs.binding hparent (hgenesis.trans hg) hl hw)

end Records

end ChainFold.Engine
