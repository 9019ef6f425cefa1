import ChainFold.Proofs.Chain.Lineage
import ChainFold.Proofs.Engine.Ruling

/-!
# Sound tables

Tables are sound if every stored event is well formed, is kept under its own cid and
has a lineage among the stored ones, and if every stream is the fold of the lineage
of its tip.  Submissions and rebuilds keep them so.
-/

namespace ChainFold

namespace Tables

def Stores (t : Tables) (e : Event) : Prop := ∃ k, t.events.get? k = some e

theorem stores_of_events_eq {t t' : Tables} (h : t'.events = t.events) : t'.Stores = t.Stores := by
  funext e
  simp [Stores, h]

/-- A stream is the fold of the lineage of its tip, as a backend keeps it. -/
structure Projects (b : Backend) (t : Tables) (row : Stream) (g : String) (tip : Event)
    (chain : List Event) (s : Fold.State) : Prop where
  id_eq : row.id = .str (Ident.streamId g)
  tip_eq : row.tip = tip.cid
  stored : t.Stores tip
  genesis_eq : tip.genesis = .str g
  lineage : Lineage t.Stores tip chain
  fold : Fold.State.ofChain chain = .ok s
  content_eq : row.content = b.keptJson s.content
  model_eq : row.model = s.model
  account_eq : row.account = s.account

/-- What holds of tables that only submissions and rebuilds have written to. -/
structure Sound (b : Backend) (t : Tables) : Prop where
  wellFormed : ∀ k e, t.events.get? k = some e → e.WellFormed
  key_eq : ∀ k e, t.events.get? k = some e → e.cid.key? = some k
  lineage : ∀ k e, t.events.get? k = some e → ∃ chain, Lineage t.Stores e chain
  projects : ∀ k row, t.streams.get? k = some row →
    ∃ g tip chain s, k = .text (Ident.streamId g) ∧ t.Projects b row g tip chain s
  streams : ∀ k e, t.events.get? k = some e →
    ∃ g row, e.genesis = .str g ∧ t.streams.get? (.text (Ident.streamId g)) = some row

theorem sound_empty (b : Backend) : Sound b .empty := by
  constructor <;> simp [empty]

namespace Sound

variable {b : Backend} {t : Tables}

theorem get?_of_stores (h : Sound b t) {e : Event} (he : t.Stores e) {c : String}
    (hc : e.cid = .str c) : t.events.get? (.text c) = some e := by
  obtain ⟨k, hk⟩ := he
  have hkey := h.key_eq k e hk
  rw [hc] at hkey
  obtain rfl : Key.text c = k := by simpa [Json.key?] using hkey
  exact hk

theorem ne_of_new (h : Sound b t) {e x : Event} {c : String} (hc : e.cid = .str c)
    (hnew : t.events.get? (.text c) = none) (hx : t.Stores x) : x ≠ e := by
  rintro rfl
  have hget := h.get?_of_stores hx hc
  simp [hnew] at hget

theorem cid_of_get? (h : Sound b t) {e : Event} {c : String}
    (he : t.events.get? (.text c) = some e) : e.cid = .str c := by
  obtain ⟨c', hc', -⟩ := (h.wellFormed _ _ he).cid_text
  have hkey := h.key_eq _ _ he
  rw [hc'] at hkey
  obtain rfl : c' = c := by simpa [Json.key?] using hkey
  exact hc'

theorem get?_eq_none (h : Sound b t) {e : Event} {c : String} (hc : e.cid = .str c)
    (hnew : ∀ x, t.Stores x → x.cid ≠ e.cid) : t.events.get? (.text c) = none := by
  cases hget : t.events.get? (.text c) with
  | none => rfl
  | some x => exact absurd ((h.cid_of_get? hget).trans hc.symm) (hnew x ⟨_, hget⟩)

theorem wellFormed_of_stores (h : Sound b t) {e : Event} (he : t.Stores e) : e.WellFormed := by
  obtain ⟨k, hk⟩ := he
  exact h.wellFormed k e hk

theorem binding (h : Sound b t) : Binding t.Stores where
  text := by
    intro e he
    obtain ⟨c, hc, -⟩ := (h.wellFormed_of_stores he).cid_text
    exact ⟨c, hc⟩
  unique := by
    intro e e' he he' heq
    obtain ⟨c, hc, -⟩ := (h.wellFormed_of_stores he).cid_text
    have h₁ := h.get?_of_stores he hc
    have h₂ := h.get?_of_stores he' (heq ▸ hc)
    exact Option.some.inj (h₁.symm.trans h₂)

theorem streamsNamed (h : Sound b t) : t.StreamsNamed := by
  intro k row hrow
  obtain ⟨g, tip, chain, s, hk, hp⟩ := h.projects k row hrow
  exact ⟨Ident.streamId g, hk, hp.id_eq⟩

end Sound

namespace Projects

variable {b : Backend} {t : Tables} {row : Stream} {g : String} {tip : Event}
  {chain : List Event} {s : Fold.State}

theorem sane (h : t.Projects b row g tip chain s) : s.Sane := Fold.State.sane_of_ofChain h.fold

theorem isObject (h : t.Projects b row g tip chain s) : row.content.isObject = true := by
  rw [h.content_eq, Backend.isObject_keptJson]
  exact h.sane.object

theorem tip_of_fold (h : t.Projects b row g tip chain s) : s.tip = tip.cid := by
  obtain ⟨before, hbefore⟩ := h.lineage.exists_concat
  exact Fold.State.tip_of_ofChain (hbefore ▸ h.fold)

theorem agree (h : t.Projects b row g tip chain s) : (Fold.State.ofRow row).Agree b s where
  tip := h.tip_eq.trans h.tip_of_fold.symm
  content := by
    show b.Agree row.content s.content
    rw [h.content_eq]
    exact Backend.agree_keptJson h.sane.tidy
  model := h.model_eq
  account := h.account_eq

theorem mono {t' : Tables} (h : t.Projects b row g tip chain s)
    (hsub : ∀ e, t.Stores e → t'.Stores e) : t'.Projects b row g tip chain s :=
  { h with
    stored := hsub tip h.stored
    lineage := h.lineage.mono hsub }

end Projects

/-! ## Chains of sound tables -/

namespace Sound

variable {b : Backend} {t : Tables} {e : Event} {chain : List Event} {g : String}

theorem latest?_values (h : Sound b t) {events : List Event} (hsub : ∀ x ∈ events, t.Stores x)
    {x : Event} (hx : x ∈ events) : ∃ c, x.cid = .str c ∧
      Chain.latest? (.text c) events = some x := by
  obtain ⟨c, hc⟩ := h.binding.text x (hsub x hx)
  refine ⟨c, hc, Chain.latest?_eq hx (by rw [hc]; rfl) ?_⟩
  intro y hy hkey
  obtain ⟨c', hc'⟩ := h.binding.text y (hsub y hy)
  rw [hc'] at hkey
  obtain rfl : c' = c := by simpa [Json.key?] using hkey
  exact h.binding.unique y x (hsub y hy) (hsub x hx) (hc'.trans hc.symm)

/-- From any heap of stored events that has its chain, the chain to an event is its lineage. -/
theorem toTip_eq (h : Sound b t) (hl : Lineage t.Stores e chain) (he : t.Stores e)
    (hg : e.genesis = .str g) {events : List Event} (hsub : ∀ x ∈ events, t.Stores x)
    (hchain : ∀ x ∈ chain, x ∈ events) : Chain.toTip events (.str g) e.cid = .ok chain := by
  refine Chain.toTip_eq hl hg ?_ (hl.nodup_cids h.binding he) ?_
  · exact fun x hx => h.latest?_values hsub (hchain x hx)
  · exact fun x hx => h.binding.text x (hsub x hx)

theorem toTip_values (h : Sound b t) (hl : Lineage t.Stores e chain) (he : t.Stores e)
    (hg : e.genesis = .str g) : Chain.toTip t.events.values (.str g) e.cid = .ok chain :=
  h.toTip_eq hl he hg (fun _ hx => Table.mem_values_iff.mp hx)
    fun _ hx => Table.mem_values_iff.mpr (hl.known_of_mem he hx)

theorem toTip_eventsOf (h : Sound b t) (hl : Lineage t.Stores e chain) (he : t.Stores e)
    (hg : e.genesis = .str g) :
    (t.eventsOf b (.str g) >>= fun events => Chain.toTip events (.str g) e.cid) = .ok chain := by
  rw [eventsOf_text, ok_bind]
  refine h.toTip_eq hl he hg ?_ ?_
  · intro x hx
    exact Table.mem_values_iff.mp (List.mem_of_mem_filter hx)
  · intro x hx
    refine List.mem_filter.mpr ⟨Table.mem_values_iff.mpr (hl.known_of_mem he hx), ?_⟩
    simp [hl.genesis_eq_of_mem hx, hg]

end Sound

end Tables

end ChainFold
