import ChainFold.Proofs.Engine.Provenance
import ChainFold.Proofs.Ident
import Mathlib.Data.List.Chain

/-!
# Chains of stored events

Every stored event starts a stream that is there or follows a stored event of its own
chain.  From each of them, on the chain of a tip or on a losing branch, exactly one path
leads back to a genesis event, and it is the chain that is loaded.  Hence no load and no
rebuild ever meets a broken chain.
-/

namespace ChainFold

namespace Tables

/-! ## Paths -/

/-- Stored events, each following the one before, from the genesis event of `e` to `e`. -/
structure PathTo (t : Tables) (e : Event) (path : List Event) : Prop where
  stored : ∀ x ∈ path, t.Stores x
  starts : ∃ first rest, path = first :: rest ∧ first.cid = e.genesis
  linked : path.IsChain fun x y => y.prev = x.cid
  ends : ∃ before, path = before ++ [e]

/-- An event starts a stream that is there, or it follows a stored event of the same chain. -/
def Rooted (b : Backend) (t : Tables) (e : Event) : Prop :=
  (e.prev = .null ∧ e.cid = e.genesis ∧
    ∃ id row, Engine.streamOf e = .ok id ∧ t.stream? b (.str id) = .ok (some row)) ∨
  ∃ parent, t.Stores parent ∧ e.prev = parent.cid ∧ parent.genesis = e.genesis

variable {b : Backend} {t : Tables} {e parent : Event} {path chain front : List Event}

theorem linked_of_lineage {known : Event → Prop} (h : Lineage known e chain) :
    chain.IsChain fun x y => y.prev = x.cid := by
  induction h with
  | first => exact .singleton _
  | next _ hprev _ hparent ih =>
      obtain ⟨before, rfl⟩ := hparent.exists_concat
      refine ih.append (.singleton _) ?_
      intro x hx y hy
      rw [List.getLast?_concat, Option.mem_some_iff] at hx
      rw [List.head?_cons, Option.mem_some_iff] at hy
      rw [← hx, ← hy]
      exact hprev

theorem pathTo_of_lineage (he : t.Stores e) (h : Lineage t.Stores e chain) : t.PathTo e chain := by
  obtain ⟨first, rest, hchain, -, hcid⟩ := h.exists_cons
  have hstored : ∀ x ∈ chain, t.Stores x := fun x hx => h.known_of_mem he hx
  exact ⟨hstored, ⟨first, rest, hchain, hcid⟩, linked_of_lineage h, h.exists_concat⟩

theorem PathTo.prev_eq (h : t.PathTo e (front ++ [parent] ++ [e])) : e.prev = parent.cid := by
  have hlinked := h.linked
  rw [List.append_assoc] at hlinked
  have hpair : [parent, e].IsChain fun x y => y.prev = x.cid := hlinked.right_of_append
  exact (List.isChain_cons_cons.mp hpair).1

theorem PathTo.of_concat (h : t.PathTo e (front ++ [parent] ++ [e]))
    (hgenesis : parent.genesis = e.genesis) : t.PathTo parent (front ++ [parent]) := by
  obtain ⟨first, rest, hsplit, hcid⟩ := h.starts
  have hstarts : ∃ rest', front ++ [parent] = first :: rest' := by
    cases front with
    | nil => exact ⟨[], by simp_all⟩
    | cons x front => exact ⟨front ++ [parent], by simp_all⟩
  obtain ⟨rest', hrest⟩ := hstarts
  refine ⟨?_, ⟨first, rest', hrest, hcid.trans hgenesis.symm⟩, h.linked.left_of_append,
    ⟨front, rfl⟩⟩
  intro x hx
  exact h.stored x (List.mem_append_left _ hx)

/-- In sound tables a path to an event is its lineage, so there is only one. -/
theorem Sound.eq_of_pathTo (hs : t.Sound b) (hpath : t.PathTo e path)
    (h : Lineage t.Stores e chain) : path = chain := by
  obtain ⟨before, rfl⟩ := hpath.ends
  -- The path is followed from its end, in step with the lineage.
  induction h generalizing before with
  | @first e hprev hgenesis =>
      rcases List.eq_nil_or_concat' before with rfl | ⟨front, x, rfl⟩
      · rfl
      · have hx : t.Stores x := hpath.stored x (by simp)
        obtain ⟨c, hc⟩ := hs.binding.text x hx
        have hlink := hpath.prev_eq
        rw [hprev, hc] at hlink
        cases hlink
  | @next e parent chain hparent hprev hgenesis hl ih =>
      have he : t.Stores e := hpath.stored e (by simp)
      rcases List.eq_nil_or_concat' before with rfl | ⟨front, x, rfl⟩
      · obtain ⟨first, rest, hsplit, hcid⟩ := hpath.starts
        obtain ⟨rfl, rfl⟩ : e = first ∧ rest = [] := by simpa [eq_comm] using hsplit
        obtain ⟨c, hc⟩ := hs.binding.text parent hparent
        have hne : e.prev ≠ .null := by rw [hprev, hc]; simp
        exact absurd hcid.symm ((hs.wellFormed_of_stores he).genesis_ne_cid hne)
      · have hx : t.Stores x := hpath.stored x (by simp)
        have hlink := hpath.prev_eq
        obtain rfl := hs.binding.unique x parent hx hparent (hlink.symm.trans hprev)
        rw [ih front (hpath.of_concat hgenesis)]

theorem Sound.rooted (hs : t.Sound b) (he : t.Stores e) : t.Rooted b e := by
  obtain ⟨k, hk⟩ := he
  obtain ⟨chain, hl⟩ := hs.lineage k e hk
  cases hl with
  | first hprev hgenesis =>
      obtain ⟨g, row, hg, hrow⟩ := hs.streams k e hk
      obtain ⟨g', tip, chain, s, -, hp⟩ := hs.projects _ row hrow
      have hstream := (hs.wellFormed k e hk).streamOf_eq hg
      exact .inl ⟨hprev, hgenesis.symm, _, row, hstream, stream?_of_some hrow hp.isObject⟩
  | next hparent hprev hgenesis => exact .inr ⟨_, hparent, hprev, hgenesis⟩

end Tables

/-! ## Failures that are no break of a chain -/

/-- Whether a failure says that a chain is broken. -/
def Failure.breaksChain : Failure → Bool
  | .brokenChain .. => true
  | _ => false

/-- A computation does not fail for a broken chain. -/
def Unbroken {α : Type} (r : Except Failure α) : Prop :=
  ∀ f, r = .error f → f.breaksChain = false

namespace Unbroken

variable {α β : Type}

theorem ok (a : α) : Unbroken (.ok a) := by
  intro f hf
  cases hf

theorem error {f : Failure} (h : f.breaksChain = false) :
    Unbroken (.error f : Except Failure α) := by
  intro f' hf'
  cases hf'
  exact h

theorem bind {x : Except Failure α} {f : α → Except Failure β} (hx : Unbroken x)
    (hf : ∀ a, x = .ok a → Unbroken (f a)) : Unbroken (x >>= f) := by
  cases x with
  | error f => exact error (hx f rfl)
  | ok a => exact hf a rfl

theorem map {x : Except Failure α} (hx : Unbroken x) (f : α → β) : Unbroken (x.map f) := by
  cases x with
  | error f => exact error (hx f rfl)
  | ok a => exact ok (f a)

end Unbroken

namespace Backend

variable {α : Type} {b : Backend}

theorem refusal_unbroken (b : Backend) : Unbroken (.error b.refusal : Except Failure α) :=
  .error rfl

theorem column_unbroken (b : Backend) (j : Json) : Unbroken (b.column j) := by
  unfold column
  split
  all_goals first
    | exact .ok _
    | exact refusal_unbroken _
    | (split <;> first | exact .ok _ | exact .error rfl)

theorem comparison_unbroken (b : Backend) (wanted : Json) : Unbroken (b.comparison wanted) := by
  refine (column_unbroken b wanted).bind fun j _ => ?_
  split <;> exact .ok _

theorem compared_unbroken (c : Comparison) (get : α → Json) (rows : List α) :
    Unbroken (compared c get rows) := by
  induction rows with
  | nil => exact .ok _
  | cons row rest ih =>
      unfold compared
      split
      · split
        · exact refusal_unbroken _
        · exact ih.map _
      · exact ih

theorem comparedAll_unbroken (rows : List α) (cs : List (Comparison × (α → Json))) :
    Unbroken (comparedAll rows cs) := by
  induction cs generalizing rows with
  | nil => exact .ok _
  | cons c rest ih => exact (compared_unbroken c.1 c.2 rows).bind fun rows _ => ih rows

theorem seek_unbroken (b : Backend) (t : Table α) (id : Json) : Unbroken (b.seek t id) := by
  unfold seek
  split
  · exact .ok _
  · split
    · exact .ok _
    · exact .error rfl
  · have hselect : Unbroken (b.select [⟨id, fun row => keyColumn row.1⟩] t.rows) := by
      unfold select
      split
      · exact .ok _
      · refine Unbroken.bind ?_ fun cs _ => ?_
        · rw [List.mapM_cons, List.mapM_nil]
          exact ((comparison_unbroken b id).bind fun _ _ => .ok _).bind fun _ _ => .ok _
        · exact (comparedAll_unbroken _ _).bind fun rows _ => comparedAll_unbroken rows _
    split
    · exact .ok _
    · rename_i f hf
      exact .error (hselect f hf)

end Backend

namespace Engine

variable {en : Engine} {t : Tables} {e : Event} {chain : List Event} {g : String} {row : Stream}

theorem checkShape_unbroken (id : Json) : Unbroken (checkShape id) := by
  unfold checkShape
  split
  · exact .ok ()
  · exact .error rfl

theorem checkOpen_unbroken (en : Engine) : Unbroken en.checkOpen := by
  unfold checkOpen
  split
  · exact .ok ()
  · exact .error rfl

theorem startOf_unbroken {b : Backend} (hs : t.Sound b) (id cid : Json) :
    Unbroken (startOf b t id cid) := by
  refine (Backend.seek_unbroken b t.events cid).bind fun found hfound => ?_
  cases found with
  | none => exact .error rfl
  | some e =>
      have he : t.Stores e := Backend.exists_key_of_seek hfound
      obtain ⟨g, hg, -⟩ := (hs.wellFormed_of_stores he).genesis_text
      simp only [(hs.wellFormed_of_stores he).streamOf_eq hg, ok_bind]
      split
      · exact .ok e
      · exact .error rfl

/-- Whatever chain is asked for, in sound tables it is not broken. -/
theorem chainOf_unbroken {b : Backend} (hs : t.Sound b) (id : String) (tip : Json) :
    Unbroken (chainOf b t (.str id) tip) := by
  unfold chainOf
  cases hrow : t.streams.get? (.text id) with
  | none =>
      rw [Tables.stream?_of_none hrow]
      exact .error rfl
  | some row =>
      obtain ⟨g, last, chain, s, -, hp⟩ := hs.projects _ row hrow
      rw [Tables.stream?_of_some hrow hp.isObject]
      simp only [found, ok_bind]
      refine (startOf_unbroken hs _ _).bind fun start hstart => ?_
      obtain ⟨chain, hchain, -⟩ :=
        hs.exists_lineage_of_start (Tables.Sound.stores_of_startOf hstart)
      intro f hf
      rw [hchain] at hf
      cases hf

theorem loaded_unbroken (hs : en.tables.Sound en.backend) (id tip : Json) :
    Unbroken (en.loaded id tip) := by
  refine (checkShape_unbroken id).bind fun _ hshape => ?_
  obtain ⟨x, rfl⟩ := exists_text_of_checkShape hshape
  exact (checkOpen_unbroken en).bind fun _ _ => chainOf_unbroken hs x tip

/-- A rebuild of sound tables folds an unbroken chain and finds the tip where it was. -/
theorem refolded_unbroken (hs : en.tables.Sound en.backend) (id : String) :
    Unbroken (en.refolded (.str id)) := by
  unfold refolded
  cases hrow : en.tables.streams.get? (.text id) with
  | none =>
      refine (chainOf_unbroken hs id .null).bind fun chain hchain => ?_
      simp [chainOf, Tables.stream?_of_none hrow, found] at hchain
  | some row =>
      obtain ⟨g, tip, chain, s, hkey, hp⟩ := hs.projects _ row hrow
      obtain rfl : id = Ident.streamId g := by simpa using hkey
      obtain ⟨c, hc⟩ := hs.binding.text tip hp.stored
      have htip : row.tip = .str c := hp.tip_eq.trans hc
      rw [hs.chainOf_tip hrow hp, ok_bind, hp.fold, ok_bind, Tables.stream?_of_some hrow
        hp.isObject]
      simp only [found, ok_bind]
      have hswap : Unbroken (en.tables.swapTip en.backend (.str (Ident.streamId g)) s.tip s.tip
          s.content) := by
        rw [hp.tip_of_fold, hc, Tables.swapTip_of_eq hs.streamsNamed hrow htip]
        split
        · exact .ok _
        · exact Backend.refusal_unbroken _
      refine hswap.bind ?_
      rintro ⟨moved, t⟩ hmoved
      obtain ⟨rfl, rfl⟩ := swapTip_of_projects hs hrow hp hmoved
      dsimp only
      rw [if_pos rfl, hp.tip_of_fold, hc, Index.refreshed_eq]
      cases en.extract s.content with
      | error d => exact .error rfl
      | ok signal => exact .ok _

theorem rebuilt_unbroken (hs : en.tables.Sound en.backend) (id : Json) :
    Unbroken (en.rebuilt id) := by
  refine (checkShape_unbroken id).bind fun _ hshape => ?_
  obtain ⟨x, rfl⟩ := exists_text_of_checkShape hshape
  refine (checkOpen_unbroken en).bind fun _ _ => ?_
  exact (refolded_unbroken hs x).bind fun _ _ => .ok _

/-! ## Loading and rebuilding -/

theorem loadEvents_eq (en : Engine) (id tip : Json) :
    (en.loadEvents id tip).1 = en.loaded id tip := by
  obtain ⟨d, hd, -⟩ := observe_of_isPlain (en.readChain_isPlain id tip) en
  rw [loadEvents, hd]

theorem loaded_eq (hopen : en.checkOpen = .ok ()) (g : String) (tip : Json) :
    en.loaded (.str (Ident.streamId g)) tip =
      chainOf en.backend en.tables (.str (Ident.streamId g)) tip := by
  simp [loaded, checkShape, Ident.isStreamId_streamId, hopen]

/-- The chain that is loaded up to a stored event, of whatever branch, is its lineage. -/
theorem loaded_of_stores (hs : en.tables.Sound en.backend) (hopen : en.checkOpen = .ok ())
    (he : en.tables.Stores e) (hg : e.genesis = .str g)
    (hl : Lineage en.tables.Stores e chain) :
    en.loaded (.str (Ident.streamId g)) e.cid = .ok chain := by
  obtain ⟨c, hc, hne⟩ := (hs.wellFormed_of_stores he).cid_text
  obtain ⟨row, tip, hrow, -, -, hobj⟩ := exists_row_of_stores hs he hg
  have hpresent : e.cid.isPresent = true := by simp [hc, Json.isPresent, hne]
  rw [loaded_eq hopen]
  exact hs.chainOf_eq hrow hobj he hg hl (by rw [if_pos hpresent])

/-- A tip that is not the cid of a stored event of the stream is not found. -/
theorem chainOf_of_foreign {b : Backend} (hs : t.Sound b) {id tip : String}
    (hrow : t.streams.get? (.text id) = some row) (htip : tip ≠ "")
    (hforeign : ∀ x, t.Stores x → streamOf x = .ok id → x.cid ≠ .str tip) :
    chainOf b t (.str id) (.str tip) = .error (.eventNotFound (.str tip) (.str id)) := by
  obtain ⟨g, last, chain, s, -, hp⟩ := hs.projects _ row hrow
  have hpresent : (Json.str tip).isPresent = true := by simp [Json.isPresent, htip]
  have hstart : startOf b t (.str id) (.str tip) =
      .error (.eventNotFound (.str tip) (.str id)) := by
    unfold startOf
    rw [Tables.event?_text, ok_bind]
    cases hget : t.events.get? (.text tip) with
    | none => rfl
    | some x =>
        have hx : t.Stores x := ⟨_, hget⟩
        obtain ⟨g', hg', -⟩ := (hs.wellFormed_of_stores hx).genesis_text
        have hstream := (hs.wellFormed_of_stores hx).streamOf_eq hg'
        have hne : id ≠ Ident.streamId g' := by
          rintro rfl
          exact hforeign x hx hstream (hs.cid_of_get? hget)
        simp [hstream, hne]
  rw [chainOf, Tables.stream?_of_some hrow hp.isObject]
  simp [found, hpresent, hstart]

/-- What holds of the chains of an engine. -/
structure WellFounded (en : Engine) : Prop where
  rooted : ∀ e, en.tables.Stores e → en.tables.Rooted en.backend e
  /-- Exactly one path leads to a stored event, and it is loaded. -/
  loads : ∀ e, en.tables.Stores e → ∃ id path, streamOf e = .ok id ∧
    (en.loadEvents (.str id) e.cid).1 = .ok path ∧ en.tables.PathTo e path ∧
    (path.map Event.cid).Nodup ∧ ∀ path', en.tables.PathTo e path' → path' = path
  /-- Up to anything else a stream has no chain. -/
  foreign : ∀ id row tip, en.tables.stream? en.backend (.str id) = .ok (some row) → tip ≠ "" →
    (∀ x, en.tables.Stores x → streamOf x = .ok id → x.cid ≠ .str tip) →
    (en.loadEvents (.str id) (.str tip)).1 = .error (.eventNotFound (.str tip) (.str id))
  load_unbroken : ∀ id tip, Unbroken (en.loadEvents id tip).1
  rebuild_unbroken : ∀ id, Unbroken (en.rebuild id).1

theorem Steady.wellFounded (hst : en.Steady) (hopen : en.checkOpen = .ok ()) :
    en.WellFounded := by
  have hs := hst.sound
  constructor
  case rooted => exact fun e he => hs.rooted he
  case loads =>
    intro e he
    obtain ⟨g, hg, -⟩ := (hs.wellFormed_of_stores he).genesis_text
    obtain ⟨k, hk⟩ := he
    obtain ⟨chain, hl⟩ := hs.lineage k e hk
    refine ⟨Ident.streamId g, chain, (hs.wellFormed k e hk).streamOf_eq hg, ?_,
      Tables.pathTo_of_lineage ⟨k, hk⟩ hl, hl.nodup_cids hs.binding ⟨k, hk⟩, ?_⟩
    · rw [loadEvents_eq]
      exact loaded_of_stores hs hopen ⟨k, hk⟩ hg hl
    · exact fun path' hpath => hs.eq_of_pathTo hpath hl
  case foreign =>
    intro id row tip hrow htip hforeign
    obtain ⟨row', hrow', -⟩ := Tables.exists_row_of_stream? hrow
    obtain ⟨g, last, chain, s, hkey, -⟩ := hs.projects _ row' hrow'
    obtain rfl : id = Ident.streamId g := by simpa using hkey
    rw [loadEvents_eq, loaded_eq hopen]
    exact chainOf_of_foreign hs hrow' htip hforeign
  case load_unbroken =>
    intro id tip
    rw [loadEvents_eq]
    exact loaded_unbroken hs id tip
  case rebuild_unbroken =>
    intro id
    obtain ⟨d, hd, -⟩ := en.rebuild_eq id
    rw [hd]
    exact (rebuilt_unbroken hs id).map _

/--
Whatever has been submitted and rebuilt since the store was empty, the stored events hang
together in chains: each is reached by one path, which is found, and none is broken.
-/
theorem Fresh.chains_wellFounded (h : en.Fresh) (hopen : en.store.isOpen = true)
    (ops : List Operation) : (en.after ops).WellFounded := by
  have hisOpen : (en.after ops).store.isOpen = true :=
    (after_sameSetup en ops).isOpen_eq.trans hopen
  exact (h.steady.after ops).wellFounded (by simp [checkOpen, hisOpen])

/-- A branch that lost the tip and was then extended has its own chain. -/
theorem chains_wellFounded_sample :
    let en := (sampleEngine .sqlite (some (.empty (.ofNat 1)))).after
      [.submit sampleGenesis sampleOwner, .submit (sampleUpdate "second" "first" 1) .none,
        .submit (sampleUpdate "other" "first" 2) .none,
        .submit (sampleUpdate "third" "other" 3) .none,
        .rebuild (.str (Ident.streamId "first"))]
    en.WellFounded ∧ (en.loadEvents (.str (Ident.streamId "first")) (.str "third")).1 =
      .ok [sampleGenesis, sampleUpdate "other" "first" 2, sampleUpdate "third" "other" 3] := by
  intro en
  have hfresh := sampleEngine_fresh .sqlite (.ofNat 1)
  exact ⟨hfresh.chains_wellFounded rfl _, by decide +kernel⟩

end Engine

end ChainFold
