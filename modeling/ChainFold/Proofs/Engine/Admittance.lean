import ChainFold.Proofs.Engine.Shapes

/-!
# What validation lets through

Validation takes an event apart in a fixed order and answers the first rule that is broken.  It
lets through exactly the events that break none: identifiers and blocks that fit, and links by
which the event either starts a chain or follows another event of one.  The parts that ask later
whether an event starts a chain ask in different words; of such an event they get one answer.
-/

namespace ChainFold

/-! ## Rules -/

namespace Ident

variable {limit : Nat} {j : Json}

theorem fault?_of_isBounded (h : j.IsBounded limit) (allowNull : Bool) :
    fault? allowNull (.ofNat limit) j = none := by
  obtain ⟨s, rfl, hpos, hle⟩ := h
  have hs : s ≠ "" := by
    rintro rfl
    simp at hpos
  have hlength : (Amount.ofNat limit).isBelow s.length = false := by
    rw [Amount.isBelow_ofNat]
    exact decide_eq_false (by omega)
  simp only [fault?, if_neg hs, hlength, Bool.false_eq_true, if_false]

theorem fault?_eq_none_iff : fault? false (.ofNat limit) j = none ↔ j.IsBounded limit :=
  ⟨isBounded_of_fault?, fun h => fault?_of_isBounded h false⟩

theorem fault?_or_null_eq_none_iff :
    fault? true (.ofNat limit) j = none ↔ j.IsNullOrBounded limit := by
  refine ⟨isNullOrBounded_of_fault?, ?_⟩
  rintro (rfl | h)
  · rfl
  · exact fault?_of_isBounded h true

end Ident

namespace Event

/-- The links of an event say that it starts a chain, or that it follows another event of one. -/
def IsLinked (e : Event) : Prop :=
  (e.prev = .null ∧ e.cid = e.genesis) ∨ (e.prev ≠ .null ∧ e.cid ≠ e.genesis ∧ e.cid ≠ e.prev)

/-- An event that breaks no rule, under a limit on the size of its blocks. -/
structure Proper (limit : Option Nat) (e : Event) : Prop extends e.FitsColumns where
  sizes : ∀ n ∈ limit, ∀ bs, .bytes bs ∈ e.blocks → bs.length ≤ n
  linked : e.IsLinked

variable {limit : Option Nat} {e : Event}

theorem idFault?_eq_none_iff : idFault? e = none ↔
    e.cid.IsBounded 70 ∧ e.genesis.IsBounded 70 ∧ e.prev.IsNullOrBounded 70 := by
  rw [← Ident.fault?_eq_none_iff, ← Ident.fault?_eq_none_iff, ← Ident.fault?_or_null_eq_none_iff]
  show idFault? e = none ↔ Ident.fault? false Ident.maxLength e.cid = none ∧
    Ident.fault? false Ident.maxLength e.genesis = none ∧
      Ident.fault? true Ident.maxLength e.prev = none
  unfold idFault?
  cases Ident.fault? false Ident.maxLength e.cid with
  | some reason => simp
  | none => cases Ident.fault? false Ident.maxLength e.genesis <;> simp

theorem blockFault?_eq_none_iff {i : Nat} {b : Block} :
    blockFault? (limit.map .ofNat) i b = none ↔
      ∃ bs, b = .bytes bs ∧ ∀ n ∈ limit, bs.length ≤ n := by
  cases b with
  | absent | other => simp [blockFault?]
  | bytes bs =>
      cases limit with
      | none => simp [blockFault?]
      | some n => simp [blockFault?, Amount.isBelow_ofNat]

theorem firstBlockFault?_eq_none_iff {i : Nat} {blocks : List Block} :
    firstBlockFault? (limit.map .ofNat) i blocks = none ↔
      ∀ b ∈ blocks, ∃ bs, b = .bytes bs ∧ ∀ n ∈ limit, bs.length ≤ n := by
  induction blocks generalizing i with
  | nil => simp [firstBlockFault?]
  | cons b rest ih =>
      rw [List.forall_mem_cons, ← ih (i := i + 1), ← blockFault?_eq_none_iff (i := i),
        firstBlockFault?]
      cases blockFault? (limit.map .ofNat) i b <;> simp

theorem blocksFault?_eq_none_iff : blocksFault? (limit.map .ofNat) e = none ↔
    e.blocks ≠ [] ∧ ∀ b ∈ e.blocks, ∃ bs, b = .bytes bs ∧ ∀ n ∈ limit, bs.length ≤ n := by
  unfold blocksFault?
  cases e.blocks with
  | nil => simp
  | cons b rest => simp [firstBlockFault?_eq_none_iff]

theorem linkFault?_eq_none_iff : linkFault? e = none ↔ e.IsLinked := by
  unfold linkFault? IsLinked
  by_cases hprev : e.prev = .null
  · rw [if_pos hprev]
    by_cases hgenesis : e.genesis = e.cid
    · simp [hprev, hgenesis]
    · simp [hprev, hgenesis, Ne.symm hgenesis]
  · rw [if_neg hprev]
    by_cases hgenesis : e.cid = e.genesis
    · simp [hprev, hgenesis]
    · by_cases hself : e.prev = e.cid
      · simp [hgenesis, hself]
      · simp [hprev, hgenesis, hself, Ne.symm hself]

theorem fault?_eq_none_iff : fault? (limit.map .ofNat) e = none ↔ e.Proper limit := by
  unfold fault?
  rw [Option.or_eq_none_iff, Option.or_eq_none_iff, idFault?_eq_none_iff,
    blocksFault?_eq_none_iff, linkFault?_eq_none_iff]
  constructor
  · rintro ⟨⟨⟨hcid, hgenesis, hprev⟩, hne, hblocks⟩, hlinked⟩
    refine ⟨⟨hcid, hgenesis, hprev, hne, fun b hb => ?_⟩, fun n hn bs hbs => ?_, hlinked⟩
    · obtain ⟨bs, hbs, -⟩ := hblocks b hb
      exact ⟨bs, hbs⟩
    · obtain ⟨bs', heq, hle⟩ := hblocks _ hbs
      obtain rfl := Block.bytes.inj heq
      exact hle n hn
  · intro h
    refine ⟨⟨⟨h.cid, h.genesis, h.prev⟩, h.blocks_ne_nil, fun b hb => ?_⟩, h.linked⟩
    obtain ⟨bs, rfl⟩ := h.blocks_bytes b hb
    exact ⟨bs, rfl, fun n hn => h.sizes n hn bs hb⟩

theorem Proper.wellFormed (h : e.Proper limit) : e.WellFormed :=
  wellFormed_of_fault? (fault?_eq_none_iff.mpr h)

end Event

/-! ## One answer -/

namespace Payload

variable {cid : Json} {atGenesis : Bool} {p : Payload}

theorem header_of_ofMembers {ms : Members} (h : ofMembers cid atGenesis ms = .ok p) :
    p.header.isSome = atGenesis := by
  unfold ofMembers at h
  simp only at h
  split at h
  · simp at h
  · split at h
    · rename_i hgenesis
      split at h
      · simp at h
      · split at h
        · obtain rfl := Except.ok.inj h
          exact hgenesis.symm
        · simp at h
    · rename_i hgenesis
      have hlater : atGenesis = false := Bool.eq_false_iff.mpr hgenesis
      split at h
      · obtain rfl := Except.ok.inj h
        exact hlater.symm
      · obtain rfl := Except.ok.inj h
        exact hlater.symm
      · simp at h

theorem header_of_ofBytes {bs : Bytes} (h : ofBytes cid atGenesis bs = .ok p)
    (hread : p.unread = false) : p.header.isSome = atGenesis := by
  unfold ofBytes at h
  split at h
  · obtain rfl := Except.ok.inj h
    cases hread
  · simp at h
  · exact header_of_ofMembers h
  · simp at h

end Payload

namespace Linkage

variable {b : Backend} {t : Tables} {e : Event}

/-- An event that is not stored is linked as a first one exactly if it has no predecessor. -/
theorem ofEvent_eq_genesis_iff (hwf : e.WellFormed) (hnew : t.event? b e.cid = .ok none) :
    ofEvent b t e = .ok .genesis ↔ e.prev = .null := by
  obtain ⟨c, hc, -⟩ := hwf.cid_text
  rw [hc, Tables.event?_text] at hnew
  have hnew := Except.ok.inj hnew
  refine ⟨fun hlink => ?_, ofEvent_of_null hwf hc hnew⟩
  rcases hwf.prev_text with hprev | ⟨p, hprev⟩
  · exact hprev
  · cases hparent : t.events.get? (.text p) with
    | none =>
        rw [ofEvent_of_missing hwf hc hnew hprev hparent] at hlink
        cases hlink
    | some parent =>
        rw [ofEvent_of_parent hwf hc hnew hprev hparent] at hlink
        split at hlink <;> cases hlink

theorem prev_ne_null_of_extension (hwf : e.WellFormed) (h : ofEvent b t e = .ok .extension) :
    e.prev ≠ .null := by
  intro hprev
  have hnew := Engine.event?_of_ofEvent h (by simp)
  rw [(ofEvent_eq_genesis_iff hwf hnew).mpr hprev] at h
  cases h

end Linkage

namespace Fold.State

variable {s s' : State} {e : Event}

/-- An event starts a fold exactly if it has no predecessor and its payload can be read. -/
theorem exists_ofGenesis_iff (hwf : e.WellFormed) :
    (∃ s, ofGenesis e = .ok s) ↔ e.prev = .null ∧ ∃ p, e.payload = .ok p := by
  have hgenesis : e.isGenesis = true ↔ e.prev = .null := by
    rw [hwf.isGenesis_eq, decide_eq_true_eq]
  constructor
  · rintro ⟨s, hs⟩
    refine ⟨hgenesis.mp (isGenesis_of_ofGenesis hs), ?_⟩
    cases hp : e.payload with
    | ok p => exact ⟨p, rfl⟩
    | error f => simp [ofGenesis, isGenesis_of_ofGenesis hs, hp] at hs
  · rintro ⟨hprev, p, hp⟩
    exact ⟨_, Engine.ofGenesis_eq (hgenesis.mpr hprev) hp⟩

theorem prev_eq_of_advance {tip : String} (htip : s.tip = .str tip) (h : s.advance e = .ok s') :
    e.prev = .str tip := by
  have hsame := looselySame_of_advance h
  rwa [htip, Json.looselySame_text_right, decide_eq_true_eq] at hsame

end Fold.State

namespace Event

/--
All parts that ask whether an event starts a chain are told so by the same events: the checks of
its links, the reader of its payload, the linkage to what is stored, and the fold.
-/
structure StartsOrFollows (e : Event) : Prop where
  cid_eq_iff : e.cid = e.genesis ↔ e.prev = .null
  isGenesis_iff : e.isGenesis = true ↔ e.prev = .null
  payload_eq : e.payload = Payload.read e.cid (decide (e.prev = .null)) e.blocks.head?
  header_iff : ∀ p, e.payload = .ok p → p.unread = false →
    (p.header.isSome = true ↔ e.prev = .null)
  genesis_iff : ∀ b t, Tables.event? b t e.cid = .ok none →
    (Linkage.ofEvent b t e = .ok .genesis ↔ e.prev = .null)
  extension : ∀ b t, Linkage.ofEvent b t e = .ok .extension → e.prev ≠ .null
  starts_iff : (∃ s, Fold.State.ofGenesis e = .ok s) ↔
    e.prev = .null ∧ ∃ p, e.payload = .ok p
  follows : ∀ s s' tip, s.tip = .str tip → Fold.State.advance s e = .ok s' → e.prev = .str tip

variable {limit : Option Nat} {e : Event}

theorem WellFormed.startsOrFollows (h : e.WellFormed) : e.StartsOrFollows where
  cid_eq_iff := by
    refine ⟨fun heq => ?_, fun hprev => (h.genesis_eq_cid hprev).symm⟩
    by_contra hprev
    exact h.genesis_ne_cid hprev heq.symm
  isGenesis_iff := by rw [h.isGenesis_eq, decide_eq_true_eq]
  payload_eq := by rw [payload, h.isGenesis_eq]
  header_iff := by
    intro p hp hread
    obtain ⟨b, rest, hblocks⟩ := List.exists_cons_of_ne_nil h.blocks_ne_nil
    obtain ⟨bs, rfl⟩ := h.blocks_bytes b (by simp [hblocks])
    rw [payload_of_bytes (by rw [hblocks]; rfl)] at hp
    rw [Payload.header_of_ofBytes hp hread, h.isGenesis_eq, decide_eq_true_eq]
  genesis_iff b t hnew := Linkage.ofEvent_eq_genesis_iff h hnew
  extension b t hlink := Linkage.prev_ne_null_of_extension h hlink
  starts_iff := Fold.State.exists_ofGenesis_iff h
  follows s s' tip htip hs := Fold.State.prev_eq_of_advance htip hs

/--
Validation answers an event itself exactly if the event is proper, and calls every other event
malformed.  Of a proper event no two parts differ on whether it starts a chain.
-/
theorem proper_let_through (limit : Option Nat) (e : Event) :
    (e.validate (limit.map .ofNat) = .ok e ↔ e.Proper limit) ∧
    (¬ e.Proper limit → ∃ reason : String,
      e.validate (limit.map .ofNat) = .error (.malformedEvent e.cidText reason)) ∧
    (e.Proper limit → e.StartsOrFollows) := by
  have hvalidate : e.validate (limit.map .ofNat) = .ok e ↔ e.Proper limit := by
    rw [← fault?_eq_none_iff, validate]
    cases fault? (limit.map .ofNat) e <;> simp
  refine ⟨hvalidate, fun hnot => ?_, fun h => h.wellFormed.startsOrFollows⟩
  rw [← fault?_eq_none_iff] at hnot
  obtain ⟨reason, hreason⟩ := Option.ne_none_iff_exists'.mp hnot
  exact ⟨reason, by rw [validate, hreason]⟩

/-- Lengths are counted in characters and octets, up to the limits and not beyond them. -/
theorem proper_let_through_sample :
    let cid := String.ofList (List.replicate 70 '😀')
    let e : Event := ⟨.str cid, .null, .str cid, [.bytes [1, 2], .bytes []]⟩
    let follower : Event := { e with prev := .str "before" }
    e.Proper (some 2) ∧ e.StartsOrFollows ∧ ¬ e.Proper (some 1) ∧ ¬ follower.Proper none ∧
      ∃ reason : String, follower.validate none = .error (.malformedEvent cid reason) := by
  intro cid e follower
  have hlength : cid.length = 70 := by rw [String.length_ofList, List.length_replicate]
  have hcid : (Json.str cid).IsBounded 70 := ⟨cid, rfl, by omega, by omega⟩
  have hproper : e.Proper (some 2) :=
    { cid := hcid
      genesis := hcid
      prev := .inl rfl
      blocks_ne_nil := by simp [e]
      blocks_bytes := by simp [e]
      sizes := by simp [e]
      linked := .inl ⟨rfl, rfl⟩ }
  have hlarge : ¬ e.Proper (some 1) := fun h =>
    absurd (h.sizes 1 rfl [1, 2] (by simp [e])) (by decide)
  have hfollower : ¬ follower.Proper none := by
    intro h
    rcases h.linked with ⟨hprev, -⟩ | ⟨-, hne, -⟩
    · cases hprev
    · exact hne rfl
  exact ⟨hproper, (proper_let_through (some 2) e).2.2 hproper, hlarge, hfollower,
    (proper_let_through none follower).2.1 hfollower⟩

end Event

end ChainFold
