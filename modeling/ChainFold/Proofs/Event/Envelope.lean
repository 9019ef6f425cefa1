import ChainFold.Proofs.Archive
import ChainFold.Proofs.Event.WellFormed
import ChainFold.Proofs.Json.Writing

/-!
# Events read back from their envelopes

An event whose identifiers are texts and whose blocks are bytes or missing has an
envelope, from which it is read back part by part.  So the envelope determines the
event, and what an archive keeps of two events differs exactly if the events do.
-/

namespace ChainFold

/-- The JSON form of a block is read as the block, and is written in one way only. -/
structure Block.Encoded (b : Block) (j : Json) : Prop where
  toJson : b.toJson = .ok j
  ofJson : Block.ofJson j = .ok b
  sorted : j.sortKeys = j
  readBack : Json.ReadBack true j

theorem Block.encoded_bytes (bs : Bytes) : Block.Encoded (.bytes bs) (base64Json bs) where
  toJson := rfl
  ofJson := by
    rw [base64Json, Block.ofJson, String.toList_ofList, Text.Base64.decode_encode]
  sorted := rfl
  readBack := Json.readBack_str _

theorem Block.encoded_absent : Block.Encoded .absent .null where
  toJson := rfl
  ofJson := rfl
  sorted := rfl
  readBack := Json.readBack_null

theorem Block.exists_encoded {blocks : List Block}
    (h : ∀ b ∈ blocks, b = .absent ∨ ∃ bs, b = .bytes bs) :
    ∃ js, List.Forall₂ Block.Encoded blocks js := by
  induction blocks with
  | nil => exact ⟨[], .nil⟩
  | cons b rest ih =>
      obtain ⟨hb, hrest⟩ := List.forall_mem_cons.mp h
      obtain ⟨js, hjs⟩ := ih hrest
      rcases hb with rfl | ⟨bs, rfl⟩
      · exact ⟨.null :: js, .cons Block.encoded_absent hjs⟩
      · exact ⟨base64Json bs :: js, .cons (Block.encoded_bytes bs) hjs⟩

section Encoded

variable {blocks : List Block} {js : List Json}

theorem Block.mapM_toJson (h : List.Forall₂ Block.Encoded blocks js) :
    blocks.mapM Block.toJson = .ok js := by
  induction h with
  | nil => rfl
  | cons hb _ ih => simp [List.mapM_cons, hb.toJson, ih]

theorem Block.mapM_ofJson (h : List.Forall₂ Block.Encoded blocks js) :
    js.mapM Block.ofJson = .ok blocks := by
  induction h with
  | nil => rfl
  | cons hb _ ih => simp [List.mapM_cons, hb.ofJson, ih]

theorem Block.map_sortKeys (h : List.Forall₂ Block.Encoded blocks js) :
    js.map Json.sortKeys = js := by
  induction h with
  | nil => rfl
  | cons hb _ ih => rw [List.map_cons, hb.sorted, ih]

theorem Block.readBack_of_mem (h : List.Forall₂ Block.Encoded blocks js) :
    ∀ j ∈ js, Json.ReadBack true j := by
  induction h with
  | nil => simp
  | cons hb _ ih => exact List.forall_mem_cons.mpr ⟨hb.readBack, ih⟩

end Encoded

namespace Event

/-- The parts of an event are of the kinds that an envelope holds. -/
structure Enclosable (e : Event) : Prop where
  cid_text : ∃ c, e.cid = .str c
  genesis_text : ∃ g, e.genesis = .str g
  prev_text : e.prev = .null ∨ ∃ p, e.prev = .str p
  blocks_bytes : ∀ b ∈ e.blocks, b = .absent ∨ ∃ bs, b = .bytes bs

theorem WellFormed.enclosable {e : Event} (h : e.WellFormed) : e.Enclosable where
  cid_text := by
    obtain ⟨c, hc, -⟩ := h.cid_text
    exact ⟨c, hc⟩
  genesis_text := by
    obtain ⟨g, hg, -⟩ := h.genesis_text
    exact ⟨g, hg⟩
  prev_text := h.prev_text
  blocks_bytes := fun b hb => .inr (h.blocks_bytes b hb)

/-- The members of an envelope, as they are written. -/
def enclosed (e : Event) (js : List Json) : Members :=
  [("blocks", .arr js), ("cid", e.cid), ("genesis", e.genesis), ("prev", e.prev)]

/-- An identifier of an event is written in one way only, and read back. -/
theorem readBack_identifier {j : Json} (h : j = .null ∨ ∃ s, j = .str s) :
    j.sortKeys = j ∧ Json.ReadBack true j := by
  rcases h with rfl | ⟨s, rfl⟩
  · exact ⟨rfl, Json.readBack_null⟩
  · exact ⟨rfl, Json.readBack_str s⟩

/-- An event is read back from the octets that it is archived under. -/
theorem Enclosable.exists_envelope {e : Event} (h : e.Enclosable) :
    ∃ bs, e.envelope = .ok bs ∧ Event.ofEnvelope bs = .ok e := by
  obtain ⟨js, hjs⟩ := Block.exists_encoded h.blocks_bytes
  obtain ⟨hcid, hcidBack⟩ := readBack_identifier (.inr h.cid_text)
  obtain ⟨hgenesis, hgenesisBack⟩ := readBack_identifier (.inr h.genesis_text)
  obtain ⟨hprev, hprevBack⟩ := readBack_identifier h.prev_text
  have hjson : e.toJson =
      .ok (.obj
        [("cid", e.cid), ("prev", e.prev), ("genesis", e.genesis), ("blocks", .arr js)]) := by
    rw [toJson, Block.mapM_toJson hjs]
    rfl
  have hsorted : (Json.obj [("cid", e.cid), ("prev", e.prev), ("genesis", e.genesis),
      ("blocks", .arr js)]).sortKeys = .obj (e.enclosed js) := by
    rw [Json.sortKeys_obj]
    simp only [List.map_cons, List.map_nil, Json.sortKeys_arr, Block.map_sortKeys hjs, hcid,
      hgenesis, hprev]
    have hgenesisBlocks : ¬ "genesis" < "blocks" := by decide
    have hprevBlocks : ¬ "prev" < "blocks" := by decide
    have hprevGenesis : ¬ "prev" < "genesis" := by decide
    have hcidBlocks : ¬ "cid" < "blocks" := by decide
    have hcidGenesis : "cid" < "genesis" := by decide
    simp only [Members.sortByKey, List.foldr, Members.insertByKey, hgenesisBlocks, hprevBlocks,
      hprevGenesis, hcidBlocks, hcidGenesis, if_true, if_false, enclosed]
  have hback : Json.ReadBack true (.obj (e.enclosed js)) := by
    refine Json.readBack_obj (by simp [enclosed, Members.keys]) ?_
    simp only [enclosed, List.forall_mem_cons]
    exact ⟨Json.readBack_arr (Block.readBack_of_mem hjs), hcidBack, hgenesisBack, hprevBack,
      by simp⟩
  have hread := Json.readBytes_archived (hsorted.symm ▸ hback)
  rw [hsorted] at hread
  have hevent : ofJson (.obj (e.enclosed js)) = .ok e := by
    have hblocks : blocksOf (e.enclosed js) = .ok e.blocks := Block.mapM_ofJson hjs
    rw [ofJson, hblocks]
    rfl
  refine ⟨_, by rw [envelope, hjson]; rfl, ?_⟩
  rw [ofEnvelope, hread]
  dsimp only
  rw [hevent]

theorem Enclosable.eq_of_envelope {e e' : Event} (h : e.Enclosable) (h' : e'.Enclosable)
    {bs : Bytes} (hbs : e.envelope = .ok bs) (hbs' : e'.envelope = .ok bs) : e = e' := by
  obtain ⟨cs, hcs, hread⟩ := h.exists_envelope
  obtain ⟨cs', hcs', hread'⟩ := h'.exists_envelope
  obtain rfl : bs = cs := Except.ok.inj (hbs.symm.trans hcs)
  obtain rfl : bs = cs' := Except.ok.inj (hbs'.symm.trans hcs')
  exact Except.ok.inj (hread.symm.trans hread')

/-! ## Equality by value -/

theorem allSame_self {blocks : List Block} (h : ∀ b ∈ blocks, b = .absent ∨ ∃ bs, b = .bytes bs) :
    Block.allSame blocks blocks = true := by
  induction blocks with
  | nil => rfl
  | cons b rest ih =>
      obtain ⟨hb, hrest⟩ := List.forall_mem_cons.mp h
      rw [Block.allSame, ih hrest, Bool.and_true]
      rcases hb with rfl | ⟨bs, rfl⟩
      · rfl
      · simp [Block.same]

theorem eq_of_allSame {as bs : List Block} (hb : ∀ b ∈ bs, b = .absent ∨ ∃ x, b = .bytes x)
    (h : Block.allSame as bs = true) : as = bs := by
  induction as generalizing bs with
  | nil =>
      cases bs with
      | nil => rfl
      | cons b bs => simp [Block.allSame] at h
  | cons a as ih =>
      cases bs with
      | nil => simp [Block.allSame] at h
      | cons b bs =>
          obtain ⟨hkind, hbs⟩ := List.forall_mem_cons.mp hb
          simp only [Block.allSame, Bool.and_eq_true] at h
          have hab : a = b := by
            rcases hkind with rfl | ⟨y, rfl⟩
            · cases a with
              | absent => rfl
              | bytes | other => simp [Block.same] at h
            · cases a with
              | bytes x => simpa [Block.same] using h.1
              | absent | other => simp [Block.same] at h
          rw [hab, ih hbs h.2]

/-- An event that is equal by value to one that has an envelope is that event. -/
theorem Enclosable.eq_of_same {e e' : Event} (h : e.Enclosable) (hsame : e'.same e = true) :
    e' = e := by
  obtain ⟨c, hc⟩ := h.cid_text
  obtain ⟨g, hg⟩ := h.genesis_text
  simp only [Event.same, Bool.and_eq_true] at hsame
  obtain ⟨⟨⟨hcid, hprev⟩, hgenesis⟩, hblocks⟩ := hsame
  have hcid : e'.cid = e.cid := by
    rw [hc] at hcid ⊢
    exact Json.eq_of_sameWithin_text hcid
  have hgenesis : e'.genesis = e.genesis := by
    rw [hg] at hgenesis ⊢
    exact Json.eq_of_sameWithin_text hgenesis
  have hprev : e'.prev = e.prev := by
    rcases h.prev_text with hp | ⟨p, hp⟩
    · rw [hp] at hprev ⊢
      exact Json.eq_of_sameWithin_null hprev
    · rw [hp] at hprev ⊢
      exact Json.eq_of_sameWithin_text hprev
  have hblocks := eq_of_allSame h.blocks_bytes hblocks
  cases e
  cases e'
  simp_all

theorem Enclosable.same_self {e : Event} (h : e.Enclosable) : e.same e = true := by
  obtain ⟨c, hc⟩ := h.cid_text
  obtain ⟨g, hg⟩ := h.genesis_text
  have hprev : e.prev.sameWithin e.prev = true := by
    rcases h.prev_text with hp | ⟨p, hp⟩
    · rw [hp]
      rfl
    · simp [hp, Json.sameWithin_text]
  simp [Event.same, hc, hg, hprev, Json.sameWithin_text, allSame_self h.blocks_bytes]

/-- Equality by value is equality, as far as events have envelopes. -/
theorem Enclosable.same_eq {e e' : Event} (h : e.Enclosable) (h' : e'.Enclosable) :
    e.same e' = decide (e = e') := by
  by_cases heq : e = e'
  · subst heq
    simp [h.same_self]
  · have hne : ¬ e.same e' = true := fun hsame => heq (h'.eq_of_same hsame)
    simp [hne, heq]

/-! ## Archived events -/

/-- Where nothing was, an archive keeps the envelope of the event that it takes. -/
theorem Enclosable.get_putEvent {e : Event} (h : e.Enclosable) {a a' : Archive} {written : Bool}
    (hnone : a.get e.cid = .ok none) (hput : a.putEvent e = .ok (written, a')) :
    ∃ bs, e.envelope = .ok bs ∧ a'.get e.cid = .ok (some bs) := by
  obtain ⟨bs, hbs, -⟩ := h.exists_envelope
  obtain ⟨c, hc⟩ := h.cid_text
  rw [Archive.putEvent, hbs, hc] at hput
  rw [hc] at hnone ⊢
  exact ⟨bs, hbs, Archive.get_put_of_none hnone hput⟩

/-- Two archives that were free keep the same of two events exactly if the events are equal. -/
theorem Enclosable.get_putEvent_eq_iff {e e' : Event} (h : e.Enclosable) (h' : e'.Enclosable)
    {a a' b b' : Archive} {written written' : Bool} (ha : a.get e.cid = .ok none)
    (hb : b.get e'.cid = .ok none) (hput : a.putEvent e = .ok (written, a'))
    (hput' : b.putEvent e' = .ok (written', b')) : a'.get e.cid = b'.get e'.cid ↔ e = e' := by
  obtain ⟨bs, hbs, hget⟩ := h.get_putEvent ha hput
  obtain ⟨bs', hbs', hget'⟩ := h'.get_putEvent hb hput'
  rw [hget, hget']
  constructor
  · intro heq
    obtain rfl := Option.some.inj (Except.ok.inj heq)
    exact h.eq_of_envelope h' hbs hbs'
  · rintro rfl
    obtain rfl := Except.ok.inj (hbs.symm.trans hbs')
    rfl

/--
An event is read back from its envelope, whatever its texts and its blocks are.  So two events
have the same envelope, and are archived under the same octets, exactly if they are equal.
-/
theorem Enclosable.envelope_faithful {e : Event} (h : e.Enclosable) :
    (∃ bs, e.envelope = .ok bs ∧ Event.ofEnvelope bs = .ok e) ∧
    ∀ e' : Event, e'.Enclosable →
      (e.envelope = e'.envelope ↔ e = e') ∧ (e.same e' = true ↔ e = e') ∧
      ∀ (a a' b b' : Archive) (written written' : Bool),
        a.get e.cid = .ok none → b.get e'.cid = .ok none →
        a.putEvent e = .ok (written, a') → b.putEvent e' = .ok (written', b') →
          (a'.get e.cid = b'.get e'.cid ↔ e = e') := by
  refine ⟨h.exists_envelope, fun e' h' => ⟨?_, ?_, ?_⟩⟩
  · constructor
    · intro heq
      obtain ⟨bs, hbs, -⟩ := h.exists_envelope
      exact h.eq_of_envelope h' hbs (heq.symm.trans hbs)
    · exact congrArg envelope
  · rw [h.same_eq h', decide_eq_true_iff]
  · intro a a' b b' written written' ha hb hput hput'
    exact h.get_putEvent_eq_iff h' ha hb hput hput'

/-- A missing block and an empty one are told apart, beside texts that have to be escaped. -/
theorem envelope_faithful_sample :
    let cid := "\"\\/\u0001é\u2028😀"
    let blocks := [.bytes [], .bytes [0], .bytes [255, 254], .bytes [1, 2, 3], .absent]
    let e : Event := ⟨.str cid, .null, .str "", blocks⟩
    let e' : Event := { e with blocks := blocks.dropLast ++ [.bytes []] }
    let disk := Archive.below "archive" true
    (∃ bs, e.envelope = .ok bs ∧ ofEnvelope bs = .ok e) ∧ e.envelope ≠ e'.envelope ∧
      e.same e' = false ∧
      ∃ w w' a a', Archive.inMemory.putEvent e = .ok (w, a) ∧ disk.putEvent e' = .ok (w', a') ∧
        a.get e.cid ≠ a'.get e'.cid := by
  intro cid blocks e e' disk
  have hkinds : ∀ b ∈ blocks, b = .absent ∨ ∃ bs, b = .bytes bs := by simp [blocks]
  have hkinds' : ∀ b ∈ e'.blocks, b = .absent ∨ ∃ bs, b = .bytes bs := by simp [e', blocks]
  have h : e.Enclosable := ⟨⟨cid, rfl⟩, ⟨"", rfl⟩, .inl rfl, hkinds⟩
  have h' : e'.Enclosable := ⟨⟨cid, rfl⟩, ⟨"", rfl⟩, .inl rfl, hkinds'⟩
  have hne : e ≠ e' := by decide
  obtain ⟨hread, hall⟩ := h.envelope_faithful
  obtain ⟨henvelope, hsame, harchived⟩ := hall e' h'
  obtain ⟨bs, hbs, -⟩ := h.exists_envelope
  obtain ⟨bs', hbs', -⟩ := h'.exists_envelope
  obtain ⟨w, a, hput, -⟩ := Archive.TakesAll.exists_put (a := Archive.inMemory) trivial cid bs
  obtain ⟨w', a', hput', -⟩ := Archive.TakesAll.exists_put (a := disk) rfl cid bs'
  have hput : Archive.inMemory.putEvent e = .ok (w, a) := by rw [Archive.putEvent, hbs]; exact hput
  have hput' : disk.putEvent e' = .ok (w', a') := by rw [Archive.putEvent, hbs']; exact hput'
  refine ⟨hread, fun heq => hne (henvelope.mp heq), ?_, w, w', a, a', hput, hput', fun heq => ?_⟩
  · exact Bool.eq_false_iff.mpr fun heq => hne (hsame.mp heq)
  · exact hne ((harchived _ _ _ _ w w' rfl rfl hput hput').mp heq)

end Event

end ChainFold
