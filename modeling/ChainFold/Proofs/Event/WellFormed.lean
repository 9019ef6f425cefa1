import ChainFold.Engine.Basic
import ChainFold.Event.Validation
import ChainFold.Proofs.Outcome

/-!
# What validation establishes

An event that passes validation has texts for identifiers and bytes for blocks, and
its links say consistently whether it starts a chain.  Nothing stands in the way of
storing and archiving such events.
-/

namespace ChainFold

theorem Json.looselySame_text (s t : String) :
    (Json.str s).looselySame (.str t) = decide (s = t) := by
  simp [Json.looselySame, Json.same, Json.sameScalar, Json.quantity?]
  rfl

theorem Json.looselySame_text_right (j : Json) (s : String) :
    j.looselySame (.str s) = decide (j = .str s) := by
  cases j with
  | str t => simp [Json.looselySame_text]
  | null | bool | int | double | arr | obj =>
      simp [looselySame, Json.same, Json.sameScalar, Json.quantity?]

theorem Json.looselySame_null_text (s : String) : Json.null.looselySame (.str s) = false := rfl

theorem Json.sameWithin_text (s t : String) :
    (Json.str s).sameWithin (.str t) = decide (s = t) := by
  simp [Json.sameWithin, Json.bothNaN, Json.looselySame_text]

theorem Json.eq_of_sameWithin_text {j : Json} {s : String}
    (h : j.sameWithin (.str s) = true) : j = .str s := by
  cases j with
  | str t => simpa [Json.sameWithin_text] using h
  | null | bool | int | double | arr | obj =>
      simp [Json.sameWithin, Json.bothNaN, Json.looselySame_text_right] at h

theorem Json.eq_of_sameWithin_null {j : Json} (h : j.sameWithin .null = true) : j = .null := by
  cases j with
  | null => rfl
  | bool | int | double | str | arr | obj =>
      simp [Json.sameWithin, Json.bothNaN, Json.looselySame, Json.same, Json.sameScalar,
        Json.quantity?] at h

namespace Ident

theorem exists_text_of_fault? {limit : Amount} {j : Json} (h : fault? false limit j = none) :
    ∃ s, j = .str s ∧ s ≠ "" := by
  cases j with
  | str s =>
      refine ⟨s, rfl, ?_⟩
      rintro rfl
      simp [fault?] at h
  | null | bool | int | double | arr | obj => simp [fault?] at h

theorem text_or_null_of_fault? {limit : Amount} {j : Json} (h : fault? true limit j = none) :
    j = .null ∨ ∃ s, j = .str s := by
  cases j with
  | null => exact .inl rfl
  | str s => exact .inr ⟨s, rfl⟩
  | bool | int | double | arr | obj => simp [fault?] at h

end Ident

namespace Event

/-- What validation establishes, apart from the sizes of things. -/
structure WellFormed (e : Event) : Prop where
  cid_text : ∃ c, e.cid = .str c ∧ c ≠ ""
  genesis_text : ∃ g, e.genesis = .str g ∧ g ≠ ""
  prev_text : e.prev = .null ∨ ∃ p, e.prev = .str p
  blocks_bytes : ∀ b ∈ e.blocks, ∃ bs, b = .bytes bs
  blocks_ne_nil : e.blocks ≠ []
  genesis_eq_cid : e.prev = .null → e.genesis = e.cid
  genesis_ne_cid : e.prev ≠ .null → e.genesis ≠ e.cid
  prev_ne_cid : e.prev ≠ e.cid

/-! ## Storing -/

/-- The parts of an event are of the kinds that every store keeps as they are. -/
structure Storable (e : Event) : Prop where
  cid_text : ∃ c, e.cid = .str c
  genesis_text : ∃ g, e.genesis = .str g
  prev_text : e.prev = .null ∨ ∃ p, e.prev = .str p
  blocks_bytes : ∀ b ∈ e.blocks, ∃ bs, b = .bytes bs
  blocks_ne_nil : e.blocks ≠ []

theorem Storable.mapM_stored {e : Event} (h : e.Storable) :
    ∃ bss, e.blocks.mapM Block.stored = .ok bss ∧ bss.map Block.bytes = e.blocks := by
  have hall : ∀ blocks : List Block, (∀ b ∈ blocks, ∃ bs, b = .bytes bs) →
      ∃ bss, blocks.mapM Block.stored = .ok bss ∧ bss.map Block.bytes = blocks := by
    intro blocks
    induction blocks with
    | nil => exact fun _ => ⟨[], rfl, rfl⟩
    | cons b rest ih =>
        intro hb
        obtain ⟨⟨bs, rfl⟩, hrest⟩ := List.forall_mem_cons.mp hb
        obtain ⟨bss, hm, hmap⟩ := ih hrest
        refine ⟨bs :: bss, ?_, by simp [hmap]⟩
        simp [List.mapM_cons, hm, Block.stored, Block.octets]
  exact hall e.blocks h.blocks_bytes

theorem WellFormed.storable {e : Event} (h : e.WellFormed) : e.Storable where
  cid_text := by
    obtain ⟨c, hc, -⟩ := h.cid_text
    exact ⟨c, hc⟩
  genesis_text := by
    obtain ⟨g, hg, -⟩ := h.genesis_text
    exact ⟨g, hg⟩
  prev_text := h.prev_text
  blocks_bytes := h.blocks_bytes
  blocks_ne_nil := h.blocks_ne_nil

/-! ## Validation -/

theorem bytes_of_firstBlockFault? {limit : Option Amount} {blocks : List Block} {i : Nat}
    (h : firstBlockFault? limit i blocks = none) : ∀ b ∈ blocks, ∃ bs, b = .bytes bs := by
  induction blocks generalizing i with
  | nil => simp
  | cons b rest ih =>
      unfold firstBlockFault? at h
      split at h
      · simp at h
      · rename_i hb
        refine List.forall_mem_cons.mpr ⟨?_, ih h⟩
        cases b with
        | bytes bs => exact ⟨bs, rfl⟩
        | absent | other => simp [blockFault?] at hb

theorem wellFormed_of_fault? {limit : Option Amount} {e : Event} (h : fault? limit e = none) :
    e.WellFormed := by
  unfold fault? at h
  obtain ⟨hids, hlinks⟩ := Option.or_eq_none_iff.mp h
  obtain ⟨hids, hblocks⟩ := Option.or_eq_none_iff.mp hids
  unfold idFault? at hids
  split at hids
  · simp at hids
  · rename_i hcid
    split at hids
    · simp at hids
    · rename_i hgenesis
      obtain ⟨c, hc, hc0⟩ := Ident.exists_text_of_fault? hcid
      have hprev := Ident.text_or_null_of_fault? (Option.map_eq_none_iff.mp hids)
      unfold blocksFault? at hblocks
      split at hblocks
      · simp at hblocks
      · rename_i hne
        have hlinked : (e.prev = .null ∧ e.genesis = e.cid) ∨
            (e.prev ≠ .null ∧ e.cid ≠ e.genesis ∧ e.prev ≠ e.cid) := by
          unfold linkFault? at hlinks
          split at hlinks <;> grind
        refine ⟨⟨c, hc, hc0⟩, Ident.exists_text_of_fault? hgenesis, hprev,
          bytes_of_firstBlockFault? hblocks, by simpa using hne, ?_, ?_, ?_⟩
        · intro hnull
          rcases hlinked with h | h
          · exact h.2
          · exact absurd hnull h.1
        · intro hnull
          rcases hlinked with h | h
          · exact absurd h.1 hnull
          · exact fun heq => h.2.1 heq.symm
        · rcases hlinked with h | h
          · rw [h.1, hc]
            simp
          · exact h.2.2

/-- What validation lets through is the event itself, and well formed. -/
theorem validate_eq_ok {limit : Option Amount} {e e' : Event} (h : e.validate limit = .ok e') :
    e' = e ∧ e.WellFormed := by
  unfold validate at h
  split at h
  · simp at h
  · rename_i hfault
    simp only [Except.ok.injEq] at h
    exact ⟨h.symm, wellFormed_of_fault? hfault⟩

namespace WellFormed

variable {e : Event}

theorem isGenesis_eq (h : e.WellFormed) : e.isGenesis = decide (e.prev = .null) := by
  obtain ⟨c, hc, -⟩ := h.cid_text
  by_cases hp : e.prev = .null
  · have hg : e.genesis = .str c := (h.genesis_eq_cid hp).trans hc
    simp [isGenesis, hp, hc, hg, Json.looselySame_text]
  · simp [isGenesis, hp]

theorem streamOf_eq (h : e.WellFormed) {g : String} (hg : e.genesis = .str g) :
    Engine.streamOf e = .ok (Ident.streamId g) := by
  obtain ⟨g', hg', hne⟩ := h.genesis_text
  obtain rfl : g' = g := by simpa [hg] using hg'.symm
  simp [Engine.streamOf, Ident.streamIdOf, hg, Json.isPresent, hne]

theorem prev_looselySame_text (h : e.WellFormed) (s : String) :
    e.prev.looselySame (.str s) = decide (e.prev = .str s) := by
  rcases h.prev_text with hp | ⟨p, hp⟩
  · simp [hp, Json.looselySame_null_text]
  · simp [hp, Json.looselySame_text]

/-! ## Archiving -/

theorem exists_mapM_toJson (h : e.WellFormed) : ∃ js, e.blocks.mapM Block.toJson = .ok js := by
  have hall : ∀ blocks : List Block, (∀ b ∈ blocks, ∃ bs, b = .bytes bs) →
      ∃ js, blocks.mapM Block.toJson = .ok js := by
    intro blocks
    induction blocks with
    | nil => exact fun _ => ⟨[], rfl⟩
    | cons b rest ih =>
        intro hb
        obtain ⟨⟨bs, rfl⟩, hrest⟩ := List.forall_mem_cons.mp hb
        obtain ⟨js, hjs⟩ := ih hrest
        exact ⟨base64Json bs :: js, by simp [List.mapM_cons, hjs, Block.toJson]⟩
  exact hall e.blocks h.blocks_bytes

theorem exists_envelope (h : e.WellFormed) : ∃ bs, Engine.envelopeOf e = .ok bs := by
  obtain ⟨js, hjs⟩ := h.exists_mapM_toJson
  simp [Engine.envelopeOf, envelope, toJson, hjs]

end WellFormed

end Event

end ChainFold
