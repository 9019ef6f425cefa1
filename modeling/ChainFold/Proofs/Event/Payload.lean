import ChainFold.Payload
import ChainFold.Proofs.Json.Reading

/-!
# What payloads carry

The data of a payload has each key of an object once.  At the start of a chain it
is an object, and later it is a list of operations.  The first controller of a header
is a text.
-/

namespace ChainFold

theorem Json.Tidy.field {ms : Members} (h : (Json.obj ms).Tidy) (key : String) :
    (Json.field key ms).Tidy := by
  unfold Json.field
  cases hget : Members.get? key ms with
  | none => trivial
  | some j => exact (Json.tidy_obj_iff.mp h).2 _ (Members.mem_of_get? hget)

namespace Header

theorem account_text_of_ofJson {j : Json} {h : Header} (hread : ofJson j = .ok h) :
    h.account = .null ∨ ∃ a, h.account = .str a := by
  have hcontrollers : ∀ {j : Json} {cs : List Json}, controllersOf j = .ok cs →
      ∀ c ∈ cs, ∃ a, c = .str a := by
    intro j cs hcs c hc
    unfold controllersOf at hcs
    split at hcs
    · obtain rfl := Except.ok.inj hcs
      simp at hc
    · split at hcs
      · rename_i a _
        obtain rfl := Except.ok.inj hcs
        exact ⟨a, List.mem_singleton.mp hc⟩
      · split at hcs
        · obtain rfl := Except.ok.inj hcs
          obtain ⟨part, -, rfl⟩ := List.mem_map.mp hc
          exact ⟨part.display, rfl⟩
        · simp at hcs
  unfold ofJson at hread
  split at hread
  · obtain rfl := Except.ok.inj hread
    exact .inl rfl
  · split at hread
    · obtain ⟨cs, hcs, hread⟩ := bind_eq_ok.mp hread
      obtain rfl := Except.ok.inj hread
      cases cs with
      | nil => exact .inl rfl
      | cons c rest => exact .inr (hcontrollers hcs c (by simp))
    · simp at hread

end Header

/-- What a payload is like, at the start of a chain and later on. -/
structure Payload.Shaped (atGenesis : Bool) (p : Payload) : Prop where
  tidy : ∀ d, p.data = some d → d.Tidy
  object : atGenesis = true → ∀ d, p.data = some d → d.isObject = true
  list : atGenesis = false → ∀ d, p.data = some d → ∃ items, d = .arr items
  account_text : (p.header.getD .blank).account = .null ∨
    ∃ a, (p.header.getD .blank).account = .str a

namespace Payload

theorem shaped_of_data_eq_none {atGenesis : Bool} {p : Payload} (h : p.data = none)
    (haccount : (p.header.getD .blank).account = .null ∨
      ∃ a, (p.header.getD .blank).account = .str a) : p.Shaped atGenesis := by
  refine ⟨?_, ?_, ?_, haccount⟩ <;> simp [h]

theorem shaped_of_blank {atGenesis : Bool} {p : Payload} (h : p.data = none)
    (hheader : p.header = none) : p.Shaped atGenesis :=
  shaped_of_data_eq_none h (by simp [hheader, Header.blank, Header.account])

theorem shaped_of_ofMembers {cid : Json} {atGenesis : Bool} {ms : Members} {p : Payload}
    (hms : (Json.obj ms).Tidy) (h : ofMembers cid atGenesis ms = .ok p) : p.Shaped atGenesis := by
  have htidy := hms.field "data"
  unfold ofMembers at h
  simp only at h
  split at h
  · simp at h
  · split at h
    · rename_i hgenesis
      split at h
      · simp at h
      · rename_i hobject
        split at h
        · rename_i header hheader
          have haccount := Header.account_text_of_ofJson hheader
          simp only [Except.ok.injEq] at h
          subst h hgenesis
          generalize Json.field "data" ms = data at htidy hobject
          cases data with
          | null => exact shaped_of_data_eq_none rfl haccount
          | obj ns =>
              refine ⟨?_, ?_, by simp, haccount⟩ <;>
                simp only [Json.nonNull, Option.some.injEq, forall_eq']
              · exact htidy
              · exact fun _ => rfl
          | bool | int | double | str | arr => simp [Json.isObject, Json.members?] at hobject
        · simp at h
    · rename_i hgenesis
      split at h
      · simp only [Except.ok.injEq] at h
        subst h
        exact shaped_of_blank rfl rfl
      · rename_i items hdata
        simp only [Except.ok.injEq] at h
        subst h
        rw [hdata] at htidy
        refine ⟨?_, fun h => absurd h hgenesis, ?_, .inl rfl⟩ <;>
          simp only [Option.some.injEq, forall_eq']
        · exact htidy
        · exact fun _ => ⟨items, rfl⟩
      · simp at h

theorem shaped_of_ofBytes {cid : Json} {atGenesis : Bool} {bs : Bytes} {p : Payload}
    (h : ofBytes cid atGenesis bs = .ok p) : p.Shaped atGenesis := by
  unfold ofBytes at h
  split at h
  · simp only [Except.ok.injEq] at h
    exact shaped_of_blank (h ▸ rfl) (h ▸ rfl)
  · simp at h
  · rename_i ms hread
    exact shaped_of_ofMembers (Json.tidy_of_readBytes hread) h
  · simp at h

theorem shaped_of_read {cid : Json} {atGenesis : Bool} {first : Option Block} {p : Payload}
    (h : read cid atGenesis first = .ok p) : p.Shaped atGenesis := by
  unfold read at h
  split at h
  · simp at h
  · split at h
    · split at h
      · simp only [Except.ok.injEq] at h
        exact shaped_of_blank (h ▸ rfl) (h ▸ rfl)
      · simp at h
    · split at h
      · exact shaped_of_ofBytes h
      · simp at h
      · simp at h

end Payload

/-- The payload of an event is read from its first block, whatever the others are. -/
theorem Event.payload_of_bytes {e : Event} {bs : Bytes} (h : e.blocks.head? = some (.bytes bs)) :
    e.payload = Payload.ofBytes e.cid e.isGenesis bs := by
  rw [payload, h]
  rfl

theorem Event.shaped_of_payload {e : Event} {p : Payload} (h : e.payload = .ok p) :
    p.Shaped e.isGenesis :=
  Payload.shaped_of_read h

end ChainFold
