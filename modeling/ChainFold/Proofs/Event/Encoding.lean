import ChainFold.Proofs.Event.Payload
import ChainFold.Proofs.Event.WellFormed
import ChainFold.Proofs.Json.Fidelity

/-!
# Payloads read back from their blocks

A payload is written without a header that says nothing and without data that are absent,
and what is missing is read as what says nothing.  So header and data are read back from
the block, in the first event of a chain and in later ones, as far as they may stand there.
-/

namespace ChainFold

open Json

theorem Json.field_sortByKey {ms : Members} (hkeys : ms.keys.Nodup) (key : String) :
    field key (Members.sortByKey (ms.map fun m => (m.1, m.2.sortKeys))) =
      (field key ms).sortKeys := by
  unfold field
  rw [Members.get?_sortByKey (nodup_keys_sortMembers hkeys), Members.get?_map]
  cases ms.get? key <;> rfl

namespace Header

def named (model : Option String) (cs : List String) : Header := ⟨model.map .str, cs.map .str⟩

/-- The header as it is written: not at all if it says nothing. -/
def spelled (model : Option String) (cs : List String) : Json :=
  if model = none ∧ cs = [] then .null else (named model cs).toJson

variable (model : Option String) (cs : List String)

def members : Members :=
  ("controllers", .arr (cs.map .str)) :: model.toList.map fun m => ("model", .str m)

theorem toJson_named : (named model cs).toJson = .obj (members model cs) := by
  cases model <;> rfl

theorem nodup_keys_members : (members model cs).keys.Nodup := by
  cases model <;> simp [members, Members.keys]

theorem plain_members : (Json.obj (members model cs)).Plain := by
  refine .obj (nodup_keys_members model cs) ?_
  intro m hm
  rcases List.mem_cons.mp hm with rfl | hm
  · apply Plain.arr
    intro j hj
    obtain ⟨c, -, rfl⟩ := List.mem_map.mp hj
    exact .str c
  · obtain ⟨s, -, rfl⟩ := List.mem_map.mp hm
    exact .str s

theorem plain_spelled : (spelled model cs).Plain := by
  unfold spelled
  split
  · exact .null
  · rw [toJson_named]
    exact plain_members model cs

theorem controllersOf_texts : controllersOf (.arr (cs.map .str)) = .ok (cs.map .str) := by
  cases cs with
  | nil => rfl
  | cons c rest => simp [controllersOf, isPresent, parts?, display]

theorem sortKeys_texts : (Json.arr (cs.map .str)).sortKeys = .arr (cs.map .str) := by
  rw [sortKeys_arr, List.map_map]
  rfl

/-- A header is read from an object by its two fields. -/
theorem ofJson_of_fields {ms : Members} {model : Option String} {cs : List String}
    (hcontrollers : field "controllers" ms = .arr (cs.map .str))
    (hmodel : field "model" ms = ofText? model) : ofJson (.obj ms) = .ok (named model cs) := by
  have hpresent : (Json.obj ms).isPresent = true := by
    cases ms with
    | nil => cases hcontrollers
    | cons => rfl
  have hnamed : (ofText? model).nonNull = model.map .str := by cases model <;> rfl
  simp only [ofJson, hpresent, hcontrollers, hmodel, controllersOf_texts, hnamed, Bool.not_true,
    Bool.false_eq_true, if_false]
  rfl

theorem ofJson_members :
    ofJson (Json.obj (members model cs)).sortKeys = .ok (named model cs) := by
  have hkeys := nodup_keys_members model cs
  rw [sortKeys_obj]
  apply ofJson_of_fields
  · rw [field_sortByKey hkeys]
    exact sortKeys_texts cs
  · rw [field_sortByKey hkeys]
    cases model <;> rfl

/-- A header is read back, and one that was not written is read as the one that says nothing. -/
theorem ofJson_spelled : ofJson (spelled model cs).sortKeys = .ok (named model cs) := by
  unfold spelled
  split
  · rename_i hnone
    obtain ⟨rfl, rfl⟩ := hnone
    rfl
  · rw [toJson_named]
    exact ofJson_members model cs

theorem spelled_isObject (h : (spelled model cs).sortKeys ≠ .null) :
    (spelled model cs).sortKeys.isObject = true := by
  unfold spelled at h ⊢
  split
  · rename_i hnone
    rw [if_pos hnone] at h
    exact absurd rfl h
  · rw [toJson_named, sortKeys_obj]
    rfl

end Header

namespace Payload

/-- Controllers as they are given: a list of texts, or nothing for the empty list. -/
def Lists (given : Json) (cs : List String) : Prop :=
  given = .arr (cs.map .str) ∨ cs = [] ∧ given = .null

/-- The members that are written for a header and data: those that are not null. -/
def written (header data : Json) : Members :=
  (if header = .null then [] else [("header", header)]) ++
    if data = .null then [] else [("data", data)]

section Written

variable (header data : Json)

theorem nodup_keys_written : (written header data).keys.Nodup := by
  unfold written
  split_ifs <;> simp [Members.keys]

theorem field_header_written : field "header" (written header data) = header := by
  unfold written
  split_ifs with hheader hdata
  · exact hheader.symm
  · exact hheader.symm
  · rfl
  · rfl

theorem field_data_written : field "data" (written header data) = data := by
  unfold written
  split_ifs with hheader hdata hdata
  · exact hdata.symm
  · rfl
  · exact hdata.symm
  · rfl

variable {header data}

theorem plain_written (hheader : header.Plain) (hdata : data.Plain) :
    (Json.obj (written header data)).Plain := by
  apply Plain.obj (nodup_keys_written header data)
  intro m hm
  unfold written at hm
  rcases List.mem_append.mp hm with hm | hm
  · split_ifs at hm with hnull
    · cases hm
    · rw [List.mem_singleton.mp hm]
      exact hheader
  · split_ifs at hm with hnull
    · cases hm
    · rw [List.mem_singleton.mp hm]
      exact hdata

/-- What is read from a block that holds a header and data. -/
theorem exists_ofBytes_written (hheader : header.Plain) (hdata : data.Plain) :
    ∃ ms : Members, field "header" ms = header.sortKeys ∧ field "data" ms = data.sortKeys ∧
      ∀ cid atGenesis, ofBytes cid atGenesis
        (Text.utf8 (Json.obj (written header data)).archived) = ofMembers cid atGenesis ms := by
  have hread := readBytes_archived ((plain_written hheader hdata).sortKeys.readBack true)
  have hsorted := fun key => field_sortByKey (nodup_keys_written header data) key
  rw [sortKeys_obj] at hread
  refine ⟨_, (hsorted "header").trans ?_, (hsorted "data").trans ?_, fun cid atGenesis => ?_⟩
  · rw [field_header_written]
  · rw [field_data_written]
  · rw [ofBytes, hread]

end Written

/-! ## Writing -/

variable {given : Json} {cs : List String} {header data : Json}

theorem Lists.controllerItems_eq (h : Lists given cs) :
    controllerItems given = .ok (cs.map .str) := by
  rcases h with rfl | ⟨rfl, rfl⟩
  · cases cs with
    | nil => rfl
    | cons c rest => simp [controllerItems, isPresent, parts?]
  · rfl

/-- What is written: a header that says something, and data that are there. -/
theorem Lists.encode_eq (h : Lists given cs) (model : Option String) (data : Json) :
    encode data (ofText? model) given =
      .ok (Text.utf8 (Json.obj (written (Header.spelled model cs) data)).archived) := by
  have hheader : (if ofText? model = .null && (cs.map Json.str).isEmpty then []
      else [("header", (Header.mk (ofText? model).nonNull (cs.map .str)).toJson)]) =
        if Header.spelled model cs = .null then [] else [("header", Header.spelled model cs)] := by
    cases model with
    | some m => simp [ofText?, Header.spelled, Header.toJson, Header.named, nonNull]
    | none => cases cs <;> simp [ofText?, Header.spelled, Header.toJson, Header.named, nonNull]
  rw [encode, h.controllerItems_eq, ok_bind, hheader]
  rfl

/-! ## Reading -/

/-- The first event of a chain is read with its header, and with data that are an object. -/
theorem ofMembers_genesis {ms : Members} {model : Option String} {data : Option Json}
    (hheader : field "header" ms = (Header.spelled model cs).sortKeys)
    (hdata : field "data" ms = (data.getD .null).sortKeys)
    (hobj : ∀ j, data = some j → j.isObject = true) (cid : Json) :
    ofMembers cid true ms =
      .ok ⟨some (Header.named model cs), data.map Json.sortKeys, false⟩ := by
  have hobject : ¬ (field "header" ms ≠ .null ∧ ¬ (field "header" ms).isObject = true) := by
    rintro ⟨hne, hno⟩
    rw [hheader] at hne hno
    exact hno (Header.spelled_isObject model cs hne)
  have hread : Header.ofJson (field "header" ms) = .ok (Header.named model cs) := by
    rw [hheader]
    exact Header.ofJson_spelled model cs
  simp only [ofMembers, hobject, if_false, if_true, hread]
  cases data with
  | none =>
      rw [hdata]
      rfl
  | some j =>
      have hj := hobj j rfl
      cases j with
      | obj ns =>
          rw [hdata, Option.getD_some, sortKeys_obj]
          simp [isObject, members?, nonNull, sortKeys_obj]
      | null | bool | int | double | str | arr => cases hj

/-- A later event is read with data that are a list. -/
theorem ofMembers_later {ms : Members} {data : Option Json}
    (hheader : field "header" ms = .null) (hdata : field "data" ms = (data.getD .null).sortKeys)
    (harr : ∀ j, data = some j → ∃ items, j = .arr items) (cid : Json) :
    ofMembers cid false ms = .ok ⟨none, data.map Json.sortKeys, false⟩ := by
  simp only [ofMembers, hheader, hdata]
  cases data with
  | none => rfl
  | some j =>
      obtain ⟨items, rfl⟩ := harr j rfl
      rw [Option.getD_some, Option.map_some, sortKeys_arr]
      rfl

/-- Plain data are read with their keys in order, or not at all if there are none. -/
theorem rel_sortKeys {data : Option Json} (h : ∀ j, data = some j → j.Plain) :
    Option.Rel SameUpToOrder data (data.map Json.sortKeys) := by
  cases data with
  | none => exact .none
  | some j => exact .some (h j rfl).tidy.alike_sortKeys.symm.sameUpToOrder

theorem plain_getD {data : Option Json} (h : ∀ j, data = some j → j.Plain) :
    (data.getD .null).Plain := by
  cases data with
  | none => exact .null
  | some j => exact h j rfl

/--
Header and data are read back from the block that they are written to, whatever blocks follow:
in the first event of a chain any object or none, under a header with the model and the
controllers that were given; in a later event any list or none, and no header.
-/
theorem encoding_faithful :
    (∀ (data : Option Json) (model : Option String) (cs : List String) (given : Json),
      (∀ j, data = some j → j.Plain ∧ j.isObject = true) → Lists given cs →
      ∃ bs, encode (data.getD .null) (ofText? model) given = .ok bs ∧
        ∀ e : Event, e.isGenesis = true → e.blocks.head? = some (.bytes bs) →
          ∃ found, e.payload = .ok ⟨some ⟨model.map .str, cs.map .str⟩, found, false⟩ ∧
            Option.Rel SameUpToOrder data found) ∧
    (∀ data : Option Json, (∀ j, data = some j → j.Plain ∧ ∃ items, j = .arr items) →
      ∃ bs, encode (data.getD .null) .null .null = .ok bs ∧
        ∀ e : Event, e.isGenesis = false → e.blocks.head? = some (.bytes bs) →
          ∃ found, e.payload = .ok ⟨none, found, false⟩ ∧
            Option.Rel SameUpToOrder data found) := by
  constructor
  · intro data model cs given hdata hgiven
    have hplain := fun j hj => (hdata j hj).1
    obtain ⟨ms, hheader, hfield, hread⟩ :=
      exists_ofBytes_written (Header.plain_spelled model cs) (plain_getD hplain)
    refine ⟨_, hgiven.encode_eq model _, fun e hgenesis hfirst => ?_⟩
    refine ⟨data.map Json.sortKeys, ?_, rel_sortKeys hplain⟩
    rw [Event.payload_of_bytes hfirst, hgenesis, hread]
    exact ofMembers_genesis hheader hfield (fun j hj => (hdata j hj).2) e.cid
  · intro data hdata
    have hplain := fun j hj => (hdata j hj).1
    have hgiven : Lists .null [] := .inr ⟨rfl, rfl⟩
    obtain ⟨ms, hheader, hfield, hread⟩ := exists_ofBytes_written .null (plain_getD hplain)
    refine ⟨_, hgiven.encode_eq none _, fun e hgenesis hfirst => ?_⟩
    refine ⟨data.map Json.sortKeys, ?_, rel_sortKeys hplain⟩
    have hlist := fun j hj => (hdata j hj).2
    rw [Event.payload_of_bytes hfirst, hgenesis]
    exact (hread e.cid false).trans (ofMembers_later hheader hfield hlist e.cid)

/-- Empty texts and an empty list are read back as such, and nothing at all as nothing. -/
theorem encoding_faithful_sample :
    let first (bs : Bytes) : Event := ⟨.str "c", .null, .str "c", [.bytes bs, .absent]⟩
    let later (bs : Bytes) : Event := ⟨.str "d", .str "c", .str "c", [.bytes bs, .bytes [255]]⟩
    (∃ bs found, encode mixedValue (.str "") (.arr [.str "", .str "é"]) = .ok bs ∧
      (first bs).payload = .ok ⟨some ⟨some (.str ""), [.str "", .str "é"]⟩, found, false⟩ ∧
      Option.Rel SameUpToOrder (some mixedValue) found) ∧
    (∃ bs found, encode .null .null .null = .ok bs ∧
      (first bs).payload = .ok ⟨some ⟨none, []⟩, found, false⟩ ∧
      Option.Rel SameUpToOrder none found) ∧
    ∃ bs found, encode (.arr []) .null .null = .ok bs ∧
      (later bs).payload = .ok ⟨none, found, false⟩ ∧
      Option.Rel SameUpToOrder (some (.arr [])) found := by
  intro first later
  have hfirst : ∀ bs, (first bs).isGenesis = true := by
    simp [first, Event.isGenesis, looselySame_text]
  have hafter : ∀ bs, (later bs).isGenesis = false := by
    simp [later, Event.isGenesis]
  have hmixed : ∀ j, some mixedValue = some j → j.Plain ∧ j.isObject = true := by
    rintro j ⟨⟩
    exact ⟨mixedValue_plain, rfl⟩
  have hempty : ∀ j, some (Json.arr []) = some j → j.Plain ∧ ∃ items, j = .arr items := by
    rintro j ⟨⟩
    exact ⟨.arr (by simp), [], rfl⟩
  obtain ⟨hgenesis, hlater⟩ := encoding_faithful
  obtain ⟨bs₁, hbs₁, h₁⟩ := hgenesis (some mixedValue) (some "") ["", "é"] _ hmixed (.inl rfl)
  obtain ⟨bs₂, hbs₂, h₂⟩ := hgenesis none none [] .null (by simp) (.inr ⟨rfl, rfl⟩)
  obtain ⟨bs₃, hbs₃, h₃⟩ := hlater (some (.arr [])) hempty
  obtain ⟨found₁, hread₁, hsame₁⟩ := h₁ (first bs₁) (hfirst bs₁) rfl
  obtain ⟨found₂, hread₂, hsame₂⟩ := h₂ (first bs₂) (hfirst bs₂) rfl
  obtain ⟨found₃, hread₃, hsame₃⟩ := h₃ (later bs₃) (hafter bs₃) rfl
  exact ⟨⟨bs₁, found₁, hbs₁, hread₁, hsame₁⟩, ⟨bs₂, found₂, hbs₂, hread₂, hsame₂⟩,
    ⟨bs₃, found₃, hbs₃, hread₃, hsame₃⟩⟩

end Payload

end ChainFold
