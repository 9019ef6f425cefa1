import ChainFold.Proofs.Json.KeyOrder
import ChainFold.Proofs.Outcome
import ChainFold.Proofs.Uuid
import ChainFold.Proofs.Uuid.Spelling
import ChainFold.Registry

/-!
# Models read from entries

An entry without a fault is read as the model that it describes, and what is written of
that model is read as the model again.  A key that is missing is reported under its name.
A value that cannot be used is reported under the name of the owner, whichever key it stands
at, and some values are not reported at all; an entry whose only faults are missing keys and
a bad owner is reported as it should be.
-/

namespace ChainFold

/-! ## The displayed text of a value -/

/-- Somewhere in a value is an integer that has too many digits to be written. -/
inductive Json.HasLong : Json → Prop
  | int {n : Int} (h : Text.isTooLong n = true) : HasLong (.int n)
  | item {items : List Json} {j : Json} (hj : j ∈ items) (h : HasLong j) : HasLong (.arr items)
  | member {ms : Members} {m : String × Json} (hm : m ∈ ms) (h : HasLong m.2) : HasLong (.obj ms)

namespace Yaml.Value

theorem anyTooLong_ofItems_iff (items : List Json) :
    anyTooLong (ofItems items) = true ↔ ∃ j ∈ items, (ofJson j).isTooLong = true := by
  induction items with
  | nil => simp [ofItems, anyTooLong]
  | cons j rest ih => simp [ofItems, anyTooLong, ih]

theorem anyEntryTooLong_ofMembers_iff (ms : Members) :
    anyEntryTooLong (ofMembers ms) = true ↔ ∃ m ∈ ms, (ofJson m.2).isTooLong = true := by
  induction ms with
  | nil => simp [ofMembers, anyEntryTooLong]
  | cons m rest ih => simp [ofMembers, anyEntryTooLong, isTooLong, ih]

theorem isTooLong_ofJson_iff (j : Json) : (ofJson j).isTooLong = true ↔ j.HasLong := by
  induction j using Json.inductionOnParts with
  | null | bool | double | str => exact ⟨nofun, nofun⟩
  | int n =>
      constructor
      · exact .int
      · rintro ⟨h⟩
        exact h
  | arr items ih =>
      rw [ofJson, isTooLong, anyTooLong_ofItems_iff]
      constructor
      · rintro ⟨j, hj, hlong⟩
        exact .item hj ((ih j hj).mp hlong)
      · rintro (_ | ⟨hj, hlong⟩)
        exact ⟨_, hj, (ih _ hj).mpr hlong⟩
  | obj ms ih =>
      rw [ofJson, isTooLong, anyEntryTooLong_ofMembers_iff]
      constructor
      · rintro ⟨m, hm, hlong⟩
        exact .member hm ((ih m hm).mp hlong)
      · rintro (_ | _ | ⟨hm, hlong⟩)
        exact ⟨_, hm, (ih _ hm).mpr hlong⟩

theorem innerItems_ofItems {items : List Json} (h : ∀ j ∈ items, inner (ofJson j) = j.inner) :
    innerItems (ofItems items) = Json.innerItems items := by
  induction items with
  | nil => rfl
  | cons j rest ih =>
      obtain ⟨hj, hrest⟩ := List.forall_mem_cons.mp h
      cases rest with
      | nil => exact hj
      | cons k rest =>
          simp only [ofItems] at ih ⊢
          rw [innerItems, Json.innerItems, hj, ih hrest]
          all_goals simp

theorem innerEntries_ofMembers {ms : Members} (h : ∀ m ∈ ms, inner (ofJson m.2) = m.2.inner) :
    innerEntries (ofMembers ms) = Json.innerMembers ms := by
  induction ms with
  | nil => rfl
  | cons m rest ih =>
      obtain ⟨hm, hrest⟩ := List.forall_mem_cons.mp h
      cases rest with
      | nil =>
          simp only [ofMembers, innerEntries, Json.innerMembers, inner, Json.inner]
          rw [hm]
      | cons n rest =>
          simp only [ofMembers] at ih ⊢
          rw [innerEntries, Json.innerMembers, hm, ih hrest]
          · rfl
          all_goals simp

/-- Inside another value, a value of JSON is shown as it is in JSON. -/
theorem inner_ofJson (j : Json) : inner (ofJson j) = j.inner := by
  induction j using Json.inductionOnParts with
  | null | bool | int | double | str => rfl
  | arr items ih => rw [ofJson, inner, innerItems_ofItems ih, Json.inner]
  | obj ms ih => rw [ofJson, inner, innerEntries_ofMembers ih, Json.inner]

/-- All but texts are displayed as they are shown inside another value, if they can be. -/
theorem display_of_ne_str {j : Json} (h : ∀ s, j ≠ .str s) : (ofJson j).display =
    if (ofJson j).isTooLong = true then .error .badValue else .ok j.display := by
  have hinner := inner_ofJson j
  cases j with
  | str s => exact absurd rfl (h s)
  | null | bool | int | double | arr | obj =>
      simp only [ofJson] at hinner ⊢
      simp only [display, hinner, Json.display]
      rfl

theorem display_ofJson_of_long {j : Json} (h : j.HasLong) :
    (ofJson j).display = .error .badValue := by
  rw [display_of_ne_str (by rintro s rfl; nomatch h), if_pos ((isTooLong_ofJson_iff j).mpr h)]

theorem display_ofJson {j : Json} (h : ¬ j.HasLong) : (ofJson j).display = .ok j.display := by
  by_cases hstr : ∃ s, j = .str s
  · obtain ⟨s, rfl⟩ := hstr
    rfl
  · rw [display_of_ne_str (not_exists.mp hstr), if_neg (mt (isTooLong_ofJson_iff j).mp h)]

end Yaml.Value

namespace Model

/-! ## The faults of an entry -/

/-- Why a value is no owner: it is no UUID in any spelling, or is not displayed at all. -/
inductive NoOwner : Json → Fault → Prop
  | unwritten {j : Json} (h : j.HasLong) : NoOwner j (.badValue Text.tooLongToWrite)
  | misspelt {j : Json} {fault : Uuid.Fault} (h : ¬ j.HasLong)
      (hread : Uuid.read j.display = .error fault) : NoOwner j (.badValue fault.message)

/-- The version that a value stands for: doubles are cut, and texts are numerals. -/
inductive Counts : Json → Int → Prop
  | int (n : Int) : Counts (.int n) n
  | bool (b : Bool) : Counts (.bool b) b.toNat
  | double {d : Double} (h : d.isFinite = true) : Counts (.double d) d.truncate
  | numeral {s : String} {n : Int} (h : Text.readInteger 10 s = .ok n) : Counts (.str s) n

/-- Why a value is no version. -/
inductive NoVersion : Json → Fault → Prop
  | null : NoVersion .null (.defect .wrongKind)
  | infinite {d : Double} (hfinite : d.isFinite = false) (hnan : d.isNaN = false) :
      NoVersion (.double d) (.defect .tooLarge)
  | nan {d : Double} (hfinite : d.isFinite = false) (hnan : d.isNaN = true) :
      NoVersion (.double d) (.badValue "cannot convert float NaN to integer")
  | numeral {s : String} {fault : Text.NumeralFault} (h : Text.readInteger 10 s = .error fault) :
      NoVersion (.str s) (.badValue fault.message)
  | arr (items : List Json) : NoVersion (.arr items) (.defect .wrongKind)
  | obj (ms : Members) : NoVersion (.obj ms) (.defect .wrongKind)

/-- A key of an entry is missing or has a value that cannot be used, and the fault that this is. -/
inductive FaultAt (ms : Members) : String → Fault → Prop
  | missingOwner (h : ms.get? "dapp_id" = none) : FaultAt ms "dapp_id" (.missing "dapp_id")
  | missingId (h : ms.get? "model_id" = none) : FaultAt ms "model_id" (.missing "model_id")
  | id {j : Json} (h : ms.get? "model_id" = some j) (hlong : j.HasLong) :
      FaultAt ms "model_id" (.badValue Text.tooLongToWrite)
  | name {j : Json} (h : ms.get? "name" = some j) (hlong : j.HasLong) :
      FaultAt ms "name" (.badValue Text.tooLongToWrite)
  | owner {j : Json} {fault : Fault} (h : ms.get? "dapp_id" = some j) (hno : NoOwner j fault) :
      FaultAt ms "dapp_id" fault
  | encryptable (hpresent : (Json.field "encryptable" ms).isPresent = true)
      (hparts : (Json.field "encryptable" ms).parts? = none) :
      FaultAt ms "encryptable" (.defect .wrongKind)
  | version {j : Json} {fault : Fault} (h : ms.get? "version" = some j) (hno : NoVersion j fault) :
      FaultAt ms "version" fault

/-- A model is what the members of an entry say. -/
structure ReadFrom (m : Model) (ms : Members) : Prop where
  id_eq : ∃ j, ms.get? "model_id" = some j ∧ m.id = j.display
  name_eq : m.name = ((ms.get? "name").map Json.display).getD m.id
  owner_eq : ∃ j, ms.get? "dapp_id" = some j ∧ Uuid.read j.display = .ok m.owner
  encryptable_eq : if (Json.field "encryptable" ms).isPresent
    then ∃ parts, (Json.field "encryptable" ms).parts? = some parts ∧
      m.encryptable = parts.map Yaml.Value.ofJson
    else m.encryptable = []
  version_eq : Counts ((ms.get? "version").getD (.int 0)) m.version

/-! ## The steps of reading -/

/-- A step gives what is wanted, and nothing is at fault; or it ends with a fault. -/
def Settles {α : Type} (r : Except Fault α) (good : α → Prop) (atFault : Fault → Prop) : Prop :=
  match r with
  | .ok a => good a ∧ ∀ fault, ¬ atFault fault
  | .error fault => atFault fault

/-- Of two steps one after the other, the faults are those of the one and of the other. -/
theorem Settles.bind {α β : Type} {r : Except Fault α} {f : α → Except Fault β}
    {good : α → Prop} {good' : β → Prop} {atFault atFault' : Fault → Prop}
    (h : Settles r good atFault) (hf : ∀ a, good a → Settles (f a) good' atFault') :
    Settles (r >>= f) good' fun fault => atFault fault ∨ atFault' fault := by
  cases r with
  | error fault => exact .inl h
  | ok a =>
      obtain ⟨hgood, hnone⟩ := h
      have hnext := hf a hgood
      rw [ok_bind]
      cases hr : f a with
      | error fault =>
          rw [hr] at hnext
          exact .inr hnext
      | ok b =>
          rw [hr] at hnext
          exact ⟨hnext.1, fun fault => not_or.mpr ⟨hnone fault, hnext.2 fault⟩⟩

theorem Settles.ok {α : Type} {a : α} {good : α → Prop} (h : good a) :
    Settles (.ok a) good fun _ => False :=
  ⟨h, fun _ hfault => hfault⟩

theorem Settles.mono {α : Type} {r : Except Fault α} {good good' : α → Prop}
    {atFault atFault' : Fault → Prop} (h : Settles r good atFault) (hgood : ∀ a, good a → good' a)
    (hfault : ∀ fault, atFault fault ↔ atFault' fault) : Settles r good' atFault' := by
  cases r with
  | error fault => exact (hfault fault).mp h
  | ok a => exact ⟨hgood a h.1, fun fault hbad => h.2 fault ((hfault fault).mpr hbad)⟩

section Steps

variable {ms : Members} {j : Json} {key : String}

/-- The members of an entry as a document has them. -/
def entriesOf (ms : Members) : List (String × Yaml.Value) :=
  ms.map fun m => (m.1, Yaml.Value.ofJson m.2)

theorem textMembers?_ofJson (ms : Members) :
    (Yaml.Value.ofJson (.obj ms)).textMembers? = some (entriesOf ms) := by
  have hentries : (Yaml.Value.ofMembers ms).filterMap (fun e => e.1.text?.map (·, e.2)) =
      entriesOf ms := by
    induction ms with
    | nil => rfl
    | cons m rest ih =>
        rw [Yaml.Value.ofMembers, List.filterMap_cons, ih]
        rfl
  exact congrArg some hentries

theorem lookup_entriesOf (ms : Members) (key : String) :
    (entriesOf ms).lookup key = (ms.get? key).map Yaml.Value.ofJson := by
  induction ms with
  | nil => rfl
  | cons m rest ih =>
      obtain ⟨k, j⟩ := m
      rw [entriesOf, List.map_cons, List.lookup_cons, Members.get?]
      by_cases h : k = key
      · simp [h]
      · have hne : (key == k) = false := beq_eq_false_iff_ne.mpr (Ne.symm h)
        rw [if_neg h, ← ih]
        simp only [hne, entriesOf]

theorem lookup_entriesOf_getD (ms : Members) (key : String) (default : Json) :
    ((entriesOf ms).lookup key).getD (.ofJson default) = .ofJson ((ms.get? key).getD default) := by
  rw [lookup_entriesOf]
  cases ms.get? key <;> rfl

theorem needed_settles (ms : Members) (key : String) : Settles (needed key (entriesOf ms))
    (fun v => ∃ j, ms.get? key = some j ∧ v = .ofJson j)
    (fun fault => ms.get? key = none ∧ fault = .missing key) := by
  unfold needed
  rw [lookup_entriesOf]
  cases ms.get? key with
  | none => exact ⟨rfl, rfl⟩
  | some j => exact ⟨⟨j, rfl, rfl⟩, by simp⟩

theorem textOf_settles (j : Json) : Settles (textOf (.ofJson j))
    (fun s => ¬ j.HasLong ∧ s = j.display)
    (fun fault => j.HasLong ∧ fault = .badValue Text.tooLongToWrite) := by
  unfold textOf
  by_cases h : j.HasLong
  · rw [Yaml.Value.display_ofJson_of_long h]
    exact ⟨h, rfl⟩
  · rw [Yaml.Value.display_ofJson h]
    exact ⟨⟨h, rfl⟩, fun fault hfault => h hfault.1⟩

theorem ownerOf_settles (j : Json) :
    Settles (ownerOf (.ofJson j)) (fun u => Uuid.read j.display = .ok u) (NoOwner j) := by
  have htext := textOf_settles j
  unfold ownerOf
  cases hread : textOf (.ofJson j) with
  | error fault =>
      rw [hread] at htext
      obtain ⟨hlong, rfl⟩ := htext
      exact .unwritten hlong
  | ok s =>
      rw [hread] at htext
      obtain ⟨⟨hshort, rfl⟩, -⟩ := htext
      rw [ok_bind]
      cases hspelt : Uuid.read j.display with
      | error fault => exact .misspelt hshort hspelt
      | ok u =>
          refine ⟨rfl, ?_⟩
          rintro _ (hlong | ⟨-, hbad⟩)
          · exact hshort hlong
          · rw [hspelt] at hbad
            cases hbad

theorem isPresent_ofJson (j : Json) : (Yaml.Value.ofJson j).isPresent = j.isPresent := by
  cases j with
  | null | bool | int | double | str => rfl
  | arr items => cases items <;> rfl
  | obj ms => cases ms <;> rfl

theorem parts?_ofJson (j : Json) :
    (Yaml.Value.ofJson j).parts? = j.parts?.map (List.map Yaml.Value.ofJson) := by
  cases j with
  | null | bool | int | double => rfl
  | str s => simp [Yaml.Value.ofJson, Yaml.Value.parts?, Json.parts?, Function.comp_def]
  | arr items =>
      have hitems : Yaml.Value.ofItems items = items.map Yaml.Value.ofJson := by
        induction items with
        | nil => rfl
        | cons j rest ih => rw [Yaml.Value.ofItems, ih, List.map_cons]
      exact congrArg some hitems
  | obj ms =>
      have hkeys : (Yaml.Value.ofMembers ms).map (·.1) =
          (ms.map fun m => Json.str m.1).map Yaml.Value.ofJson := by
        induction ms with
        | nil => rfl
        | cons m rest ih =>
            rw [Yaml.Value.ofMembers, List.map_cons, ih]
            rfl
      exact congrArg some hkeys

theorem partsOf_settles (j : Json) : Settles (partsOf (.ofJson j))
    (fun vs => if j.isPresent then ∃ parts, j.parts? = some parts ∧ vs = parts.map .ofJson
      else vs = [])
    (fun fault => j.isPresent = true ∧ j.parts? = none ∧ fault = .defect .wrongKind) := by
  unfold partsOf
  rw [isPresent_ofJson, parts?_ofJson]
  cases hpresent : j.isPresent with
  | false => exact ⟨rfl, by simp⟩
  | true =>
      cases hparts : j.parts? with
      | none => exact ⟨rfl, rfl, rfl⟩
      | some parts => exact ⟨⟨parts, rfl, rfl⟩, by simp⟩

theorem versionOf_settles (j : Json) :
    Settles (versionOf (.ofJson j)) (Counts j) (NoVersion j) := by
  cases j with
  | null => exact .null
  | bool b => exact ⟨.bool b, nofun⟩
  | int n => exact ⟨.int n, nofun⟩
  | arr items => exact .arr items
  | obj ms => exact .obj ms
  | str s =>
      rw [Yaml.Value.ofJson, versionOf]
      cases hread : Text.readInteger 10 s with
      | error fault => exact .numeral hread
      | ok n =>
          refine ⟨.numeral hread, ?_⟩
          rintro _ (_ | _ | _ | hbad)
          rw [hread] at hbad
          cases hbad
  | double d =>
      rw [Yaml.Value.ofJson, versionOf]
      cases hfinite : d.isFinite with
      | true =>
          refine ⟨.double hfinite, ?_⟩
          rintro _ (_ | ⟨hbad, -⟩ | ⟨hbad, -⟩) <;> rw [hfinite] at hbad <;> cases hbad
      | false =>
          cases hnan : d.isNaN with
          | true => exact .nan hfinite hnan
          | false => exact .infinite hfinite hnan

/-- Where a default is faultless, what is at fault is a value that was given. -/
theorem getD_atFault_iff (atFault : Json → Fault → Prop) {default : Json}
    (hdefault : ms.get? key = none → ∀ fault, ¬ atFault default fault) (fault : Fault) :
    atFault ((ms.get? key).getD default) fault ↔
      ∃ j, ms.get? key = some j ∧ atFault j fault := by
  cases hget : ms.get? key with
  | none => simpa using hdefault hget fault
  | some j => simp

theorem faultAt_iff {fault : Fault} : (∃ key, FaultAt ms key fault) ↔
    (ms.get? "dapp_id" = none ∧ fault = .missing "dapp_id") ∨
    (ms.get? "model_id" = none ∧ fault = .missing "model_id") ∨
    (∃ j, ms.get? "model_id" = some j ∧ j.HasLong ∧ fault = .badValue Text.tooLongToWrite) ∨
    (∃ j, ms.get? "name" = some j ∧ j.HasLong ∧ fault = .badValue Text.tooLongToWrite) ∨
    (∃ j, ms.get? "dapp_id" = some j ∧ NoOwner j fault) ∨
    ((Json.field "encryptable" ms).isPresent = true ∧
      (Json.field "encryptable" ms).parts? = none ∧ fault = .defect .wrongKind) ∨
    (∃ j, ms.get? "version" = some j ∧ NoVersion j fault) ∨ False := by
  constructor
  · rintro ⟨_, h | h | ⟨h, hlong⟩ | ⟨h, hlong⟩ | ⟨h, hno⟩ | ⟨hpresent, hparts⟩ | ⟨h, hno⟩⟩
    · exact .inl ⟨h, rfl⟩
    · exact .inr (.inl ⟨h, rfl⟩)
    · exact .inr (.inr (.inl ⟨_, h, hlong, rfl⟩))
    · exact .inr (.inr (.inr (.inl ⟨_, h, hlong, rfl⟩)))
    · exact .inr (.inr (.inr (.inr (.inl ⟨_, h, hno⟩))))
    · exact .inr (.inr (.inr (.inr (.inr (.inl ⟨hpresent, hparts, rfl⟩)))))
    · exact .inr (.inr (.inr (.inr (.inr (.inr (.inl ⟨_, h, hno⟩))))))
  · rintro (⟨h, rfl⟩ | ⟨h, rfl⟩ | ⟨j, h, hlong, rfl⟩ | ⟨j, h, hlong, rfl⟩ | ⟨j, h, hno⟩ |
      ⟨hpresent, hparts, rfl⟩ | ⟨j, h, hno⟩ | h)
    · exact ⟨_, .missingOwner h⟩
    · exact ⟨_, .missingId h⟩
    · exact ⟨_, .id h hlong⟩
    · exact ⟨_, .name h hlong⟩
    · exact ⟨_, .owner h hno⟩
    · exact ⟨_, .encryptable hpresent hparts⟩
    · exact ⟨_, .version h hno⟩
    · exact h.elim

/-- Reading the members of an entry gives the model that they describe, or ends with a fault. -/
theorem ofEntries_settles (ms : Members) : Settles (ofEntries (entriesOf ms))
    (fun m => m.ReadFrom ms) (fun fault => ∃ key, FaultAt ms key fault) := by
  refine Settles.mono ?_ (fun _ h => h) fun fault => faultAt_iff.symm
  refine (needed_settles ms "dapp_id").bind ?_
  rintro _ ⟨owner, howner, rfl⟩
  refine (needed_settles ms "model_id").bind ?_
  rintro _ ⟨id, hid, rfl⟩
  refine ((textOf_settles id).mono (fun _ h => h) fun fault => by simp [hid]).bind ?_
  rintro _ ⟨hshort, rfl⟩
  rw [lookup_entriesOf_getD]
  have hname := textOf_settles ((ms.get? "name").getD id)
  refine (hname.mono (fun _ h => h) ?_).bind ?_
  · exact getD_atFault_iff (fun j fault => j.HasLong ∧ fault = .badValue Text.tooLongToWrite)
      fun _ fault hlong => hshort hlong.1
  rintro _ ⟨-, rfl⟩
  refine ((ownerOf_settles owner).mono (fun _ h => h) fun fault => by simp [howner]).bind ?_
  intro uuid huuid
  refine Settles.bind (lookup_entriesOf_getD ms "encryptable" .null ▸ partsOf_settles _) ?_
  intro parts hparts
  have hversion := (versionOf_settles ((ms.get? "version").getD (.int 0))).mono (fun _ h => h)
    (getD_atFault_iff NoVersion fun _ => nofun)
  refine Settles.bind (lookup_entriesOf_getD ms "version" (.int 0) ▸ hversion) ?_
  intro version hversion
  refine .ok ⟨⟨id, hid, rfl⟩, ?_, ⟨owner, howner, huuid⟩, hparts, hversion⟩
  cases ms.get? "name" <;> rfl

end Steps

/-! ## What is written of a model -/

theorem ofValue_toValue (m : Model) : ofValue m.toValue = .ok m := by
  have howner : ownerOf (.str m.owner.toText) = .ok m.owner := by
    rw [ownerOf, textOf, Yaml.Value.display, ok_bind,
      Uuid.read_of_readStrict? (Uuid.readStrict?_toText m.owner)]
    rfl
  have hparts : partsOf (.seq m.encryptable) = .ok m.encryptable := by
    cases hempty : m.encryptable <;> rfl
  have hentries : ofEntries [("model_id", .str m.id), ("name", .str m.name),
      ("dapp_id", .str m.owner.toText), ("encryptable", .seq m.encryptable),
      ("version", .int m.version)] = .ok m := by
    simp [ofEntries, needed, List.lookup_cons, textOf, Yaml.Value.display, howner, hparts,
      versionOf]
  have hmembers : m.toValue.textMembers? = some [("model_id", .str m.id), ("name", .str m.name),
      ("dapp_id", .str m.owner.toText), ("encryptable", .seq m.encryptable),
      ("version", .int m.version)] := rfl
  rw [ofValue, hmembers]
  simp only [hentries]

/-! ## How faults are reported -/

/--
How a fault of an entry is reported: a missing key under its name, a value that cannot be used
always under the name and with the text of the owner; other faults are not reported, nor is a
value where the owner has no text.
-/
inductive Reported (ms : Members) : Fault → Failure → Prop
  | missing (key : String) :
      Reported ms (.missing key) (.invalid key "missing in model entry" .null)
  | badValue (reason : String) (howner : ¬ (Json.field "dapp_id" ms).HasLong) :
      Reported ms (.badValue reason)
        (.invalid "dapp_id" reason (.str (Json.field "dapp_id" ms).display))
  | unwritten (reason : String) (howner : (Json.field "dapp_id" ms).HasLong) :
      Reported ms (.badValue reason) (.defect .badValue)
  | defect (d : Defect) : Reported ms (.defect d) (.defect d)

theorem reported_iff {ms : Members} {fault : Fault} {f : Failure} :
    Reported ms fault f ↔ fault.failure (.ofJson (Json.field "dapp_id" ms)) = f := by
  constructor
  · rintro (_ | ⟨reason, howner⟩ | ⟨reason, howner⟩ | _)
    · rfl
    · rw [Fault.failure, Yaml.Value.display_ofJson howner]
    · rw [Fault.failure, Yaml.Value.display_ofJson_of_long howner]
    · rfl
  · rintro rfl
    cases fault with
    | missing key => exact .missing key
    | defect d => exact .defect d
    | badValue reason =>
        by_cases howner : (Json.field "dapp_id" ms).HasLong
        · rw [Fault.failure, Yaml.Value.display_ofJson_of_long howner]
          exact .unwritten reason howner
        · rw [Fault.failure, Yaml.Value.display_ofJson howner]
          exact .badValue reason howner

/-- A model is read of members without a fault, and else one of their faults is reported. -/
theorem ofJson_obj_cases (ms : Members) :
    (∃ m, ofJson (.obj ms) = .ok m ∧ m.ReadFrom ms ∧ ∀ key fault, ¬ FaultAt ms key fault) ∨
    ∃ key fault f, FaultAt ms key fault ∧ Reported ms fault f ∧ ofJson (.obj ms) = .error f := by
  have hsettles := ofEntries_settles ms
  have howner := lookup_entriesOf_getD ms "dapp_id" .null
  unfold ofJson ofValue
  rw [textMembers?_ofJson]
  dsimp only
  cases hread : ofEntries (entriesOf ms) with
  | ok m =>
      rw [hread] at hsettles
      exact .inl ⟨m, rfl, hsettles.1, fun key fault h => hsettles.2 fault ⟨key, h⟩⟩
  | error fault =>
      rw [hread] at hsettles
      obtain ⟨key, hfault⟩ := hsettles
      exact .inr ⟨key, fault, _, hfault, reported_iff.mpr rfl,
        congrArg (Except.error ∘ fault.failure) howner⟩

/-- A model is read only of members without a fault, and is what they say. -/
theorem readFrom_of_ofJson {ms : Members} {m : Model} (h : ofJson (.obj ms) = .ok m) :
    m.ReadFrom ms ∧ ∀ key fault, ¬ FaultAt ms key fault := by
  rcases ofJson_obj_cases ms with ⟨m', hm', hread, hnone⟩ | ⟨key, fault, f, -, -, hf⟩
  · rw [hm'] at h
    obtain rfl := Except.ok.inj h
    exact ⟨hread, hnone⟩
  · rw [hf] at h
    cases h

/-- A failure to read a model reports a fault of the members. -/
theorem exists_reported_of_ofJson {ms : Members} {f : Failure} (h : ofJson (.obj ms) = .error f) :
    ∃ key fault, FaultAt ms key fault ∧ Reported ms fault f := by
  rcases ofJson_obj_cases ms with ⟨m, hm, -⟩ | ⟨key, fault, f', hfault, hreport, hf'⟩
  · rw [hm] at h
    cases h
  · rw [hf'] at h
    obtain rfl := Except.error.inj h
    exact ⟨key, fault, hfault, hreport⟩

/-- A fault that is reported under the name of its key: a missing key, or an owner with a text. -/
inductive WellTold (ms : Members) : String → Fault → Prop
  | missing (key : String) : WellTold ms key (.missing key)
  | owner (reason : String) (h : ¬ (Json.field "dapp_id" ms).HasLong) :
      WellTold ms "dapp_id" (.badValue reason)

/-- What comes of reading the members of an entry, said of the faults at their keys. -/
structure Told (ms : Members) : Prop where
  isOk_iff : (∃ m, ofJson (.obj ms) = .ok m) ↔ ∀ key fault, ¬ FaultAt ms key fault
  read : ∀ m, ofJson (.obj ms) = .ok m → m.ReadFrom ms ∧ ofValue m.toValue = .ok m
  /-- One of the faults is reported in the way of such faults. -/
  reported : ∀ f, ofJson (.obj ms) = .error f →
    ∃ key fault, FaultAt ms key fault ∧ Reported ms fault f
  /-- Whatever the faults have in common as reports is what comes of them. -/
  failed : ∀ f key fault, FaultAt ms key fault →
    (∀ key fault, FaultAt ms key fault → Reported ms fault f) → ofJson (.obj ms) = .error f
  /-- With no other faults than missing keys and a bad owner, a key at fault is named. -/
  named : (∀ key fault, FaultAt ms key fault → WellTold ms key fault) →
    ∀ f, ofJson (.obj ms) = .error f →
      ∃ key fault reason value, FaultAt ms key fault ∧ f = .invalid (.str key) reason value

/--
Reading an entry gives the model that it describes, and what is written of that is read as the
model again; or a fault of the entry is reported, in the way of the fault.
-/
theorem entry_told (ms : Members) : Told ms := by
  constructor
  case isOk_iff =>
    constructor
    · rintro ⟨m, hm⟩
      exact (readFrom_of_ofJson hm).2
    · intro hnone
      cases hread : ofJson (.obj ms) with
      | ok m => exact ⟨m, rfl⟩
      | error f =>
          obtain ⟨key, fault, hfault, -⟩ := exists_reported_of_ofJson hread
          exact absurd hfault (hnone key fault)
  case read => exact fun m hm => ⟨(readFrom_of_ofJson hm).1, ofValue_toValue m⟩
  case reported => exact fun f hf => exists_reported_of_ofJson hf
  case failed =>
    intro f key fault hfault hall
    cases hread : ofJson (.obj ms) with
    | ok m => exact absurd hfault ((readFrom_of_ofJson hread).2 key fault)
    | error f' =>
        obtain ⟨key', fault', hfault', hreport⟩ := exists_reported_of_ofJson hread
        have hsame := reported_iff.mp (hall key' fault' hfault')
        rw [← reported_iff.mp hreport, hsame]
  case named =>
    intro hplain f hf
    obtain ⟨key, fault, hfault, hreport⟩ := exists_reported_of_ofJson hf
    cases hplain key fault hfault with
    | missing =>
        obtain ⟨⟩ := hreport
        exact ⟨key, _, _, _, hfault, rfl⟩
    | owner reason howner =>
        cases hreport with
        | badValue => exact ⟨"dapp_id", _, _, _, hfault, rfl⟩
        | unwritten _ hlong => exact absurd hlong howner

/-- The members of an entry with a version that is no numeral. -/
def wordVersion : Members :=
  [("model_id", "m"), ("dapp_id", "7a1f0c7e-2b4d-4c1e-9a57-3f0e8d6b5a21"), ("version", "two")]

/-- A bad version is reported as a bad owner, although nothing is wrong with the owner. -/
theorem bad_version_told_as_owner :
    ofJson (.obj wordVersion) = .error (.invalid "dapp_id"
      "invalid literal for int() with base 10: 'two'" "7a1f0c7e-2b4d-4c1e-9a57-3f0e8d6b5a21") ∧
    ∀ fault, ¬ FaultAt wordVersion "dapp_id" fault := by
  have hread : Uuid.read "7a1f0c7e-2b4d-4c1e-9a57-3f0e8d6b5a21" =
      .ok ⟨0x7a1f0c7e2b4d4c1e9a573f0e8d6b5a21, by decide⟩ := by decide +kernel
  constructor
  · rfl
  · intro fault hfault
    generalize hkey : "dapp_id" = key at hfault
    cases hfault with
    | missingOwner h => cases h
    | owner h hno =>
        obtain rfl := Option.some.inj h
        cases hno with
        | unwritten hlong => cases hlong
        | misspelt _ hbad =>
            rw [Json.display, hread] at hbad
            cases hbad
    | missingId | id | name | encryptable | version => simp at hkey

end Model

end ChainFold
