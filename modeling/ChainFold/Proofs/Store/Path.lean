import ChainFold.Proofs.Json.Writing
import ChainFold.Store.Path
import Mathlib.Data.List.TakeWhile

/-!
# Keys that a path leads to

The path to a key spells the key out, whereas a stored label is the key as JSON text.
The two are the same for a key of printable characters of ASCII without quotes and
backslashes, and only for such a key: what is stored under any other one is not found
by its path, as long as labels are compared with keys as they are stored.
-/

namespace ChainFold.Path

open Json

variable {key : String} {ms : Members} {value : Json}

/-! ## Plain keys -/

/-- A character that is stored as it is: printable, of ASCII, no quote and no backslash. -/
def isPlain (c : Char) : Bool := 0x20 ≤ c.toNat && c.toNat < 0x7f && c != '"' && c != '\\'

/-- A key that is stored as it is. -/
def PlainKey (key : String) : Prop := ∀ c ∈ key.toList, isPlain c = true

instance (key : String) : Decidable (PlainKey key) :=
  decidable_of_iff (key.toList.all isPlain = true) List.all_eq_true

theorem isPlain_iff (c : Char) : isPlain c = true ↔
    0x20 ≤ c.toNat ∧ c.toNat < 0x7f ∧ c ≠ '"' ∧ c ≠ '\\' := by
  simp [isPlain, and_assoc]

theorem escapeChar_of_plain {c : Char} (h : isPlain c = true) : escapeChar true c = [c] := by
  obtain ⟨hleast, hmost, hquote, hslash⟩ := (isPlain_iff c).mp h
  have hcontrol : ∀ d : Char, d.toNat < 0x20 → (c == d) = false := by
    intro d hd
    rw [beq_eq_false_iff_ne]
    rintro rfl
    omega
  have hnot : ¬ c.toNat < 0x20 := by omega
  unfold escapeChar
  simp [hquote, hslash, hcontrol, hnot, hmost]

theorem length_unitEscape (n : Nat) : (unitEscape n).length = 6 := by
  simp [unitEscape, Text.hexDigits]

theorem one_lt_length_escapeChar {c : Char} (h : isPlain c = false) :
    1 < (escapeChar true c).length := by
  have hplain := mt (isPlain_iff c).mpr (ne_true_of_eq_false h)
  unfold escapeChar
  split_ifs with h1 h2 h3 h4 h5 h6 h7 h8 h9 h10
  · simp
  · simp
  · simp
  · simp
  · simp
  · simp
  · simp
  · simp [length_unitEscape]
  · -- The only character that stands for itself would be a plain one.
    have hmost : c.toNat < 0x7f := by simpa using h9
    exact absurd ⟨by omega, hmost, by simpa using h1, by simpa using h2⟩ hplain
  · simp [length_unitEscape]
  · simp [length_unitEscape]

/-! ## Stored labels -/

theorem storedLabel_eq (key : String) : storedLabel key = key.toList.flatMap (escapeChar true) := by
  simp [storedLabel, stringText]

theorem storedLabel_injective {k k' : String} (h : storedLabel k = storedLabel k') : k = k' := by
  rw [storedLabel_eq, storedLabel_eq] at h
  have hread := readString_flatMap true k.toList []
  rw [h, readString_flatMap true k'.toList []] at hread
  exact String.toList_inj.mp (Prod.mk.inj (Except.ok.inj hread)).1.symm

theorem storedLabel_of_plain (h : PlainKey key) : storedLabel key = key.toList := by
  have hself : ∀ cs : List Char, (∀ c ∈ cs, isPlain c = true) →
      cs.flatMap (escapeChar true) = cs := by
    intro cs hcs
    induction cs with
    | nil => rfl
    | cons c cs ih =>
        obtain ⟨hc, hrest⟩ := List.forall_mem_cons.mp hcs
        rw [List.flatMap_cons, escapeChar_of_plain hc, ih hrest]
        rfl
  rw [storedLabel_eq]
  exact hself _ h

/-- By its label a member is found as by its key. -/
theorem member?_storedLabel (key : String) (ms : Members) :
    member? (storedLabel key) ms = ms.get? key := by
  induction ms with
  | nil => rfl
  | cons m rest ih =>
      obtain ⟨k, v⟩ := m
      by_cases hk : k = key
      · simp [member?, Members.get?, hk]
      · have hlabel : storedLabel k ≠ storedLabel key := fun h => hk (storedLabel_injective h)
        simpa [member?, Members.get?, hk, hlabel] using ih

/-! ## Paths of plain keys -/

/-- A key as its path spells it out, before it breaks off. -/
def spelled (key : String) : List Char :=
  key.toList.flatMap fun c => if c == '"' then ['\\', '"'] else [c]

theorem ofKey_eq (key : String) :
    ofKey key = '.' :: '"' :: (spelled key ++ ['"']).takeWhile (· != '\x00') := by
  simp [ofKey, spelled]

/-- A key without quotes is spelled out as it is. -/
theorem spelled_of_ne (h : ∀ c ∈ key.toList, c ≠ '"') : spelled key = key.toList := by
  have hone : ∀ c ∈ key.toList, (if c == '"' then ['\\', '"'] else [c]) = [c] := by
    intro c hc
    simp [h c hc]
  rw [spelled, List.flatMap_congr hone, List.flatMap_singleton']

theorem ofKey_of_plain (h : PlainKey key) : ofKey key = '.' :: '"' :: (key.toList ++ ['"']) := by
  have hspelled := spelled_of_ne fun c hc => ((isPlain_iff c).mp (h c hc)).2.2.1
  have hall : ∀ c ∈ key.toList ++ ['"'], (c != '\x00') = true := by
    simp only [List.forall_mem_cons, List.forall_mem_append]
    refine ⟨?_, rfl, by simp⟩
    intro c hc
    have hleast := ((isPlain_iff c).mp (h c hc)).1
    rw [bne_iff_ne]
    rintro rfl
    exact absurd hleast (by decide)
  rw [ofKey_eq, hspelled, List.takeWhile_eq_self_iff.mpr hall]

theorem label?_of_plain (h : PlainKey key) :
    label? ('"' :: (key.toList ++ ['"'])) = some (key.toList, []) := by
  have hall : ∀ c ∈ key.toList, (c != '"') = true := by
    intro c hc
    rw [bne_iff_ne]
    exact ((isPlain_iff c).mp (h c hc)).2.2.1
  simp only [label?]
  rw [List.dropWhile_append_of_pos hall, List.takeWhile_append_of_pos hall]
  simp

/-- Whether the path of a key finds in an object what is there under the key, but for null. -/
def Addresses (key : String) (ms : Members) : Prop :=
  finds key (.obj ms) = .ok ((ms.get? key).bind nonNull).isSome

/-- A plain key is found by its path in every object. -/
theorem finds_of_plain (h : PlainKey key) (ms : Members) : Addresses key ms := by
  unfold Addresses
  have hmember : member? key.toList ms = ms.get? key := by
    rw [← storedLabel_of_plain h, member?_storedLabel]
  rw [finds, ofKey_of_plain h]
  simp only [follow, label?_of_plain h, hmember]
  cases hget : ms.get? key with
  | none => rfl
  | some v => simp

/-! ## Paths of other keys -/

theorem length_le_flatMap_escapeChar (cs : List Char) :
    cs.length ≤ (cs.flatMap (escapeChar true)).length := by
  induction cs with
  | nil => simp
  | cons c cs ih =>
      have hc : 1 ≤ (escapeChar true c).length := by
        cases h : isPlain c with
        | true => simp [escapeChar_of_plain h]
        | false => exact Nat.le_of_lt (one_lt_length_escapeChar h)
      rw [List.flatMap_cons, List.length_append, List.length_cons]
      omega

/-- Only plain characters are written in as much room as they take. -/
theorem plain_of_length_le {cs : List Char}
    (h : (cs.flatMap (escapeChar true)).length ≤ cs.length) : ∀ c ∈ cs, isPlain c = true := by
  induction cs with
  | nil => simp
  | cons c cs ih =>
      have hrest := length_le_flatMap_escapeChar cs
      rw [List.flatMap_cons, List.length_append, List.length_cons] at h
      cases hc : isPlain c with
      | false =>
          have hlong := one_lt_length_escapeChar hc
          omega
      | true =>
          rw [escapeChar_of_plain hc, List.length_singleton] at h
          exact List.forall_mem_cons.mpr ⟨hc, ih (by omega)⟩

theorem label?_quote {cs label behind : List Char} (h : label? ('"' :: cs) = some (label, behind)) :
    '"' ∉ label ∧ label.Sublist cs := by
  simp only [label?] at h
  split at h
  · cases h
  · obtain ⟨rfl, -⟩ := Prod.mk.inj (Option.some.inj h)
    refine ⟨?_, List.takeWhile_sublist _⟩
    intro hmem
    have hne := List.mem_takeWhile_imp hmem
    simp at hne

/-- What is found by the path of its key has a label that the path spells out. -/
theorem storedLabel_of_finds (h : finds key (.obj [(key, value)]) = .ok true) :
    '"' ∉ storedLabel key ∧ (storedLabel key).Sublist (spelled key ++ ['"']) := by
  obtain ⟨found?, hfollow, hfound⟩ := map_eq_ok.mp h
  rw [ofKey_eq] at hfollow
  simp only [follow] at hfollow
  cases hlabel : label? ('"' :: (spelled key ++ ['"']).takeWhile (· != '\x00')) with
  | none => simp [hlabel] at hfollow
  | some p =>
      obtain ⟨label, behind⟩ := p
      simp only [hlabel] at hfollow
      by_cases hsame : storedLabel key = label
      · obtain ⟨hquote, hsub⟩ := label?_quote hlabel
        rw [hsame]
        exact ⟨hquote, hsub.trans (List.takeWhile_sublist _)⟩
      · have hnone : member? label [(key, value)] = none := by simp [member?, hsame]
        rw [hnone] at hfollow
        obtain rfl := Except.ok.inj hfollow
        cases hfound

/-- What is stored under a key alone is found by the path of the key only if the key is plain. -/
theorem finds_self_iff (hvalue : value ≠ .null) :
    finds key (.obj [(key, value)]) = .ok true ↔ PlainKey key := by
  constructor
  · intro h
    obtain ⟨hquote, hsub⟩ := storedLabel_of_finds h
    rw [storedLabel_eq] at hquote hsub
    have hkey : ∀ c ∈ key.toList, c ≠ '"' := by
      rintro c hc rfl
      exact hquote (List.mem_flatMap.mpr ⟨_, hc, by simp [escapeChar]⟩)
    have hspelled := spelled_of_ne hkey
    -- Without its last quote the path has as many characters as the key.
    have hlength : (key.toList.flatMap (escapeChar true)).length ≤ key.toList.length := by
      have hlabel : (key.toList.flatMap (escapeChar true)).filter (· != '"') =
          key.toList.flatMap (escapeChar true) := by
        refine List.filter_eq_self.mpr fun c hc => ?_
        rw [bne_iff_ne]
        rintro rfl
        exact hquote hc
      have hsame : key.toList.filter (· != '"') = key.toList :=
        List.filter_eq_self.mpr fun c hc => bne_iff_ne.mpr (hkey c hc)
      have hkept := (hsub.filter (· != '"')).length_le
      rw [hlabel, hspelled, List.filter_append, hsame] at hkept
      simpa using hkept
    exact plain_of_length_le hlength
  · intro h
    rw [finds_of_plain h]
    cases value <;> simp_all [Members.get?, nonNull]

end ChainFold.Path
