import ChainFold.Proofs.Double.Parts
import ChainFold.Proofs.Json.Numerals
import ChainFold.Proofs.Json.Parts

/-!
# What was read can be restored

Every scalar that is read from a text is read back from the text that is written for it:
an integer has no more digits than are written, and a double is finite or has a word.  So
every value that was read, and every value made of the scalars of such values, is read back
from its archived text, with the members of its objects in order.
-/

namespace ChainFold

/-! ## Doubles that decimals stand for -/

namespace Double

theorem isFinite_ofMagnitude {magnitude : Nat} (h : magnitude < 2047 * Nat.pow 2 52)
    (negative : Bool) : (ofMagnitude negative magnitude).isFinite = true := by
  have hfraction : Nat.pow 2 52 = 4503599627370496 := rfl
  have hsign : Nat.pow 2 63 = 9223372036854775808 := rfl
  have hfield : Nat.pow 2 11 = 2048 := rfl
  have hsize : 2 ^ 64 = 18446744073709551616 := rfl
  rw [hfraction] at h
  simp only [isFinite, exponentField, ofMagnitude, UInt64.toNat_ofNat', hfraction, hsign, hfield,
    hsize, bne_iff_ne]
  cases negative
  · simp only [Bool.false_eq_true, if_false]
    omega
  · simp only [if_true]
    omega

theorem ofRatio_cases (negative : Bool) (num den : Nat) :
    (ofRatio negative num den).isFinite = true ∨ ofRatio negative num den = infinity negative := by
  have hzero : (zero negative).isFinite = true := isFinite_ofMagnitude (by decide) negative
  unfold ofRatio
  dsimp only
  generalize (if _ < Nat.pow 2 52 then _ else _) = magnitude
  split
  · exact .inl hzero
  · split
    · exact .inr rfl
    · rename_i hlt
      exact .inl (isFinite_ofMagnitude (Nat.lt_of_not_le hlt) negative)

/-- A decimal stands for a finite double or for an infinity. -/
theorem ofDecimal_cases (negative : Bool) (digits : Nat) (exp : Int) :
    (ofDecimal negative digits exp).isFinite = true ∨
      ofDecimal negative digits exp = infinity negative := by
  have hzero : (zero negative).isFinite = true := isFinite_ofMagnitude (by decide) negative
  unfold ofDecimal
  split
  · exact .inl hzero
  · split
    · exact .inr rfl
    · split
      · exact .inl hzero
      · split <;> exact ofRatio_cases ..

end Double

namespace Json

variable {ascii : Bool}

/-! ## Doubles that have a word -/

/-- A value that is written as one word is read back if the word is read as it. -/
theorem readBack_word {j : Json} (c : Char) (cs : List Char) (hgap : isGap c = false)
    (hc : c ≠ ']') (hprint : print (tight ascii) j = c :: cs)
    (hreads : ∀ fuel rest, readValue (fuel + 1) (c :: cs ++ rest) = .ok (j, rest)) :
    ReadBack ascii j := by
  refine ⟨⟨c, cs, hprint, hgap, hc⟩, ?_⟩
  intro fuel rest hfuel _
  rw [hprint] at hfuel ⊢
  cases fuel with
  | zero => simp at hfuel
  | succ fuel => exact hreads fuel rest

theorem readBack_nan : ReadBack ascii (.double Double.nan) :=
  readBack_word 'N' ['a', 'N'] rfl (by decide) rfl fun _ _ => rfl

theorem readBack_infinity (negative : Bool) :
    ReadBack ascii (.double (Double.infinity negative)) := by
  cases negative
  · exact readBack_word 'I' ['n', 'f', 'i', 'n', 'i', 't', 'y'] rfl (by decide) rfl
      fun _ _ => rfl
  · exact readBack_word '-' ['I', 'n', 'f', 'i', 'n', 'i', 't', 'y'] rfl
      (by decide) rfl fun _ _ => rfl

theorem readBack_ofDecimal (negative : Bool) (digits : Nat) (exp : Int) :
    ReadBack ascii (.double (.ofDecimal negative digits exp)) := by
  rcases Double.ofDecimal_cases negative digits exp with hfinite | hinfinite
  · exact readBack_double hfinite
  · rw [hinfinite]
    exact readBack_infinity negative

/-! ## Scalars that were read -/

theorem ofDigits_lt {ds : List Char} (h : ∀ c ∈ ds, c.isDigit = true) :
    ofDigits ds < 10 ^ ds.length := by
  rw [ofDigits_eq]
  induction ds with
  | nil => simp
  | cons c ds ih =>
      obtain ⟨hc, hds⟩ := List.forall_mem_cons.mp h
      have hdigit : c.toNat - '0'.toNat ≤ 9 := by
        have hle : c.toNat ≤ '9'.toNat := (Char.isDigit_iff_toNat.mp hc).2
        have hnine : '9'.toNat = '0'.toNat + 9 := rfl
        omega
      calc Nat.ofDigitChars 10 (c :: ds) 0
          = 10 ^ ds.length * (c.toNat - '0'.toNat) + Nat.ofDigitChars 10 ds 0 := by
            rw [Nat.ofDigitChars_cons, Nat.mul_zero, Nat.zero_add,
              Nat.ofDigitChars_eq_ofDigitChars_zero]
        _ < 10 ^ ds.length * 9 + 10 ^ ds.length :=
            Nat.add_lt_add_of_le_of_lt (Nat.mul_le_mul_left _ hdigit) (ih hds)
        _ = 10 ^ (c :: ds).length := by
            rw [List.length_cons, Nat.pow_succ]
            omega

theorem isDigit_of_mem_splitWhole {cs : List Char} :
    ∀ c ∈ (splitWhole cs).1, c.isDigit = true := by
  unfold splitWhole
  split
  · simp
  · exact List.all_eq_true.mp List.all_takeWhile

/-- A sign and digits, no more than are converted, stand for an integer that can be written. -/
theorem isTooLong_ofDigits {ds : List Char} (h : ∀ c ∈ ds, c.isDigit = true)
    (hlength : ds.length ≤ Text.maxDecimalDigits) (negative : Bool) :
    Text.isTooLong (if negative then -(ofDigits ds : Int) else ofDigits ds) = false := by
  have habs : (if negative then -(ofDigits ds : Int) else ofDigits ds).natAbs = ofDigits ds := by
    cases negative <;> simp
  rw [Text.isTooLong, decide_eq_false_iff_not, habs]
  generalize Text.maxDecimalDigits = limit at hlength
  exact Nat.not_le_of_lt ((ofDigits_lt h).trans_le (Nat.pow_le_pow_right (by decide) hlength))

theorem madeOf_of_readUnsigned {negative : Bool} {cs rest : List Char} {j : Json}
    (h : readUnsigned negative cs = .ok (j, rest)) : MadeOf (ReadBack ascii) j := by
  unfold readUnsigned at h
  dsimp only at h
  split at h
  · cases h
  · split at h
    · split at h
      · cases h
      · rename_i hlength
        obtain ⟨rfl, -⟩ := Prod.mk.inj (Except.ok.inj h)
        exact .scalar nofun nofun <| readBack_int <|
          isTooLong_ofDigits isDigit_of_mem_splitWhole (Nat.le_of_not_lt hlength) negative
    · obtain ⟨rfl, -⟩ := Prod.mk.inj (Except.ok.inj h)
      exact .scalar nofun nofun (readBack_ofDecimal ..)

theorem madeOf_of_readScalar {cs rest : List Char} {j : Json}
    (h : readScalar cs = .ok (j, rest)) : MadeOf (ReadBack ascii) j := by
  unfold readScalar at h
  split at h
  case h_7 => exact madeOf_of_readUnsigned h
  case h_8 => exact madeOf_of_readUnsigned h
  all_goals
    obtain ⟨rfl, -⟩ := Prod.mk.inj (Except.ok.inj h)
    refine .scalar nofun nofun ?_
  · exact readBack_null
  · exact readBack_bool true
  · exact readBack_bool false
  · exact readBack_nan
  · exact readBack_infinity false
  · exact readBack_infinity true

/-! ## Values that were read -/

/--
A value that can be restored: no key is repeated in an object, and every scalar is read back
from its text.
-/
structure Restorable (j : Json) : Prop where
  tidy : j.Tidy
  made : MadeOf (ReadBack true) j

theorem keptByReading_madeOf (ascii : Bool) : KeptByReading (MadeOf (ReadBack ascii)) where
  scalar := fun _ _ _ => madeOf_of_readScalar
  str := fun s => .scalar nofun nofun (readBack_str s)
  arr := fun _ => .arr
  obj := fun _ _ => .obj

theorem restorable_of_readText {text : String} {j : Json} (h : readText text = .ok j) :
    j.Restorable :=
  ⟨keptByReading_tidy.of_readText h, (keptByReading_madeOf true).of_readText h⟩

theorem restorable_of_readBytes {bs : Bytes} {j : Json} (h : readBytes bs = .ok j) :
    j.Restorable :=
  ⟨keptByReading_tidy.of_readBytes h, (keptByReading_madeOf true).of_readBytes h⟩

/-! ### Parts of such values -/

theorem restorable_null : Json.null.Restorable := ⟨trivial, .scalar nofun nofun readBack_null⟩

theorem restorable_str (s : String) : (Json.str s).Restorable :=
  ⟨trivial, .scalar nofun nofun (readBack_str s)⟩

theorem Restorable.field {ms : Members} (h : (Json.obj ms).Restorable) (key : String) :
    (Json.field key ms).Restorable := by
  unfold Json.field
  cases hget : Members.get? key ms with
  | none => exact restorable_null
  | some j =>
      have hmem : (key, j) ∈ ms := Members.mem_of_get? hget
      exact ⟨(tidy_obj_iff.mp h.tidy).2 _ hmem, madeOf_obj_iff.mp h.made _ hmem⟩

theorem Restorable.parts {j part : Json} (h : j.Restorable) (hpart : part ∈ j.parts?.getD []) :
    part.Restorable := by
  cases j with
  | null | bool | int | double => simp [parts?] at hpart
  | str s =>
      obtain ⟨c, -, rfl⟩ := List.mem_map.mp hpart
      exact restorable_str _
  | arr items => exact ⟨tidy_arr_iff.mp h.tidy part hpart, madeOf_arr_iff.mp h.made part hpart⟩
  | obj ms =>
      obtain ⟨m, -, rfl⟩ := List.mem_map.mp hpart
      exact restorable_str _

/-! ## Storing and reading again -/

/-- What is made of scalars that are read back is read back, if it repeats no key. -/
theorem MadeOf.readBack {j : Json} (h : MadeOf (ReadBack ascii) j) (ht : j.Tidy) :
    ReadBack ascii j := by
  induction h with
  | scalar _ _ h => exact h
  | arr _ ih => exact readBack_arr fun j hj => ih j hj (tidy_arr_iff.mp ht j hj)
  | obj _ ih =>
      obtain ⟨hkeys, hms⟩ := tidy_obj_iff.mp ht
      exact readBack_obj hkeys fun m hm => ih m hm (hms m hm)

theorem Restorable.sortKeys {j : Json} (h : j.Restorable) : j.sortKeys.Restorable :=
  ⟨h.tidy.sortKeys, h.made.sortKeys⟩

/-- The archived text of a value that can be restored is read as it, with its keys in order. -/
theorem Restorable.readText_archived {j : Json} (h : j.Restorable) :
    readText j.archived = .ok j.sortKeys := by
  have hread : read (print compactAscii j.sortKeys) = .ok j.sortKeys :=
    (h.sortKeys.made.readBack h.sortKeys.tidy).read_print
  rw [readText, archived, String.toList_ofList, hread]

/-- A patch that was read takes a value that can be restored to another one. -/
theorem Restorable.result? {j r : Json} {patch : List Json} (h : j.Restorable)
    (hpatch : ∀ x ∈ patch, x.Restorable) (hr : Patch.result? patch j = some r) : r.Restorable := by
  refine ⟨?_, Patch.madeOf_result? h.made (fun x hx => (hpatch x hx).made) hr⟩
  -- A result is tidy because it is alike to itself.
  have halike := Patch.alike_result? (.refl h.tidy) fun x hx => (hpatch x hx).tidy
  rw [hr] at halike
  exact Alike.left halike

end Json

end ChainFold
