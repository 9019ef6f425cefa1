import ChainFold.Uuid
import Mathlib.Algebra.Group.Nat.Defs
import Mathlib.Data.List.Basic

/-!
# UUIDs are read back

A UUID is written in one way, and what is written is read back even by the strictest
reader.  So two owners are the same if their texts are.
-/

namespace ChainFold

namespace Text

/-! ## Hexadecimal digits -/

theorem digit?_hexDigit : ∀ n < 16, digit? 16 (hexDigit n) = some n := by decide +kernel

theorem hexDigit_ascii : ∀ n < 16, (hexDigit n).toNat < 128 := by decide +kernel

theorem hexDigit_ne_mark : ∀ n < 16, hexDigit n ≠ '-' ∧ hexDigit n ≠ '\x7b' := by decide +kernel

theorem length_hexDigits (width n : Nat) : (hexDigits width n).length = width := by
  induction width generalizing n with
  | zero => rfl
  | succ width ih => simp [hexDigits, ih]

theorem mem_hexDigits {width n : Nat} {c : Char} (h : c ∈ hexDigits width n) :
    ∃ d < 16, c = hexDigit d := by
  induction width generalizing n with
  | zero => simp [hexDigits] at h
  | succ width ih =>
      rw [hexDigits, List.mem_append, List.mem_singleton] at h
      rcases h with h | h
      · exact ih h
      · exact ⟨n % 16, Nat.mod_lt _ (by decide), h⟩

/-- The lowest digits of a number are read as what they leave of it. -/
theorem ofDigits_hexDigits (width n : Nat) :
    ofDigits 16 ((hexDigits width n).filterMap (digit? 16)) = n % 16 ^ width := by
  induction width generalizing n with
  | zero => simp [hexDigits, ofDigits, Nat.mod_one]
  | succ width ih =>
      have hlow := digit?_hexDigit (n % 16) (Nat.mod_lt _ (by decide))
      have hhigh := ih (n / 16)
      simp only [ofDigits] at hhigh
      simp only [ofDigits, hexDigits, List.filterMap_append, List.filterMap_cons, hlow,
        List.filterMap_nil, List.foldl_append, List.foldl_cons, List.foldl_nil, hhigh]
      rw [Nat.pow_succ, Nat.mul_comm (16 ^ width) 16, Nat.mod_mul]
      omega

end Text

namespace Uuid

def hexes (u : Uuid) : List Char := Text.hexDigits 32 u.value

theorem hexes_ne_mark {u : Uuid} {c : Char} (h : c ∈ u.hexes) : c ≠ '-' ∧ c ≠ '\x7b' := by
  obtain ⟨d, hd, rfl⟩ := Text.mem_hexDigits h
  exact Text.hexDigit_ne_mark d hd

theorem toList_toText (u : Uuid) : u.toText.toList =
    u.hexes.take 8 ++ '-' :: ((u.hexes.drop 8).take 4 ++ '-' :: ((u.hexes.drop 12).take 4 ++
      '-' :: ((u.hexes.drop 16).take 4 ++ '-' :: (u.hexes.drop 20).take 12))) := by
  simp [toText, hexes]

theorem filter_toText (u : Uuid) : u.toText.toList.filter (· != '-') = u.hexes := by
  have hkeep : ∀ ds : List Char, ds ⊆ u.hexes → ds.filter (· != '-') = ds := by
    intro ds hsub
    refine List.filter_eq_self.mpr fun c hc => ?_
    simpa using (hexes_ne_mark (hsub hc)).1
  have hpart : ∀ i k, (u.hexes.drop i).take k ⊆ u.hexes := fun i k =>
    List.Subset.trans (List.take_subset _ _) (List.drop_subset _ _)
  have hcut : ∀ i k, u.hexes.drop i = (u.hexes.drop i).take k ++ u.hexes.drop (i + k) := by
    intro i k
    rw [← List.drop_drop, List.take_append_drop]
  have hlast : u.hexes.drop 20 = (u.hexes.drop 20).take 12 :=
    (List.take_of_length_le (by simp [hexes, Text.length_hexDigits])).symm
  have hdash : ('-' != '-') = false := rfl
  rw [toList_toText]
  simp only [List.filter_append, List.filter_cons, hdash, Bool.false_eq_true, if_false,
    hkeep _ (hpart _ _), hkeep _ (List.take_subset 8 u.hexes)]
  rw [← hlast, ← hcut 16 4, ← hcut 12 4, ← hcut 8 4, List.take_append_drop]

theorem exists_cons_toText (u : Uuid) : ∃ c rest, u.toText.toList = c :: rest ∧ c ≠ '\x7b' := by
  have hlength : u.hexes.length = 32 := Text.length_hexDigits 32 _
  cases hds : u.hexes with
  | nil => simp [hds] at hlength
  | cons c rest =>
      have hc : c ∈ u.hexes := by simp [hds]
      rw [toList_toText, hds, List.take_succ_cons, List.cons_append]
      exact ⟨c, _, rfl, (hexes_ne_mark hc).2⟩

/-- The text of a UUID is read as the UUID, by the strictest reader. -/
theorem readStrict?_toText (u : Uuid) : readStrict? u.toText = some u := by
  obtain ⟨c, rest, htext, hc⟩ := u.exists_cons_toText
  have hlength : u.hexes.length = 32 := Text.length_hexDigits 32 _
  have hall : u.hexes.all isHexDigit = true := by
    refine List.all_eq_true.mpr fun d hd => ?_
    obtain ⟨n, hn, rfl⟩ := Text.mem_hexDigits hd
    simp [isHexDigit, Text.digit?_hexDigit n hn, Text.hexDigit_ascii n hn]
  have hvalue : (u.value : Nat) % 16 ^ 32 = u.value := Nat.mod_eq_of_lt u.value.isLt
  have hdigits := u.filter_toText
  unfold readStrict?
  rw [htext] at hdigits ⊢
  split
  · rename_i heq
    exact absurd (List.cons.inj heq).1 hc
  · simp only [Option.bind_eq_bind, Option.bind_some, hdigits, hlength, hall]
    rw [hexes, Text.ofDigits_hexDigits, hvalue]
    simp

theorem toText_injective {u v : Uuid} (h : u.toText = v.toText) : u = v := by
  have hread := readStrict?_toText u
  rw [h, readStrict?_toText v] at hread
  exact (Option.some.inj hread).symm

end Uuid

end ChainFold
