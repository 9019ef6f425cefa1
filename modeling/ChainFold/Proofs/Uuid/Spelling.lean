import ChainFold.Proofs.Uuid
import Mathlib.Data.List.TakeWhile

/-!
# Two readers of UUIDs

One reader takes many spellings of a UUID, another one takes digits, hyphens and one pair
of braces only.  What the strict reader takes the other one reads as the same UUID.
-/

namespace ChainFold

namespace Text

theorem trimBoth_of_none {p : Char → Bool} {start body rest : List Char}
    (hstart : ∀ c ∈ start, p c = true) (hbody : ∀ c ∈ body, p c = false) (hne : body ≠ [])
    (hrest : ∀ c ∈ rest, p c = true) : trimBoth p (start ++ (body ++ rest)) = body := by
  have hkeep : ∀ {cs tail : List Char}, cs ≠ [] → (∀ c ∈ cs, p c = false) →
      (cs ++ tail).dropWhile p = cs ++ tail := by
    intro cs tail hcs hnone
    cases cs with
    | nil => exact absurd rfl hcs
    | cons c cs => simp [hnone c List.mem_cons_self]
  unfold trimBoth
  rw [List.dropWhile_append_of_pos hstart, hkeep hne hbody, List.reverse_append,
    List.dropWhile_append_of_pos (by simpa using hrest)]
  have hback : (body.reverse ++ []).dropWhile p = body.reverse ++ [] :=
    hkeep (by simpa using hne) (by simpa using hbody)
  rw [List.append_nil] at hback
  rw [hback, List.reverse_reverse]

theorem digitValues?_of_digits {base : Nat} {cs : List Char} (hne : cs ≠ [])
    (hdigits : ∀ c ∈ cs, (digit? base c).isSome = true ∧ c ≠ '_') :
    digitValues? base cs = some (cs.filterMap (digit? base)) := by
  induction cs with
  | nil => exact absurd rfl hne
  | cons c rest ih =>
      obtain ⟨⟨hc, -⟩, hrest⟩ := List.forall_mem_cons.mp hdigits
      obtain ⟨d, hd⟩ := Option.isSome_iff_exists.mp hc
      cases rest with
      | nil => simp [digitValues?, hd]
      | cons c' rest =>
          have hbar : c' ≠ '_' := (hrest c' List.mem_cons_self).2
          rw [digitValues?, ih (by simp) hrest, List.filterMap_cons_some hd, hd]
          · rfl
          · simp
          · rintro rest' ⟨⟩
            exact hbar rfl

end Text

namespace Uuid

theorem without_of_not_mem {c : Char} {mark cs : List Char} (h : c ∉ cs) (fuel : Nat) :
    without (c :: mark) fuel cs = cs := by
  induction fuel generalizing cs with
  | zero => rfl
  | succ fuel ih =>
      cases cs with
      | nil => rfl
      | cons d rest =>
          obtain ⟨hd, hrest⟩ := List.ne_and_not_mem_of_not_mem_cons h
          have hno : (c :: mark).isPrefixOf (d :: rest) = false := by
            simp [List.isPrefixOf, hd]
          rw [without, hno, ih hrest]
          rfl

/-- What a hexadecimal digit of ASCII is not. -/
theorem not_mark_of_isHexDigit {c : Char} (h : isHexDigit c = true) :
    Text.isNumeralBlank c = false ∧ isBrace c = false ∧ c ∉ ['_', '-', '+', 'x', 'X', 'u'] := by
  have hall : ∀ n < 128, isHexDigit (Char.ofNat n) = true →
      Text.isNumeralBlank (Char.ofNat n) = false ∧ isBrace (Char.ofNat n) = false ∧
        Char.ofNat n ∉ ['_', '-', '+', 'x', 'X', 'u'] := by
    decide +kernel
  obtain ⟨hascii, -⟩ := Bool.and_eq_true_iff.mp h
  have hself : Char.ofNat c.toNat = c := Char.ofNat_toNat c
  have hc := hall c.toNat (of_decide_eq_true hascii)
  rw [hself] at hc
  exact hc h

/-- Digits of ASCII alone are read as the number that they write. -/
theorem readInteger_of_hexDigits {ds : List Char} (hne : ds ≠ [])
    (hds : ∀ c ∈ ds, isHexDigit c = true) :
    Text.readInteger 16 (String.ofList ds) =
      .ok (Text.ofDigits 16 (ds.filterMap (Text.digit? 16)) : Nat) := by
  have hdigit : ∀ c ∈ ds, (Text.digit? 16 c).isSome = true ∧ c ≠ '_' := by
    intro c hc
    obtain ⟨-, hsome⟩ := Bool.and_eq_true_iff.mp (hds c hc)
    obtain ⟨-, -, hmark⟩ := not_mark_of_isHexDigit (hds c hc)
    exact ⟨hsome, fun h => hmark (by simp [h])⟩
  have htrim : Text.trimBoth Text.isNumeralBlank ds = ds := by
    have h : Text.trimBoth Text.isNumeralBlank ([] ++ (ds ++ [])) = ds :=
      Text.trimBoth_of_none (by simp) (fun c hc => (not_mark_of_isHexDigit (hds c hc)).1) hne
        (by simp)
    simpa using h
  have hsign : Text.splitSign ds = (false, ds) := by
    unfold Text.splitSign
    split
    · exact absurd (by simp) (not_mark_of_isHexDigit (hds '-' (by simp))).2.2
    · exact absurd (by simp) (not_mark_of_isHexDigit (hds '+' (by simp))).2.2
    · rfl
  have hbase : Text.dropBaseMark ds = ds := by
    unfold Text.dropBaseMark
    split
    · rename_i z x rest
      have hx := (not_mark_of_isHexDigit (hds x (by simp))).2.2
      have hno : (x == 'x' || x == 'X') = false := by
        rw [Bool.or_eq_false_iff, beq_eq_false_iff_ne, beq_eq_false_iff_ne]
        exact ⟨fun h => hx (by simp [h]), fun h => hx (by simp [h])⟩
      simp [hno]
    · rfl
  have hrun : ∀ c ∈ ds, (c == '_' || (Text.digit? 16 c).isSome) = true := by
    intro c hc
    rw [(hdigit c hc).1, Bool.or_true]
  have htake : ds.takeWhile (fun c => c == '_' || (Text.digit? 16 c).isSome) = ds :=
    List.takeWhile_eq_self_iff.mpr hrun
  have hdrop : ds.dropWhile (fun c => c == '_' || (Text.digit? 16 c).isSome) = [] :=
    List.dropWhile_eq_nil_iff.mpr hrun
  simp [Text.readInteger, htrim, hsign, hbase, htake, hdrop, Text.digitValues?_of_digits hne hdigit]

/-- A text of hexadecimal digits with hyphens between them, and of braces around them or not. -/
structure Spells (s : String) (body ds : List Char) : Prop where
  bracketed : ∃ start rest, s.toList = start ++ (body ++ rest) ∧
    (∀ c ∈ start, isBrace c = true) ∧ ∀ c ∈ rest, isBrace c = true
  digits_eq : body.filter (· != '-') = ds
  length_eq : ds.length = 32
  hexadecimal : ∀ c ∈ ds, isHexDigit c = true

/-- What the strict reader takes, and what it makes of it. -/
theorem exists_spells_of_readStrict? {s : String} {u : Uuid} (h : readStrict? s = some u) :
    ∃ body ds, Spells s body ds ∧
      u = ⟨Fin.ofNat _ (Text.ofDigits 16 (ds.filterMap (Text.digit? 16)))⟩ := by
  unfold readStrict? at h
  simp only [Option.bind_eq_bind, Option.bind_some, Option.bind_none, Option.pure_def] at h
  split at h
  · rename_i rest hlist
    split at h
    · rename_i hclosed
      obtain ⟨hform, hu⟩ := Option.ite_none_right_eq_some.mp h
      obtain ⟨hlength, hall⟩ := Bool.and_eq_true_iff.mp hform
      have hrest : rest.dropLast ++ ['\x7d'] = rest :=
        List.dropLast_append_getLast? _ (Option.mem_def.mpr (beq_iff_eq.mp hclosed))
      exact ⟨rest.dropLast, _, ⟨⟨['\x7b'], ['\x7d'], by rw [hlist, hrest]; rfl, by simp [isBrace],
        by simp [isBrace]⟩, rfl, beq_iff_eq.mp hlength, List.all_eq_true.mp hall⟩,
        (Option.some.inj hu).symm⟩
    · cases h
  · obtain ⟨hform, hu⟩ := Option.ite_none_right_eq_some.mp h
    obtain ⟨hlength, hall⟩ := Bool.and_eq_true_iff.mp hform
    exact ⟨s.toList, _, ⟨⟨[], [], by simp, by simp, by simp⟩, rfl, beq_iff_eq.mp hlength,
      List.all_eq_true.mp hall⟩, (Option.some.inj hu).symm⟩

/-- What the strict reader takes the other one reads as the same UUID. -/
theorem read_of_readStrict? {s : String} {u : Uuid} (h : readStrict? s = some u) :
    read s = .ok u := by
  obtain ⟨body, ds, ⟨⟨start, rest, hlist, hstart, hrest⟩, hfilter, hlength, hds⟩, rfl⟩ :=
    exists_spells_of_readStrict? h
  have hne : ds ≠ [] := List.ne_nil_of_length_pos (by omega)
  have hplain : ∀ c ∈ body, isBrace c = false ∧ c ≠ 'u' := by
    intro c hc
    by_cases hdash : c = '-'
    · subst hdash
      exact ⟨rfl, by decide⟩
    · have hmem : c ∈ ds := hfilter ▸ List.mem_filter.mpr ⟨hc, by simpa using hdash⟩
      obtain ⟨-, hbrace, hmark⟩ := not_mark_of_isHexDigit (hds c hmem)
      exact ⟨hbrace, fun h => hmark (by simp [h])⟩
  have hmark : 'u' ∉ s.toList := by
    rw [hlist, List.mem_append, List.mem_append]
    rintro (hu | hu | hu)
    · cases hstart 'u' hu
    · exact (hplain 'u' hu).2 rfl
    · cases hrest 'u' hu
  have hstrip : strip "uuid:" (strip "urn:" s.toList) = s.toList := by
    have hurn : strip "urn:" s.toList = s.toList := without_of_not_mem hmark _
    rw [hurn]
    exact without_of_not_mem hmark _
  have htrim : Text.trimBoth isBrace s.toList = body := by
    rw [hlist]
    refine Text.trimBoth_of_none hstart (fun c hc => (hplain c hc).1) ?_ hrest
    rintro rfl
    exact hne hfilter.symm
  have hbare : bareDigits s = ds := by
    rw [bareDigits, hstrip, htrim, hfilter]
  unfold read
  rw [hbare]
  simp [hlength, readInteger_of_hexDigits hne hds]

end Uuid

end ChainFold
