import ChainFold.Proofs.Text.Codes
import Mathlib.Data.List.Basic
import Mathlib.Tactic.IntervalCases
import Mathlib.Tactic.SplitIfs

/-!
# Base64 in two alphabets

Octets are written in base64 in the standard or in the URL-safe alphabet, with the padding at
the end or without it.  The two alphabets differ in two marks, for the values 62 and 63.  The
reader of the URL-safe alphabet reads every spelling.  The reader of the standard alphabet
skips the marks of the other one, and whether it notices depends on their number alone.
-/

namespace ChainFold.Text.Base64

/-! ## Values -/

def values : Bytes → List Nat
  | [] => []
  | [a] => [a.toNat / 4, a.toNat % 4 * 16]
  | [a, b] => [a.toNat / 4, a.toNat % 4 * 16 + b.toNat / 16, b.toNat % 16 * 4]
  | a :: b :: c :: rest =>
    a.toNat / 4 :: (a.toNat % 4 * 16 + b.toNat / 16) :: (b.toNat % 16 * 4 + c.toNat / 64) ::
      c.toNat % 64 :: values rest

def octets : List Nat → Bytes
  | [] | [_] => []
  | [a, b] => groupBytes [a, b]
  | [a, b, c] => groupBytes [a, b, c]
  | a :: b :: c :: d :: rest => groupBytes [a, b, c, d] ++ octets rest

def padding (n : Nat) : Nat := (3 - n % 3) % 3

theorem padding_le (n : Nat) : padding n ≤ 2 := by
  unfold padding
  omega

theorem encode_eq_values (bs : Bytes) :
    encode bs = (values bs).map symbol ++ List.replicate (padding bs.length) '=' := by
  induction bs using encode.induct with
  | case1 | case2 | case3 => rfl
  | case4 a b c rest ih =>
      have hpadding : padding (a :: b :: c :: rest).length = padding rest.length := by
        simp only [padding, List.length_cons]
        omega
      rw [encode, values, ih, hpadding]
      rfl

theorem lt_of_mem_values {bs : Bytes} : ∀ v ∈ values bs, v < 64 := by
  have hoctet : ∀ a : UInt8, a.toNat < 256 := UInt8.toNat_lt
  induction bs using values.induct with
  | case1 => simp [values]
  | case2 a =>
      have ha := hoctet a
      simp only [values, List.forall_mem_cons]
      exact ⟨by omega, by omega, by simp⟩
  | case3 a b =>
      have ha := hoctet a
      have hb := hoctet b
      simp only [values, List.forall_mem_cons]
      exact ⟨by omega, by omega, by omega, by simp⟩
  | case4 a b c rest ih =>
      have ha := hoctet a
      have hb := hoctet b
      have hc := hoctet c
      simp only [values, List.forall_mem_cons]
      exact ⟨by omega, by omega, by omega, by omega, ih⟩

/-- Octets below 126 are written without the marks, but for `>` and `?`. -/
theorem lt_of_plain_octets {bs : Bytes}
    (h : ∀ b ∈ bs, b.toNat < 126 ∧ b.toNat ≠ 62 ∧ b.toNat ≠ 63) : ∀ v ∈ values bs, v < 62 := by
  induction bs using values.induct with
  | case1 => simp [values]
  | case2 a =>
      have ha := h a (by simp)
      simp only [values, List.forall_mem_cons]
      exact ⟨by omega, by omega, by simp⟩
  | case3 a b =>
      have ha := h a (by simp)
      have hb := h b (by simp)
      simp only [values, List.forall_mem_cons]
      exact ⟨by omega, by omega, by omega, by simp⟩
  | case4 a b c rest ih =>
      have ha := h a (by simp)
      have hb := h b (by simp)
      have hc := h c (by simp)
      simp only [values, List.forall_mem_cons]
      refine ⟨by omega, by omega, by omega, by omega, ih ?_⟩
      intro x hx
      exact h x (by simp [hx])

/-- Padding completes the last group. -/
theorem length_values_mod (bs : Bytes) :
    (4 - (values bs).length % 4) % 4 = padding bs.length := by
  induction bs using values.induct with
  | case1 | case2 | case3 => simp [values, padding]
  | case4 a b c rest ih =>
      unfold padding at ih ⊢
      simp only [values, List.length_cons]
      omega

/-! ## Reading values -/

/--
Values are read to the end if they make whole groups, or if the padding behind them completes
the last group.
-/
theorem decodeFrom_values {vs : List Nat} (h : ∀ v ∈ vs, v < 64) {p : Nat} (hp : p ≤ 2) :
    decodeFrom [] 0 (vs.map symbol ++ List.replicate p '=') =
      if (4 - vs.length % 4) % 4 ≤ p then .ok (octets vs) else .error .truncated := by
  induction vs using octets.induct with
  | case1 => interval_cases p <;> rfl
  | case2 a =>
      have ha := h a (by simp)
      interval_cases p <;> simp [decodeFrom_symbol ha, decodeFrom]
  | case3 a b =>
      have ha := h a (by simp)
      have hb := h b (by simp)
      interval_cases p <;> simp [decodeFrom_symbol ha, decodeFrom_symbol hb, decodeFrom, octets]
  | case4 a b c =>
      have ha := h a (by simp)
      have hb := h b (by simp)
      have hc := h c (by simp)
      interval_cases p <;>
        simp [decodeFrom_symbol ha, decodeFrom_symbol hb, decodeFrom_symbol hc, decodeFrom, octets]
  | case5 a b c d rest ih =>
      simp only [List.forall_mem_cons] at h
      obtain ⟨ha, hb, hc, hd, hrest⟩ := h
      have hlength : (a :: b :: c :: d :: rest).length % 4 = rest.length % 4 := by
        simp only [List.length_cons]
        omega
      simp only [List.map_cons, List.cons_append, decodeFrom_four ha hb hc hd, ih hrest, hlength,
        octets]
      split <;> rfl

/-- The octets that are written are those that their values stand for. -/
theorem octets_values (bs : Bytes) : octets (values bs) = bs := by
  have hread := decodeFrom_encode bs
  rw [encode_eq_values, decodeFrom_values lt_of_mem_values (padding_le _),
    if_pos (length_values_mod bs).le] at hread
  exact Except.ok.inj hread

/-! ## The URL-safe alphabet -/

/-- The URL-safe character for one of the standard alphabet. -/
def toUrlSafe (c : Char) : Char := if c == '+' then '-' else if c == '/' then '_' else c

/-- The standard alphabet does not have the marks of the other one. -/
theorem symbol_ne_mark : ∀ n < 64, symbol n ≠ '-' ∧ symbol n ≠ '_' := by decide +kernel

/-- Its own marks stand for the last two values only. -/
theorem symbol_ne_mark_of_lt : ∀ n < 62, symbol n ≠ '+' ∧ symbol n ≠ '/' := by decide +kernel

section Symbols

variable {n : Nat}

theorem ofUrlSafe_symbol (hn : n < 64) : ofUrlSafe (symbol n) = symbol n := by
  simp [ofUrlSafe, symbol_ne_mark n hn]

/-- The alphabets have all but two characters in common. -/
theorem toUrlSafe_of_lt (hn : n < 62) : toUrlSafe (symbol n) = symbol n := by
  simp [toUrlSafe, symbol_ne_mark_of_lt n hn]

theorem eq_of_not_lt (hn : n < 64) (hmark : ¬ n < 62) : n = 62 ∨ n = 63 := by omega

/-- The other two have no value in the standard alphabet. -/
theorem value?_toUrlSafe (hn : n < 64) (hmark : ¬ n < 62) :
    value? (toUrlSafe (symbol n)) = none := by
  rcases eq_of_not_lt hn hmark with rfl | rfl
  · decide
  · decide

theorem ofUrlSafe_toUrlSafe (hn : n < 64) : ofUrlSafe (toUrlSafe (symbol n)) = symbol n := by
  by_cases hlow : n < 62
  · rw [toUrlSafe_of_lt hlow, ofUrlSafe_symbol hn]
  · rcases eq_of_not_lt hn hlow with rfl | rfl
    · decide
    · decide

theorem toUrlSafe_ascii (hn : n < 64) : (toUrlSafe (symbol n)).toNat < 128 := by
  unfold toUrlSafe
  split_ifs
  · decide
  · decide
  · exact symbol_ascii n hn

theorem toUrlSafe_ne_pad (hn : n < 64) : toUrlSafe (symbol n) ≠ '=' := by
  unfold toUrlSafe
  split_ifs
  · decide
  · decide
  · exact symbol_ne_pad n hn

end Symbols

/-- The number of marks in the URL-safe text of octets. -/
def marks (bs : Bytes) : Nat := (values bs).countP fun v => ¬ v < 62

/-- The octets that are read when the marks are skipped. -/
def unmarked (bs : Bytes) : Bytes := octets ((values bs).filter (· < 62))

theorem marks_eq_zero_iff {bs : Bytes} : marks bs = 0 ↔ ∀ v ∈ values bs, v < 62 := by
  simp [marks, List.countP_eq_zero]

theorem unmarked_of_marks_eq_zero {bs : Bytes} (h : marks bs = 0) : unmarked bs = bs := by
  rw [marks_eq_zero_iff] at h
  have hall : (values bs).filter (· < 62) = values bs := by
    apply List.filter_eq_self.mpr
    intro v hv
    exact decide_eq_true (h v hv)
  rw [unmarked, hall, octets_values]

theorem decodeFrom_skip {c : Char} (hvalue : value? c = none) (hpad : c ≠ '=') (group : List Nat)
    (pads : Nat) (rest : List Char) :
    decodeFrom group pads (c :: rest) = decodeFrom group pads rest := by
  rw [decodeFrom.eq_3 group pads c rest hpad, hvalue]

/-- The standard reader skips the marks of the URL-safe alphabet. -/
theorem decodeFrom_toUrlSafe {vs : List Nat} (h : ∀ v ∈ vs, v < 64) (group : List Nat)
    (pads : Nat) (rest : List Char) :
    decodeFrom group pads (vs.map (fun v => toUrlSafe (symbol v)) ++ rest) =
      decodeFrom group pads ((vs.filter (· < 62)).map symbol ++ rest) := by
  induction vs generalizing group pads with
  | nil => rfl
  | cons v vs ih =>
      obtain ⟨hv, hvs⟩ := List.forall_mem_cons.mp h
      rw [List.map_cons, List.cons_append]
      by_cases hlow : v < 62
      · simp only [List.filter_cons, hlow, decide_true, if_true, List.map_cons, List.cons_append,
          toUrlSafe_of_lt hlow, decodeFrom_symbol hv, ih hvs]
      · simp only [List.filter_cons, hlow, decide_false, Bool.false_eq_true, if_false,
          decodeFrom_skip (value?_toUrlSafe hv hlow) (toUrlSafe_ne_pad hv), ih hvs]

theorem ascii_toUrlSafe (bs : Bytes) :
    ((values bs).map (fun v => toUrlSafe (symbol v)) ++
      List.replicate (padding bs.length) '=').all (·.toNat < 128) = true := by
  rw [List.all_eq_true]
  intro c hc
  rcases List.mem_append.mp hc with hc | hc
  · obtain ⟨v, hv, rfl⟩ := List.mem_map.mp hc
    exact decide_eq_true (toUrlSafe_ascii (lt_of_mem_values v hv))
  · rw [List.eq_of_mem_replicate hc]
    decide

/--
The standard reader takes a URL-safe text for the octets without the marks, if the padding makes
up for them, and otherwise notices that something is missing.
-/
theorem decode_toUrlSafe (bs : Bytes) :
    decode ((values bs).map (fun v => toUrlSafe (symbol v)) ++
        List.replicate (padding bs.length) '=') =
      if (4 - marks bs % 4) % 4 ≤ padding bs.length then .ok (unmarked bs)
      else .error .truncated := by
  have hlow : ∀ v ∈ (values bs).filter (· < 62), v < 64 := by
    intro v hv
    exact lt_of_mem_values v (List.mem_filter.mp hv).1
  have hlength : ((values bs).filter (· < 62)).length + marks bs = (values bs).length := by
    have hsplit := List.length_eq_countP_add_countP (fun v : Nat => v < 62) (l := values bs)
    simp only [decide_eq_true_eq] at hsplit
    rw [marks, ← List.countP_eq_length_filter, hsplit]
  -- The padding stays where it was, and may now complete another group than it was meant for.
  have hmod := length_values_mod bs
  have hle := padding_le bs.length
  rw [decode, if_pos (ascii_toUrlSafe bs), decodeFrom_toUrlSafe lt_of_mem_values,
    decodeFrom_values hlow hle, unmarked]
  have hiff : (4 - ((values bs).filter (· < 62)).length % 4) % 4 ≤ padding bs.length ↔
      (4 - marks bs % 4) % 4 ≤ padding bs.length := by
    omega
  simp only [hiff]

/-! ## Spellings -/

/-- A way to write octets: the alphabet, and whether the padding is kept. -/
structure Spelling where
  urlSafe : Bool
  padded : Bool

namespace Spelling

variable (sp : Spelling) (bs : Bytes)

/-- The text of octets in the alphabet of a spelling, with its padding. -/
def whole : List Char := if sp.urlSafe then (encode bs).map toUrlSafe else encode bs

def write : List Char := if sp.padded then sp.whole bs else (sp.whole bs).filter (· ≠ '=')

def digit (v : Nat) : Char := if sp.urlSafe then toUrlSafe (symbol v) else symbol v

theorem digit_of_urlSafe {sp : Spelling} (h : sp.urlSafe = true) :
    sp.digit = fun v => toUrlSafe (symbol v) := by
  funext v
  rw [digit, if_pos h]

theorem digit_of_standard {sp : Spelling} (h : ¬ sp.urlSafe = true) : sp.digit = symbol := by
  funext v
  rw [digit, if_neg h]

theorem whole_eq_digits :
    sp.whole bs = (values bs).map sp.digit ++ List.replicate (padding bs.length) '=' := by
  unfold whole
  split_ifs with h
  · rw [encode_eq_values, List.map_append, List.map_map, List.map_replicate, digit_of_urlSafe h]
    rfl
  · rw [encode_eq_values, digit_of_standard h]

theorem digit_ne_pad {v : Nat} (hv : v < 64) : sp.digit v ≠ '=' := by
  unfold digit
  split_ifs
  · exact toUrlSafe_ne_pad hv
  · exact symbol_ne_pad v hv

theorem filter_whole : (sp.whole bs).filter (· ≠ '=') = (values bs).map sp.digit := by
  have hdigits : ((values bs).map sp.digit).filter (· ≠ '=') = (values bs).map sp.digit := by
    apply List.filter_eq_self.mpr
    intro c hc
    obtain ⟨v, hv, rfl⟩ := List.mem_map.mp hc
    exact decide_eq_true (sp.digit_ne_pad (lt_of_mem_values v hv))
  rw [whole_eq_digits, List.filter_append, hdigits]
  simp

theorem length_whole_mod : (sp.whole bs).length % 4 = 0 := by
  have hmod := length_values_mod bs
  rw [whole_eq_digits, List.length_append, List.length_map, List.length_replicate]
  omega

/-- The reader of the URL-safe alphabet reads both alphabets. -/
theorem decodeUrlSafe_whole : decodeUrlSafe (sp.whole bs) = .ok bs := by
  have hstandard : (sp.whole bs).map ofUrlSafe = encode bs := by
    rw [whole_eq_digits, encode_eq_values, List.map_append, List.map_map, List.map_replicate]
    congr 1
    apply List.map_congr_left
    intro v hv
    have hlt := lt_of_mem_values v hv
    simp only [Function.comp_apply, digit]
    split_ifs
    · exact ofUrlSafe_toUrlSafe hlt
    · exact ofUrlSafe_symbol hlt
  rw [decodeUrlSafe, hstandard, decode_encode]

theorem decode_whole_of_standard (h : sp.urlSafe = false) : decode (sp.whole bs) = .ok bs := by
  rw [whole, h]
  exact decode_encode bs

/--
The reader of the standard alphabet takes a URL-safe text for the octets without the marks, if
the padding makes up for the marks, and otherwise notices that something is missing.
-/
theorem decode_whole_of_urlSafe (h : sp.urlSafe = true) :
    decode (sp.whole bs) = if (4 - marks bs % 4) % 4 ≤ padding bs.length then .ok (unmarked bs)
      else .error .truncated := by
  rw [whole_eq_digits, digit_of_urlSafe h, decode_toUrlSafe]

end Spelling

end ChainFold.Text.Base64
