import ChainFold.Proofs.Ident
import ChainFold.Text.Codes

/-!
# Octets written as text

UTF-8 and base64 are read back as what was written, and base32 tells any two strings of
octets apart.
-/

namespace ChainFold.Text

/-! ## UTF-8 -/

theorem ofUtf8?_utf8 (s : String) : ofUtf8? (utf8 s) = some s :=
  dif_pos s.isValidUTF8

theorem utf8_injective {s t : String} (h : utf8 s = utf8 t) : s = t := by
  have hread := ofUtf8?_utf8 s
  rw [h, ofUtf8?_utf8 t] at hread
  exact (Option.some.inj hread).symm

/-! ## Base64 -/

namespace Base64

theorem value?_symbol : ∀ n < 64, value? (symbol n) = some n := by decide

theorem symbol_ne_pad : ∀ n < 64, symbol n ≠ '=' := by decide +kernel

theorem symbol_ascii : ∀ n < 64, (symbol n).toNat < 128 := by decide +kernel

theorem decodeFrom_symbol {n : Nat} (hn : n < 64) (group : List Nat) (pads : Nat)
    (rest : List Char) : decodeFrom group pads (symbol n :: rest) =
      if group.length == 3 then (groupBytes (group ++ [n]) ++ ·) <$> decodeFrom [] 0 rest
      else decodeFrom (group ++ [n]) 0 rest := by
  rw [decodeFrom.eq_3 group pads (symbol n) rest (symbol_ne_pad n hn), value?_symbol n hn]

theorem decodeFrom_two {a b : Nat} (ha : a < 64) (hb : b < 64) :
    decodeFrom [] 0 [symbol a, symbol b, '=', '='] = .ok (groupBytes [a, b]) := by
  simp [decodeFrom_symbol ha, decodeFrom_symbol hb, decodeFrom]

theorem decodeFrom_three {a b c : Nat} (ha : a < 64) (hb : b < 64) (hc : c < 64) :
    decodeFrom [] 0 [symbol a, symbol b, symbol c, '='] = .ok (groupBytes [a, b, c]) := by
  simp [decodeFrom_symbol ha, decodeFrom_symbol hb, decodeFrom_symbol hc, decodeFrom]

/-- Four symbols are three octets, whatever follows. -/
theorem decodeFrom_four {a b c d : Nat} (ha : a < 64) (hb : b < 64) (hc : c < 64) (hd : d < 64)
    (rest : List Char) :
    decodeFrom [] 0 (symbol a :: symbol b :: symbol c :: symbol d :: rest) =
      (groupBytes [a, b, c, d] ++ ·) <$> decodeFrom [] 0 rest := by
  simp [decodeFrom_symbol ha, decodeFrom_symbol hb, decodeFrom_symbol hc, decodeFrom_symbol hd]

theorem ofNat_eq_of_mod {a : UInt8} {n : Nat} (h : n % 256 = a.toNat) : UInt8.ofNat n = a := by
  refine UInt8.toNat_inj.mp ?_
  rw [UInt8.toNat_ofNat', ← h]

theorem decodeFrom_encode (bs : Bytes) : decodeFrom [] 0 (encode bs) = .ok bs := by
  have hoctet : ∀ a : UInt8, a.toNat < 256 := UInt8.toNat_lt
  induction bs using encode.induct with
  | case1 => rfl
  | case2 a =>
      have ha := hoctet a
      rw [encode, decodeFrom_two (by omega) (by omega)]
      simp only [groupBytes]
      rw [ofNat_eq_of_mod (a := a) (by omega)]
  | case3 a b =>
      have ha := hoctet a
      have hb := hoctet b
      rw [encode, decodeFrom_three (by omega) (by omega) (by omega)]
      simp only [groupBytes]
      rw [ofNat_eq_of_mod (a := a) (by omega), ofNat_eq_of_mod (a := b) (by omega)]
  | case4 a b c rest ih =>
      have ha := hoctet a
      have hb := hoctet b
      have hc := hoctet c
      rw [encode, decodeFrom_four (by omega) (by omega) (by omega) (by omega), ih]
      simp only [groupBytes]
      rw [ofNat_eq_of_mod (a := a) (by omega), ofNat_eq_of_mod (a := b) (by omega),
        ofNat_eq_of_mod (a := c) (by omega)]
      rfl

theorem ascii_of_mem_encode {bs : Bytes} {c : Char} (h : c ∈ encode bs) : c.toNat < 128 := by
  have hoctet : ∀ a : UInt8, a.toNat < 256 := UInt8.toNat_lt
  have hpad : '='.toNat < 128 := by decide
  induction bs using encode.induct with
  | case1 => cases h
  | case2 a =>
      have ha := hoctet a
      simp only [encode, List.mem_cons, List.not_mem_nil, or_false] at h
      rcases h with rfl | rfl | rfl | rfl
      · exact symbol_ascii _ (by omega)
      · exact symbol_ascii _ (by omega)
      · exact hpad
      · exact hpad
  | case3 a b =>
      have ha := hoctet a
      have hb := hoctet b
      simp only [encode, List.mem_cons, List.not_mem_nil, or_false] at h
      rcases h with rfl | rfl | rfl | rfl
      · exact symbol_ascii _ (by omega)
      · exact symbol_ascii _ (by omega)
      · exact symbol_ascii _ (by omega)
      · exact hpad
  | case4 a b d rest ih =>
      have ha := hoctet a
      have hb := hoctet b
      have hd := hoctet d
      simp only [encode, List.mem_cons] at h
      rcases h with rfl | rfl | rfl | rfl | h
      · exact symbol_ascii _ (by omega)
      · exact symbol_ascii _ (by omega)
      · exact symbol_ascii _ (by omega)
      · exact symbol_ascii _ (by omega)
      · exact ih h

/-- Base64 is read back as the octets that were written. -/
theorem decode_encode (bs : Bytes) : decode (encode bs) = .ok bs := by
  have hascii : (encode bs).all (·.toNat < 128) = true := by
    refine List.all_eq_true.mpr fun c hc => ?_
    simpa using ascii_of_mem_encode hc
  rw [decode, if_pos hascii, decodeFrom_encode]

end Base64

/-! ## Base32 -/

namespace Base32

theorem ofBits_octetBits (b : UInt8) : ofBits (octetBits b) = b.toNat := by
  have hall : ∀ n < 256, ofBits ((List.range 8).map fun i => n.testBit (7 - i)) = n := by
    decide +kernel
  exact hall b.toNat b.toNat_lt

theorem octetBits_injective {a b : UInt8} (h : octetBits a = octetBits b) : a = b := by
  refine UInt8.toNat_inj.mp ?_
  rw [← ofBits_octetBits, ← ofBits_octetBits, h]

theorem symbol_ofBits_injective : ∀ a b c d e a' b' c' d' e' : Bool,
    symbol (ofBits [a, b, c, d, e]) = symbol (ofBits [a', b', c', d', e']) →
      [a, b, c, d, e] = [a', b', c', d', e'] := by
  decide +kernel

theorem exists_five {bits : List Bool} (h : 5 ≤ bits.length) :
    ∃ a b c d e rest, bits = a :: b :: c :: d :: e :: rest := by
  rcases bits with _ | ⟨a, _ | ⟨b, _ | ⟨c, _ | ⟨d, _ | ⟨e, rest⟩⟩⟩⟩⟩
  case cons.cons.cons.cons.cons => exact ⟨a, b, c, d, e, rest, rfl⟩
  all_goals simp at h

theorem symbol_injective {bits bits' : List Bool} (hlength : bits.length = 5)
    (hlength' : bits'.length = 5) (h : symbol (ofBits bits) = symbol (ofBits bits')) :
    bits = bits' := by
  obtain ⟨a, b, c, d, e, rest, rfl⟩ := exists_five (Nat.le_of_eq hlength.symm)
  obtain ⟨a', b', c', d', e', rest', rfl⟩ := exists_five (Nat.le_of_eq hlength'.symm)
  obtain rfl : rest = [] := List.length_eq_zero_iff.mp (by simpa using hlength)
  obtain rfl : rest' = [] := List.length_eq_zero_iff.mp (by simpa using hlength')
  exact symbol_ofBits_injective _ _ _ _ _ _ _ _ _ _ h

/-- Less than five bits are filled up. -/
theorem symbols_of_length_lt {bits : List Bool} (hne : bits ≠ []) (h : bits.length < 5) :
    symbols bits = [symbol (ofBits (bits ++ List.replicate (5 - bits.length) false))] := by
  rw [symbols]
  · exact hne
  · rintro a b c d e rest rfl
    simp at h
    omega

theorem symbols_injective {bits bits' : List Bool} (hlength : bits.length = bits'.length)
    (h : symbols bits = symbols bits') : bits = bits' := by
  induction bits using symbols.induct generalizing bits' with
  | case1 => exact (List.length_eq_zero_iff.mp hlength.symm).symm
  | case2 a b c d e rest ih =>
      have hlong : 5 ≤ bits'.length := by
        rw [← hlength]
        simp
      obtain ⟨a', b', c', d', e', rest', rfl⟩ := exists_five hlong
      rw [symbols, symbols] at h
      obtain ⟨hsymbol, hrest⟩ := List.cons.inj h
      have hfive := symbol_ofBits_injective _ _ _ _ _ _ _ _ _ _ hsymbol
      have hrest' := ih (by simpa using hlength) hrest
      rw [hrest']
      exact congrArg (· ++ rest') hfive
  | case3 rest hnil hlong =>
      have hshort : rest.length < 5 := by
        refine Nat.lt_of_not_le fun hge => ?_
        obtain ⟨a, b, c, d, e, more, heq⟩ := exists_five hge
        exact hlong a b c d e more heq
      have hnil' : bits' ≠ [] := by
        rintro rfl
        exact hnil (List.length_eq_zero_iff.mp hlength)
      -- What is left is filled up to five bits, on both sides by as many.
      rw [symbols_of_length_lt hnil hshort, symbols_of_length_lt hnil' (hlength ▸ hshort)] at h
      have hfilled := symbol_injective (by simp; omega) (by simp; omega) (List.cons.inj h).1
      exact List.append_inj_left hfilled hlength

theorem flatMap_octetBits_injective {as bs : Bytes}
    (h : as.flatMap octetBits = bs.flatMap octetBits) : as = bs := by
  induction as generalizing bs with
  | nil =>
      cases bs with
      | nil => rfl
      | cons b bs =>
          have hlength := congrArg List.length h
          rw [length_flatMap_octetBits, length_flatMap_octetBits] at hlength
          simp at hlength
  | cons a as ih =>
      cases bs with
      | nil =>
          have hlength := congrArg List.length h
          rw [length_flatMap_octetBits, length_flatMap_octetBits] at hlength
          simp at hlength
      | cons b bs =>
          rw [List.flatMap_cons, List.flatMap_cons] at h
          have hlength : (octetBits a).length = (octetBits b).length := by
            rw [length_octetBits, length_octetBits]
          obtain ⟨hbits, hrest⟩ := List.append_inj h hlength
          rw [octetBits_injective hbits, ih hrest]

theorem encode_injective {as bs : Bytes} (h : encode as = encode bs) : as = bs := by
  have hlength := congrArg List.length h
  rw [encode, encode, length_symbols, length_symbols, length_flatMap_octetBits,
    length_flatMap_octetBits] at hlength
  refine flatMap_octetBits_injective (symbols_injective ?_ h)
  rw [length_flatMap_octetBits, length_flatMap_octetBits]
  omega

end Base32

end ChainFold.Text
