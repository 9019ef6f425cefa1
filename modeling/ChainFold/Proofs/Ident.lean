import ChainFold.Event.Validation

/-!
# The shape of stream ids

A digest has 32 octets and so 52 characters of base32: the id of a stream, derived
from any genesis cid, always has the shape of a stream id.
-/

namespace ChainFold

namespace Digest

theorem Sha256.length_octets (width n : Nat) : (Sha256.octets width n).length = width := by
  induction width generalizing n with
  | zero => rfl
  | succ width ih => simp [Sha256.octets, ih]

theorem Sha256.Words.length_toBytes (s : Sha256.Words) : s.toBytes.length = 32 := by
  simp [Sha256.Words.toBytes, Sha256.length_octets]

theorem length_sha256 (input : Bytes) : (sha256 input).length = 32 :=
  Sha256.Words.length_toBytes _

end Digest

namespace Text.Base32

theorem symbol_mem_alphabet (n : Nat) : symbol n ∈ alphabet := by
  unfold symbol
  rw [List.getD_eq_getElem?_getD]
  cases h : alphabet[n]? with
  | none =>
      show 'a' ∈ alphabet
      decide
  | some c => exact List.mem_of_getElem? h

theorem mem_alphabet_of_mem_symbols {bits : List Bool} {c : Char} (h : c ∈ symbols bits) :
    c ∈ alphabet := by
  induction bits using symbols.induct with
  | case1 => simp [symbols] at h
  | case2 a b c' d e rest ih =>
      rw [symbols] at h
      rcases List.mem_cons.mp h with rfl | h
      · exact symbol_mem_alphabet _
      · exact ih h
  | case3 rest hnil hlong =>
      rw [symbols.eq_3 rest hnil hlong] at h
      exact List.mem_singleton.mp h ▸ symbol_mem_alphabet _

/-- There is a character for each five bits, and one for what is left. -/
theorem length_symbols (bits : List Bool) : (symbols bits).length = (bits.length + 4) / 5 := by
  induction bits using symbols.induct with
  | case1 => rfl
  | case2 a b c d e rest ih =>
      rw [symbols]
      simp only [List.length_cons, ih]
      omega
  | case3 rest hnil hlong =>
      rw [symbols.eq_3 rest hnil hlong]
      match rest with
      | [] => exact absurd rfl hnil
      | [_] | [_, _] | [_, _, _] | [_, _, _, _] => simp
      | a :: b :: c :: d :: e :: more => exact (hlong a b c d e more rfl).elim

theorem length_octetBits (b : UInt8) : (octetBits b).length = 8 := by simp [octetBits]

theorem length_flatMap_octetBits (bs : Bytes) : (bs.flatMap octetBits).length = 8 * bs.length := by
  induction bs with
  | nil => rfl
  | cons b rest ih =>
      simp only [List.flatMap_cons, List.length_append, length_octetBits, ih, List.length_cons]
      omega

end Text.Base32

namespace Ident

theorem isStreamId_streamId (genesis : String) : isStreamId (.str (streamId genesis)) = true := by
  have hlength : (Text.Base32.encode (Digest.sha256Text genesis)).length = 52 := by
    rw [Text.Base32.encode, Text.Base32.length_symbols, Text.Base32.length_flatMap_octetBits,
      Digest.sha256Text, Digest.length_sha256]
  have hall : (Text.Base32.encode (Digest.sha256Text genesis)).all
      Text.Base32.alphabet.contains = true := by
    refine List.all_eq_true.mpr fun c hc => ?_
    exact List.contains_iff_mem.mpr (Text.Base32.mem_alphabet_of_mem_symbols hc)
  simp [isStreamId, isStreamIdText, streamId, hlength, hall]

end Ident

end ChainFold
