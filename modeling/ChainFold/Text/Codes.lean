/-!
# Text and octets

The octets of a text, and the texts that octets are written as: UTF-8 in both
directions, and the alphabets of 32 and of 64 characters.
-/

/-!
## Text as bytes

UTF-8 in both directions.  Decoding is strict: overlong forms, surrogates and
code points above U+10FFFF are refused, so a byte string decodes to at most one
text.
-/

namespace ChainFold

/-- A string of octets. -/
abbrev Bytes := List UInt8

namespace Text

def utf8 (s : String) : Bytes := s.toUTF8.data.toList

/-- The text whose UTF-8 octets are `bs`, if there is one. -/
def ofUtf8? (bs : Bytes) : Option String := String.fromUTF8? ⟨bs.toArray⟩

end Text

end ChainFold

/-!
## Base32

The standard alphabet in lower case, without padding: five bits to a
character, the last group filled with zero bits.
-/

namespace ChainFold.Text.Base32

/-- The 32 characters, by value. -/
def alphabet : List Char := "abcdefghijklmnopqrstuvwxyz234567".toList

def symbol (n : Nat) : Char := alphabet.getD n 'a'

/-- The bits of an octet, highest first. -/
def octetBits (b : UInt8) : List Bool :=
  (List.range 8).map fun i => b.toNat.testBit (7 - i)

/-- The number written by bits, highest first. -/
def ofBits (bits : List Bool) : Nat :=
  bits.foldl (fun n b => 2 * n + b.toNat) 0

/-- One character for each five bits. -/
def symbols : List Bool → List Char
  | [] => []
  | a :: b :: c :: d :: e :: rest => symbol (ofBits [a, b, c, d, e]) :: symbols rest
  | rest => [symbol (ofBits (rest ++ List.replicate (5 - rest.length) false))]

def encode (bs : Bytes) : List Char := symbols (bs.flatMap octetBits)

end ChainFold.Text.Base32

/-!
## Base64

The standard alphabet with padding.  Reading is lenient: characters outside
the alphabet are skipped, and the padding that completes a group ends the text.
-/

namespace ChainFold.Text.Base64

/-- The 64 characters of the standard alphabet, by value. -/
def alphabet : List Char :=
  "ABCDEFGHIJKLMNOPQRSTUVWXYZabcdefghijklmnopqrstuvwxyz0123456789+/".toList

def symbol (n : Nat) : Char := alphabet.getD n 'A'

def value? (c : Char) : Option Nat := alphabet.findIdx? (· == c)

/-- The padded base64 text of a byte string. -/
def encode : Bytes → List Char
  | [] => []
  | [a] => [symbol (a.toNat / 4), symbol (a.toNat % 4 * 16), '=', '=']
  | [a, b] =>
    [symbol (a.toNat / 4), symbol (a.toNat % 4 * 16 + b.toNat / 16),
      symbol (b.toNat % 16 * 4), '=']
  | a :: b :: c :: rest =>
    symbol (a.toNat / 4) :: symbol (a.toNat % 4 * 16 + b.toNat / 16) ::
      symbol (b.toNat % 16 * 4 + c.toNat / 64) :: symbol (c.toNat % 64) :: encode rest

/-- Why a text is not read as base64. -/
inductive Fault where
  /-- A character is not ASCII. -/
  | notAscii
  /-- The last group is incomplete. -/
  | truncated
  deriving DecidableEq, Repr

/-- The whole octets held by the values of one group. -/
def groupBytes : List Nat → Bytes
  | [a, b] => [UInt8.ofNat (a * 4 + b / 16)]
  | [a, b, c] => [UInt8.ofNat (a * 4 + b / 16), UInt8.ofNat (b * 16 + c / 4)]
  | [a, b, c, d] =>
    [UInt8.ofNat (a * 4 + b / 16), UInt8.ofNat (b * 16 + c / 4), UInt8.ofNat (c * 64 + d)]
  | _ => []

/--
Read on, with `group` the values of the unfinished group and `pads` the padding
characters seen since its last value.
-/
def decodeFrom (group : List Nat) (pads : Nat) : List Char → Except Fault Bytes
  | [] => if group.isEmpty then .ok [] else .error .truncated
  | '=' :: rest =>
    if 2 ≤ group.length then
      if 4 ≤ group.length + (pads + 1) then .ok (groupBytes group)
      else decodeFrom group (pads + 1) rest
    else decodeFrom group pads rest
  | c :: rest =>
    match value? c with
    | none => decodeFrom group pads rest
    | some v =>
      if group.length == 3 then (groupBytes (group ++ [v]) ++ ·) <$> decodeFrom [] 0 rest
      else decodeFrom (group ++ [v]) 0 rest

/-- Read base64 in the standard alphabet. -/
def decode (cs : List Char) : Except Fault Bytes :=
  if cs.all (·.toNat < 128) then decodeFrom [] 0 cs else .error .notAscii

/-- The standard character for one of the URL-safe alphabet. -/
def ofUrlSafe (c : Char) : Char :=
  if c == '-' then '+' else if c == '_' then '/' else c

/-- Read base64 in the URL-safe alphabet. -/
def decodeUrlSafe (cs : List Char) : Except Fault Bytes := decode (cs.map ofUrlSafe)

end ChainFold.Text.Base64
