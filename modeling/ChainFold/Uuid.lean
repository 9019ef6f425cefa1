import ChainFold.Text.Integer
/-!
# Universally unique identifiers

A number of 128 bits.  Many spellings are read; one is written, in lower case with
hyphens.
-/

namespace ChainFold

/-- A number of 128 bits that names an owner. -/
structure Uuid where
  value : Fin (Nat.pow 2 128)
  deriving DecidableEq, Repr

namespace Uuid

inductive Fault where
  /-- Not 32 characters once the marks are taken away. -/
  | badForm
  /-- The characters are not a hexadecimal numeral. -/
  | badDigits (fault : Text.NumeralFault)
  deriving DecidableEq, Repr

def Fault.message : Fault → String
  | .badForm => "badly formed hexadecimal UUID string"
  | .badDigits fault => fault.message

/-- A text without the occurrences of `mark`, found from the left. -/
def without (mark : List Char) : (fuel : Nat) → List Char → List Char
  | 0, cs => cs
  | _, [] => []
  | fuel + 1, c :: cs =>
    if mark.isPrefixOf (c :: cs) then without mark fuel ((c :: cs).drop mark.length)
    else c :: without mark fuel cs

/-- A text without the occurrences of `mark`. -/
def strip (mark : String) (cs : List Char) : List Char := without mark.toList (cs.length + 1) cs

def isBrace (c : Char) : Bool := c == '\x7b' || c == '\x7d'

/-- The digits of a spelling, without the marks `urn:` and `uuid:`, outer braces and hyphens. -/
def bareDigits (s : String) : List Char :=
  let cs := strip "uuid:" (strip "urn:" s.toList)
  (Text.trimBoth isBrace cs).filter (· != '-')

/-- Read a UUID in any of its spellings. -/
def read (s : String) : Except Fault Uuid :=
  let ds := bareDigits s
  if ds.length != 32 then .error .badForm
  else
    match Text.readInteger 16 (String.ofList ds) with
    | .error fault => .error (.badDigits fault)
    | .ok n => .ok ⟨Fin.ofNat _ n.toNat⟩

/-- A UUID in lower case, in groups of 8, 4, 4, 4 and 12 digits. -/
def toText (u : Uuid) : String :=
  let ds := Text.hexDigits 32 u.value
  let group (start width : Nat) := (ds.drop start).take width
  String.ofList (group 0 8 ++ '-' :: group 8 4 ++ '-' :: group 12 4 ++ '-' :: group 16 4 ++
    '-' :: group 20 12)

/-- Whether a character is a hexadecimal digit of ASCII. -/
def isHexDigit (c : Char) : Bool := (c.toNat < 128) && (Text.digit? 16 c).isSome

/--
Read a UUID strictly: 32 hexadecimal digits, hyphens anywhere between them, and
braces around them or not.
-/
def readStrict? (s : String) : Option Uuid := do
  let body ← match s.toList with
    | '\x7b' :: rest =>
      if rest.getLast? == some '\x7d' then some rest.dropLast else none
    | cs => some cs
  let ds := body.filter (· != '-')
  if ds.length == 32 && ds.all isHexDigit then
    pure ⟨Fin.ofNat _ (Text.ofDigits 16 (ds.filterMap (Text.digit? 16)))⟩
  else none

end Uuid

end ChainFold
