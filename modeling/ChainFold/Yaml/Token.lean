import ChainFold.Json.Reader
import ChainFold.Yaml.Cursor
/-!
# Tokens

The tokens that the structure of a text is read from, and the reading of those that
are more than a mark: directives, anchors and tags.
-/

namespace ChainFold.Yaml

/-- A tag as it is written: its handle, if any, and what follows. -/
structure Tag where
  handle : Option String
  suffix : String
  deriving DecidableEq

inductive Token where
  | directiveYaml (major : Nat)
  | directiveTag (handle tagPrefix : String)
  | directiveOther
  | documentStart
  | documentEnd
  | streamEnd
  | sequenceStart
  | mappingStart
  | blockEnd
  | flowSequenceStart
  | flowSequenceEnd
  | flowMappingStart
  | flowMappingEnd
  | flowEntry
  | blockEntry
  | key
  | value
  | alias (name : String)
  | anchor (name : String)
  | tag (t : Tag)
  | scalar (text : String) (plain : Bool)
  deriving DecidableEq

namespace Scan

/-- The characters of a tag that stand for themselves. -/
def isTagChar (c : Char) : Bool := c.isAlphanum || "-;/?:@&=+$,_.!~*'()[]".toList.contains c

/-- A run of escaped octets in a tag. -/
def tagOctets : (fuel : Nat) → Scan Bytes
  | 0 => pure []
  | fuel + 1 => do
    match (← get).rest with
    | '%' :: a :: b :: _ =>
      match Json.unit? '0' '0' a b with
      | none => stray
      | some n => do
        forward 3
        return UInt8.ofNat n :: (← tagOctets fuel)
    | '%' :: _ => stray
    | _ => pure []

/-- The characters of a tag or its prefix. -/
def tagChars : (fuel : Nat) → Scan (List Char)
  | 0 => pure []
  | fuel + 1 => do
    let cs ← takeWhile isTagChar
    match ← peek with
    | some '%' => do
      match Text.ofUtf8? (← tagOctets fuel) with
      | none => stray
      | some escaped => return cs ++ escaped.toList ++ (← tagChars fuel)
    | _ => pure cs

/-- A tag or its prefix, which must not be empty. -/
def tagText : Scan String := do
  let cs ← tagChars ((← get).rest.length + 1)
  need !cs.isEmpty
  pure (String.ofList cs)

/-- The handle of a tag: `!`, `!!` or a name between two marks. -/
def tagHandle : Scan String := do
  need ((← get).isAt '!')
  forward 1
  if (← get).isAt ' ' then pure "!"
  else
    let cs ← takeWhile isNameChar
    need ((← get).isAt '!')
    forward 1
    pure (String.ofList ('!' :: cs ++ ['!']))

/-- Whether another `!` comes before the word ends. -/
def hasHandle (cs : List Char) : Bool := (cs.takeWhile fun c => c != ' ' && !isBreak c).contains '!'

def tag : Scan Tag := do
  let c ← get
  let t ← match c.peekAt 1 with
    | some '<' => do
      forward 2
      let suffix ← tagText
      need ((← get).isAt '>')
      forward 1
      pure ⟨none, suffix⟩
    | x =>
      if endsWord x then do
        forward 1
        pure ⟨none, "!"⟩
      else if hasHandle (c.rest.drop 1) then do
        let handle ← tagHandle
        pure ⟨some handle, ← tagText⟩
      else do
        forward 1
        pure ⟨some "!", ← tagText⟩
  need (endsField (← peek))
  pure t

/-- The name behind an anchor or alias mark. -/
def anchorName : Scan String := do
  forward 1
  let cs ← name
  let c ← peek
  need (endsWord c || c.any ("?:,]\x7d%@\x60".toList.contains ·))
  pure (String.ofList cs)

def number : Scan Nat := do
  let cs ← takeWhile Char.isDigit
  need !cs.isEmpty
  pure (Text.ofDigits 10 (cs.filterMap (Text.digit? 10)))

/-- A directive, up to the end of its line. -/
def directive : Scan Token := do
  forward 1
  let word ← name
  need (endsField (← peek))
  let t ←
    if word == "YAML".toList then do
      skipSpaces
      let major ← number
      need ((← get).isAt '.')
      forward 1
      let _ ← number
      need (endsField (← peek))
      pure (Token.directiveYaml major)
    else if word == "TAG".toList then do
      skipSpaces
      let handle ← tagHandle
      need ((← get).isAt ' ')
      skipSpaces
      let tagPrefix ← tagText
      need (endsField (← peek))
      pure (.directiveTag handle tagPrefix)
    else do
      let _ ← takeWhile (!isBreak ·)
      pure .directiveOther
  restOfLine
  pure t

end Scan

end ChainFold.Yaml
