import ChainFold.Yaml.Token
import ChainFold.Yaml.Unquoted
/-!
# Layout

The tokens of a text.  Indentation opens and closes blocks, and a colon turns the
token before it into a key, so tokens wait in a queue until it is known that none of
them begins a key.  A token leaves the queue as soon as that is known: the tokens in
front of a character that cannot be read are those that a reader has seen by then.
-/

namespace ChainFold.Yaml

/-- A place where a key may turn out to begin. -/
structure KeyMark where
  /-- The number of tokens in front of it. -/
  token : Nat
  /-- Whether something else than a key would be wrong here. -/
  required : Bool
  index : Nat
  line : Nat
  column : Nat

/-- What is known between two tokens. -/
structure Layout where
  cursor : Cursor
  /-- The number of open brackets and braces. -/
  flow : Nat
  /-- The column of the innermost block, `-1` outside all blocks. -/
  indent : Int
  /-- The columns of the enclosing blocks, the innermost first. -/
  outer : List Int
  /-- Whether a key may begin here. -/
  keyAllowed : Bool
  /-- The places where keys may begin, at most one for a number of open brackets. -/
  marks : List (Nat × KeyMark)
  /-- The number of tokens that have left the queue. -/
  taken : Nat
  /-- The tokens that wait. -/
  queue : List Token
  /-- Whether the end has been reached. -/
  done : Bool

namespace Layout

/-- What is known at the start of a text. -/
def start (cs : List Char) : Layout :=
  ⟨.start cs, 0, -1, [], true, [], 0, [], false⟩

/-- The most characters between the beginning of a key and its colon. -/
def maxKeyLength : Nat := 1024

abbrev Step (α : Type) := StateT Layout (Except Defect) α

def read {α : Type} (scan : Scan α) : Step α := do
  let s ← get
  match scan.run s.cursor with
  | .ok (a, c) => do
    set { s with cursor := c }
    pure a
  | .error d => throw d

/-- The characters here make up no token. -/
def stray {α : Type} : Step α := throw (.notYaml .tokens)

/-- Put a token at the end of the queue. -/
def emit (t : Token) : Step Unit := modify fun s => { s with queue := s.queue ++ [t] }

/-- Put a token in front of the one with a number. -/
def emitAt (number : Nat) (t : Token) : Step Unit :=
  modify fun s => { s with queue := s.queue.insertIdx (number - s.taken) t }

/-- Say whether a key may begin next. -/
def allowKey (b : Bool) : Step Unit := modify fun s => { s with keyAllowed := b }

/-- Whether a place is too far back for a key that ends here. -/
def isStale (s : Layout) (m : KeyMark) : Bool :=
  m.line != s.cursor.line || maxKeyLength < s.cursor.index - m.index

/-- Forget the places that are too far back; a required key must not be among them. -/
def dropStale : Step Unit := do
  let s ← get
  if s.marks.any fun m => s.isStale m.2 && m.2.required then stray
  else set { s with marks := s.marks.filter fun m => !s.isStale m.2 }

/-- Forget the place at the current depth; it must not be that of a required key. -/
def dropMark : Step Unit := do
  let s ← get
  match s.marks.lookup s.flow with
  | none => pure ()
  | some m =>
    if m.required then stray
    else set { s with marks := s.marks.filter (·.1 != s.flow) }

/-- Remember that a key may begin here. -/
def saveMark : Step Unit := do
  if (← get).keyAllowed then do
    dropMark
    let s ← get
    let c := s.cursor
    let m : KeyMark := ⟨s.taken + s.queue.length, s.flow == 0 && s.indent == c.column, c.index,
      c.line, c.column⟩
    set { s with marks := (s.flow, m) :: s.marks }

/-- Close blocks down to a column, among enclosing ones. -/
def closeTo (column : Int) : (indent : Int) → (outer : List Int) → Int × List Int × Nat
  | indent, [] => (indent, [], 0)
  | indent, o :: outer =>
    if indent ≤ column then (indent, o :: outer, 0)
    else
      let (i, os, n) := closeTo column o outer
      (i, os, n + 1)

/-- Close the blocks deeper than a column. -/
def unwind (column : Int) : Step Unit :=
  modify fun s =>
    if s.flow != 0 then s
    else
      let (indent, outer, n) := closeTo column s.indent s.outer
      { s with
        indent := indent
        outer := outer
        queue := s.queue ++ List.replicate n .blockEnd }

/-- Open a block at a column, if that is deeper than the innermost one; says whether it is. -/
def openBlock (column : Nat) : Step Bool := do
  let s ← get
  if s.indent < column then do
    set { s with indent := column, outer := s.indent :: s.outer }
    pure true
  else pure false

/-- Move to the next token, over spaces, comments and line breaks. -/
def toNext : (fuel : Nat) → Step Unit
  | 0 => pure ()
  | fuel + 1 => do
    let s ← get
    let c := s.cursor.skipSpaces.skipComment
    match c.lineBreak with
    | ([], c) => set { s with cursor := c }
    | (_, c) => do
      set { s with cursor := c, keyAllowed := s.keyAllowed || s.flow == 0 }
      toNext fuel

/-- Move over some characters and emit a token. -/
def mark (width : Nat) (t : Token) : Step Unit := do
  read (Scan.forward width)
  emit t

def atEnd : Step Unit := do
  unwind (-1)
  dropMark
  modify fun s => { s with keyAllowed := false, marks := [], done := true }
  emit .streamEnd

def atDirective : Step Unit := do
  unwind (-1)
  dropMark
  allowKey false
  emit (← read Scan.directive)

def atDocument (t : Token) : Step Unit := do
  unwind (-1)
  dropMark
  allowKey false
  mark 3 t

/-- An opening bracket or brace. -/
def atFlowStart (t : Token) : Step Unit := do
  saveMark
  modify fun s => { s with flow := s.flow + 1, keyAllowed := true }
  mark 1 t

/-- A closing bracket or brace. -/
def atFlowEnd (t : Token) : Step Unit := do
  dropMark
  modify fun s => { s with flow := s.flow - 1, keyAllowed := false }
  mark 1 t

def atFlowEntry : Step Unit := do
  allowKey true
  dropMark
  mark 1 .flowEntry

/-- Open a block here for an entry of it, where entries may begin. -/
def beginEntry (opening : Token) : Step Unit := do
  let s ← get
  if s.flow == 0 then do
    if !s.keyAllowed then stray
    if ← openBlock s.cursor.column then emit opening

def atBlockEntry : Step Unit := do
  beginEntry .sequenceStart
  allowKey true
  dropMark
  mark 1 .blockEntry

/-- The question mark of a key. -/
def atKey : Step Unit := do
  beginEntry .mappingStart
  allowKey ((← get).flow == 0)
  dropMark
  mark 1 .key

/-- A colon: what begins at the remembered place is a key. -/
def atValue : Step Unit := do
  let s ← get
  match s.marks.lookup s.flow with
  | some m => do
    set { s with marks := s.marks.filter (·.1 != s.flow) }
    emitAt m.token .key
    if s.flow == 0 then
      if ← openBlock m.column then emitAt m.token .mappingStart
    allowKey false
  | none => do
    beginEntry .mappingStart
    allowKey (s.flow == 0)
    dropMark
  mark 1 .value

/-- A token that may begin a key. -/
def atProperty (scan : Scan Token) : Step Unit := do
  saveMark
  allowKey false
  emit (← read scan)

def atBlockScalar : Step Unit := do
  allowKey true
  dropMark
  let text ← read (Scan.block (← get).indent)
  emit (.scalar text false)

def atPlain : Step Unit := do
  saveMark
  allowKey false
  let s ← get
  let (text, ended) ← read (Scan.plain (s.flow != 0) (s.indent + 1))
  if ended then allowKey true
  emit (.scalar text true)

/-- The characters that begin no plain scalar, unless more of a word follows some of them. -/
def plainStops : List Char := "-?:,[]\x7b\x7d#&*!|>'\"%@\x60".toList

/-- Whether a plain scalar begins here. -/
def beginsPlain (s : Layout) (x : Char) : Bool :=
  !(x == ' ' || x == '\t' || isBreak x || plainStops.contains x) ||
    (!endsWord (s.cursor.peekAt 1) && (x == '-' || (s.flow == 0 && (x == '?' || x == ':'))))

/-- The token that a character begins. -/
def atChar (s : Layout) (x : Char) : Step Unit :=
  let c := s.cursor
  let separated := endsWord (c.peekAt 1)
  let separator := c.column == 0 && c.atSeparator
  if x == '%' && c.column == 0 then atDirective
  else if x == '-' && separator then atDocument .documentStart
  else if x == '.' && separator then atDocument .documentEnd
  else if x == '[' then atFlowStart .flowSequenceStart
  else if x == '\x7b' then atFlowStart .flowMappingStart
  else if x == ']' then atFlowEnd .flowSequenceEnd
  else if x == '\x7d' then atFlowEnd .flowMappingEnd
  else if x == ',' then atFlowEntry
  else if x == '-' && separated then atBlockEntry
  else if x == '?' && (s.flow != 0 || separated) then atKey
  else if x == ':' && (s.flow != 0 || separated) then atValue
  else if x == '*' then atProperty (Token.alias <$> Scan.anchorName)
  else if x == '&' then atProperty (Token.anchor <$> Scan.anchorName)
  else if x == '!' then atProperty (Token.tag <$> Scan.tag)
  else if (x == '|' || x == '>') && s.flow == 0 then atBlockScalar
  else if x == '\'' || x == '"' then atProperty ((Token.scalar · false) <$> Scan.quoted)
  else if s.beginsPlain x then atPlain
  else stray

/-- Read on to the next token. -/
def fetch : Step Unit := do
  let s ← get
  let c := s.cursor
  set { s with cursor := if c.index == 0 && c.isAt '\ufeff' then c.next else c }
  toNext (c.rest.length + 1)
  dropStale
  unwind (← get).cursor.column
  let s ← get
  match s.cursor.peek with
  | none => atEnd
  | some x => atChar s x

/-- Whether a key may still turn out to begin at the first token that waits. -/
def isUndecided (s : Layout) : Bool := s.marks.any fun m => m.2.token == s.taken

/--
The tokens that leave the queue, and the defect that ends them if there is one.  Each
step reads on or lets a token go; a text has no more tokens and key marks than a few
for each of its characters.
-/
def tokens : (fuel : Nat) → Layout → List Token × Option Defect
  | 0, _ => ([], none)
  | fuel + 1, s =>
    match s.queue with
    | [] =>
      if s.done then ([], none)
      else
        match fetch.run s with
        | .error d => ([], some d)
        | .ok ((), s) => tokens fuel s
    | t :: rest =>
      if s.done then
        let (ts, d) := tokens fuel { s with queue := rest, taken := s.taken + 1 }
        (t :: ts, d)
      else
        match dropStale.run s with
        | .error d => ([], some d)
        | .ok ((), s) =>
          if s.isUndecided then
            match fetch.run s with
            | .error d => ([], some d)
            | .ok ((), s) => tokens fuel s
          else
            let (ts, d) := tokens fuel { s with queue := rest, taken := s.taken + 1 }
            (t :: ts, d)

end Layout

/-- The tokens of a text, up to the defect that ends them if there is one. -/
def tokensOf (cs : List Char) : List Token × Option Defect :=
  Layout.tokens (8 * cs.length + 16) (.start cs)

end ChainFold.Yaml
