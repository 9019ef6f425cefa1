import ChainFold.Yaml.Quoted
/-!
# Plain and block scalars

A plain scalar is a run of words, folded over lines that are indented deeper than
what encloses it.  A block scalar is a run of whole lines behind a mark that says
whether line breaks are kept and how the scalar ends.
-/

namespace ChainFold.Yaml.Scan

/-- The marks that end a plain scalar within brackets or braces. -/
def isFlowMark (c : Char) : Bool := ",[]\x7b\x7d".toList.contains c

/-- The length of the word of a plain scalar here. -/
def plainLength (inFlow : Bool) : List Char → Nat
  | [] => 0
  | c :: rest =>
    if c == ' ' || c == '\t' || isBreak c then 0
    else if c == ':' && (endsWord rest.head? || (inFlow && rest.head?.any isFlowMark)) then 0
    else if inFlow && (c == '?' || isFlowMark c) then 0
    else plainLength inFlow rest + 1

/-- Empty lines and the spaces in front of a word; `none` if a document ends among them. -/
def plainBreaks : (fuel : Nat) → Scan (Option (List Char))
  | 0 => pure (some [])
  | fuel + 1 => do
    skipSpaces
    match ← lineBreak with
    | [] => pure (some [])
    | cs => do
      if (← get).atSeparator then pure none
      else
        match ← plainBreaks fuel with
        | none => pure none
        | some more => pure (some (cs ++ more))

/-- What stands between two words of a plain scalar, and whether a line has ended. -/
def plainSpaces (fuel : Nat) : Scan (List Char × Bool) := do
  let blanks ← takeWhile (· == ' ')
  match ← lineBreak with
  | [] => pure (blanks, false)
  | first => do
    if (← get).atSeparator then pure ([], true)
    else
      match ← plainBreaks fuel with
      | none => pure ([], true)
      | some further => pure (folded first further, true)

/--
The words of a plain scalar behind `spaces`.  The flag says whether a line has ended
behind the last word.
-/
def plainWords (inFlow : Bool) (indent : Int) :
    (fuel : Nat) → (spaces : List Char) → (ended : Bool) → Scan (List Char × Bool)
  | 0, _, ended => pure ([], ended)
  | fuel + 1, spaces, ended => do
    let c ← get
    let n := plainLength inFlow c.rest
    if c.isAt '#' || n == 0 then pure ([], ended)
    else
      forward n
      let word := spaces ++ c.rest.take n
      let (spaces, ended) ← plainSpaces (fuel + 1)
      let c ← get
      if spaces.isEmpty || c.isAt '#' || (!inFlow && c.column < indent) then pure (word, ended)
      else
        let (more, ended) ← plainWords inFlow indent fuel spaces ended
        pure (word ++ more, ended)

/-- A plain scalar, and whether a line has ended behind it. -/
def plain (inFlow : Bool) (indent : Int) : Scan (String × Bool) := do
  let (cs, ended) ← plainWords inFlow indent ((← get).rest.length + 1) [] false
  pure (String.ofList cs, ended)

/-- How a block scalar ends: with one line break, with all of them, or with none. -/
inductive Chomping where
  | clip
  | keep
  | strip
  deriving DecidableEq

/-- The sign of a block scalar's ending, if there is one here. -/
def chomping : Scan Chomping := do
  match ← peek with
  | some '+' => do forward 1; pure .keep
  | some '-' => do forward 1; pure .strip
  | _ => pure .clip

/-- The digit of a block scalar's indentation, if there is one here. -/
def increment : Scan (Option Nat) := do
  match (← peek).filter Char.isDigit with
  | none => pure none
  | some c => do
    need (c != '0')
    forward 1
    pure (Text.digit? 10 c)

/-- The ending and the indentation of a block scalar, in either order. -/
def blockMarks : Scan (Chomping × Option Nat) := do
  let first ← chomping
  let width ← increment
  let last ← if first = .clip then chomping else pure first
  need (endsField (← peek))
  pure (last, width)

/-- Empty lines in front of a block scalar, and the deepest indentation among them. -/
def blockLead : (fuel : Nat) → (deepest : Nat) → Scan (List Char × Nat)
  | 0, deepest => pure ([], deepest)
  | fuel + 1, deepest => do
    skipSpaces
    let deepest := max deepest (← get).column
    match ← lineBreak with
    | [] => pure ([], deepest)
    | cs => do
      let (more, deepest) ← blockLead fuel deepest
      pure (cs ++ more, deepest)

/-- Move over spaces up to a column. -/
def indentTo (column : Nat) : Scan Unit := do
  let c ← get
  set (c.forward (min (column - c.column) (c.rest.takeWhile (· == ' ')).length))

/-- Empty lines inside a block scalar. -/
def blockBreaks (indent : Nat) : (fuel : Nat) → Scan (List Char)
  | 0 => pure []
  | fuel + 1 => do
    indentTo indent
    match ← lineBreak with
    | [] => pure []
    | cs => return cs ++ (← blockBreaks indent fuel)

/-- Whether a line that starts like this is folded with its neighbours. -/
def foldable (c : Option Char) : Bool := c != some ' ' && c != some '\t'

/--
The lines of a block scalar, with the line break and the empty lines behind the last
of them.
-/
def blockLines (fold : Bool) (indent : Nat) :
    (fuel : Nat) → (breaks : List Char) → Scan (List Char × List Char × List Char)
  | 0, breaks => pure ([], [], breaks)
  | fuel + 1, breaks => do
    let c ← get
    if c.column != indent || c.rest.isEmpty then pure ([], [], breaks)
    else
      let line ← takeWhile (!isBreak ·)
      let ending ← lineBreak
      let further ← blockBreaks indent (fuel + 1)
      let d ← get
      let text := breaks ++ line
      if d.column != indent || d.rest.isEmpty then pure (text, ending, further)
      else
        let joint :=
          if fold && ending == ['\n'] && foldable c.peek && foldable d.peek then
            if further.isEmpty then [' '] else []
          else ending
        let (more, ending, further) ← blockLines fold indent fuel further
        pure (text ++ joint ++ more, ending, further)

/-- A block scalar inside something indented so far. -/
def block (enclosing : Int) : Scan String := do
  let c ← get
  let fuel := c.rest.length + 1
  forward 1
  let (ending, width) ← blockMarks
  restOfLine
  let least := max 1 (enclosing + 1).toNat
  let (breaks, indent) ← match width with
    | none => do
      let (breaks, deepest) ← blockLead fuel 0
      pure (breaks, max least deepest)
    | some n => do
      let indent := least + n - 1
      pure (← blockBreaks indent fuel, indent)
  let (text, last, further) ← blockLines (c.isAt '>') indent fuel breaks
  pure (String.ofList (match ending with
    | .clip => text ++ last
    | .keep => text ++ last ++ further
    | .strip => text))

end ChainFold.Yaml.Scan
