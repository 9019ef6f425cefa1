import ChainFold.Yaml.Layout
/-!
# Nodes

The structure of a document, read from its tokens.  A name given to a node by an anchor
can be used behind it in place of the node.
-/

namespace ChainFold.Yaml

/--
A part of a document.  A tag is given in full; an untagged plain scalar is of any kind.
A loop stands where a sequence or a mapping is named inside itself.
-/
inductive Node where
  | scalar (tag : Option String) (plain : Bool) (text : String)
  | sequence (tag : Option String) (items : List Node)
  | mapping (tag : Option String) (entries : List (Node × Node))
  | loop (isMapping : Bool)
  deriving Inhabited

/-- The node that stands where nothing is written. -/
def Node.blank : Node := .scalar none true ""

namespace Node

mutual

def depth : Node → Nat
  | .scalar _ _ _ | .loop _ => 1
  | .sequence _ items => itemsDepth items + 1
  | .mapping _ entries => entriesDepth entries + 1

/-- The number of levels of the deepest of some items. -/
def itemsDepth : List Node → Nat
  | [] => 0
  | n :: rest => max (depth n) (itemsDepth rest)

/-- The number of levels of the deepest part of some entries. -/
def entriesDepth : List (Node × Node) → Nat
  | [] => 0
  | (k, v) :: rest => max (max (depth k) (depth v)) (entriesDepth rest)

end

end Node

/-- What a reader of tokens knows. -/
structure Reading where
  tokens : List Token
  /-- What is wrong behind the last token. -/
  defect : Defect
  /-- The prefixes that tag handles stand for. -/
  handles : List (String × String)
  /-- The named nodes; one that is not complete yet is a loop. -/
  anchors : List (String × Node)

/-- A step of a reader of tokens. -/
abbrev Parse (α : Type) := StateT Reading (Except Defect) α

namespace Parse

/-- The tokens make up no nodes. -/
def misplaced {α : Type} : Parse α := throw (.notYaml .nodes)

/-- The nodes make up no graph of one document. -/
def unlinked {α : Type} : Parse α := throw (.notYaml .graph)

def peek : Parse Token := do
  let r ← get
  match r.tokens with
  | t :: _ => pure t
  | [] => throw r.defect

/-- Move behind the next token. -/
def skip : Parse Unit := modify fun r => { r with tokens := r.tokens.drop 1 }

def isAt (ts : List Token) : Parse Bool := return ts.contains (← peek)

/-- Move behind a certain token, if it is next; says whether it is. -/
def skipIf (t : Token) : Parse Bool := do
  if (← peek) = t then do
    skip
    pure true
  else pure false

/-- Move behind a certain token, which must be next. -/
def expect (t : Token) : Parse Unit := do
  if !(← skipIf t) then misplaced

/-- The anchor and the tag in front of a node, in either order. -/
structure Properties where
  anchor : Option String
  tag : Option Tag

def anchor? : Parse (Option String) := do
  match ← peek with
  | .anchor name => do skip; pure (some name)
  | _ => pure none

def tag? : Parse (Option Tag) := do
  match ← peek with
  | .tag t => do skip; pure (some t)
  | _ => pure none

/-- The properties in front of a node. -/
def properties : Parse Properties := do
  match ← anchor? with
  | some name => return ⟨some name, ← tag?⟩
  | none =>
    match ← tag? with
    | none => pure ⟨none, none⟩
    | some t => return ⟨← anchor?, some t⟩

def fullTag (t : Tag) : Parse String := do
  match t.handle with
  | none => pure t.suffix
  | some handle =>
    match (← get).handles.lookup handle with
    | none => misplaced
    | some start => pure (start ++ t.suffix)

def bind (anchor : Option String) (n : Node) : Parse Unit :=
  match anchor with
  | none => pure ()
  | some name => modify fun r => { r with anchors := (name, n) :: r.anchors }

/-- Begin a node with a name, which must be new. -/
def begin (anchor : Option String) (isMapping : Bool) : Parse Unit := do
  let r ← get
  if anchor.any fun name => (r.anchors.lookup name).isSome then unlinked
  bind anchor (.loop isMapping)

def named (name : String) : Parse Node := do
  match (← get).anchors.lookup name with
  | none => unlinked
  | some n => pure n

/-- The tag of a node: the mark `!` alone leaves its kind open. -/
def openTag (tag : Option String) : Option String := tag.filter (· != "!")

def complete (anchor : Option String) (n : Node) : Parse Node := do
  bind anchor n
  pure n

mutual

/--
A node.  `block` says whether it may be an indented block, `inKey` whether the items of
a sequence may stand at the column of the keys around it.
-/
def node (block inKey : Bool) : (fuel : Nat) → Parse Node
  | 0 => misplaced
  | fuel + 1 => do
    match ← peek with
    | .alias name => do
      skip
      named name
    | _ => do
      let p ← properties
      let tag ← p.tag.mapM fullTag
      let t ← peek
      if inKey && t = .blockEntry then do
        begin p.anchor false
        complete p.anchor (.sequence (openTag tag) (← items [.key, .value, .blockEnd] fuel))
      else
        match t with
        | .scalar text plain => do
          skip
          begin p.anchor false
          complete p.anchor (.scalar (openTag tag) (tag.elim plain (· == "!")) text)
        | .flowSequenceStart => do
          begin p.anchor false
          skip
          complete p.anchor (.sequence (openTag tag) (← flowItems true fuel))
        | .flowMappingStart => do
          begin p.anchor true
          skip
          complete p.anchor (.mapping (openTag tag) (← flowEntries true fuel))
        | t =>
          if block && t = .sequenceStart then do
            begin p.anchor false
            skip
            let ns ← items [.blockEnd] fuel
            expect .blockEnd
            complete p.anchor (.sequence (openTag tag) ns)
          else if block && t = .mappingStart then do
            begin p.anchor true
            skip
            let es ← entries fuel
            expect .blockEnd
            complete p.anchor (.mapping (openTag tag) es)
          else if p.anchor.isSome || p.tag.isSome then do
            begin p.anchor false
            complete p.anchor (.scalar (openTag tag) (tag.all (· == "!")) "")
          else misplaced

/-- The items of a block sequence, where an item may be followed by certain tokens. -/
def items (stops : List Token) : (fuel : Nat) → Parse (List Node)
  | 0 => misplaced
  | fuel + 1 => do
    if ← skipIf .blockEntry then do
      let n ← if ← isAt (.blockEntry :: stops) then pure Node.blank else node true false fuel
      return n :: (← items stops fuel)
    else pure []

/-- A key or value in a block mapping: nothing may be written for it. -/
def blockPart : (fuel : Nat) → Parse Node
  | 0 => misplaced
  | fuel + 1 => do
    if ← isAt [.key, .value, .blockEnd] then pure Node.blank else node true true fuel

def entries : (fuel : Nat) → Parse (List (Node × Node))
  | 0 => misplaced
  | fuel + 1 => do
    if ← skipIf .key then do
      let k ← blockPart fuel
      let v ← if ← skipIf .value then blockPart fuel else pure Node.blank
      return (k, v) :: (← entries fuel)
    else pure []

/-- A key or value between brackets or braces that end with a token. -/
def flowPart (stops : List Token) : (fuel : Nat) → Parse Node
  | 0 => misplaced
  | fuel + 1 => do
    if ← isAt stops then pure Node.blank else node false false fuel

/-- The value behind a key between brackets or braces that end with a token. -/
def flowValue (ending : Token) : (fuel : Nat) → Parse Node
  | 0 => misplaced
  | fuel + 1 => do
    if ← skipIf .value then flowPart [.flowEntry, ending] fuel else pure Node.blank

def flowItems (first : Bool) : (fuel : Nat) → Parse (List Node)
  | 0 => misplaced
  | fuel + 1 => do
    if ← skipIf .flowSequenceEnd then pure []
    else
      if !first then expect .flowEntry
      if ← skipIf .key then do
        let k ← flowPart [.value, .flowEntry, .flowSequenceEnd] fuel
        let v ← flowValue .flowSequenceEnd fuel
        return .mapping none [(k, v)] :: (← flowItems false fuel)
      else if ← skipIf .flowSequenceEnd then pure []
      else
        let n ← node false false fuel
        return n :: (← flowItems false fuel)

def flowEntries (first : Bool) : (fuel : Nat) → Parse (List (Node × Node))
  | 0 => misplaced
  | fuel + 1 => do
    if ← skipIf .flowMappingEnd then pure []
    else
      if !first then expect .flowEntry
      if ← skipIf .key then do
        let k ← flowPart [.value, .flowEntry, .flowMappingEnd] fuel
        let v ← flowValue .flowMappingEnd fuel
        return (k, v) :: (← flowEntries false fuel)
      else if ← skipIf .flowMappingEnd then pure []
      else
        let k ← node false false fuel
        return (k, Node.blank) :: (← flowEntries false fuel)

end

/-- The tokens that cannot begin the node of a document. -/
def isOutside : Token → Bool
  | .directiveYaml _ | .directiveTag _ _ | .directiveOther => true
  | .documentStart | .documentEnd | .streamEnd => true
  | _ => false

/-- The handles that need no directive. -/
def commonHandles : List (String × String) := [("!", "!"), ("!!", "tag:yaml.org,2002:")]

/-- The directives in front of a document; `version` says whether one with a version was met. -/
def directives : (fuel : Nat) → (version : Bool) → (handles : List (String × String)) →
    Parse (List (String × String))
  | 0, _, handles => pure handles
  | fuel + 1, version, handles => do
    match ← peek with
    | .directiveYaml major => do
      skip
      if version || major != 1 then misplaced
      directives fuel true handles
    | .directiveTag handle start => do
      skip
      if (handles.lookup handle).isSome then misplaced
      directives fuel version ((handle, start) :: handles)
    | .directiveOther => do
      skip
      directives fuel version handles
    | _ => pure handles

/-- Move behind the ends of documents. -/
def skipEnds : (fuel : Nat) → Parse Unit
  | 0 => pure ()
  | fuel + 1 => do
    if ← skipIf .documentEnd then skipEnds fuel

/-- Move behind the start of another document; says whether there is one. -/
def nextDocument (fuel : Nat) : Parse Bool := do
  skipEnds fuel
  if ← isAt [.streamEnd] then pure false
  else
    let handles ← directives fuel false []
    modify fun r => { r with handles := handles ++ commonHandles }
    expect .documentStart
    pure true

/-- Whether a document begins without a mark. -/
def beginsBare : Token → Bool
  | .documentEnd => true
  | t => !isOutside t

def document (fuel : Nat) : Parse (Option Node) := do
  let bare := beginsBare (← peek)
  let present ← if bare then pure true else nextDocument fuel
  if present then do
    let n ← if !bare && isOutside (← peek) then pure Node.blank else node true false fuel
    if ← nextDocument fuel then unlinked
    pure (some n)
  else pure none

end Parse

/-- The node of the only document of a text, if it has one. -/
def nodeOf (cs : List Char) : Except Defect (Option Node) :=
  let (tokens, defect) := tokensOf cs
  let r : Reading := ⟨tokens, defect.getD (.notYaml .nodes), Parse.commonHandles, []⟩
  match (Parse.document (4 * tokens.length + 16)).run r with
  | .ok (n, _) => .ok n
  | .error d => .error d

end ChainFold.Yaml
