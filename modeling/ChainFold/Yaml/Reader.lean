import ChainFold.Yaml.Node
import ChainFold.Yaml.Scalar
/-!
# Reading YAML

A text is split into tokens, the tokens make up nodes, and each node stands for a
value.  Where a key occurs twice in a mapping the later value counts, in the place of
the first; the entries of a merged mapping come first.  Of several faults the one that
is nearest to the root counts.
-/

namespace ChainFold.Yaml

namespace Build

def fault {α : Type} : Except Defect α := .error (.notYaml .values)

/-! ## Merged mappings -/

/-- Whether a node is the mark of a merged mapping. -/
def isMerge : Node → Bool
  | .scalar none true text => Kind.ofForm text = .merge
  | _ => false

/-- Entries of a mapping, those merged into it apart. -/
structure Entries where
  merged : List (Node × Node)
  own : List (Node × Node)

/-- All entries, the merged ones first. -/
def Entries.all (es : Entries) : List (Node × Node) := es.merged ++ es.own

mutual

/-- The entries of a mapping, if all that is to be merged is a mapping. -/
def entries? : List (Node × Node) → Option Entries
  | [] => some ⟨[], []⟩
  | (k, v) :: rest =>
    if isMerge k then do
      let es ← merged? v
      let more ← entries? rest
      pure ⟨es ++ more.merged, more.own⟩
    else (fun more => ⟨more.merged, (k, v) :: more.own⟩) <$> entries? rest

/-- The entries of a node to be merged: a mapping, or several with the first on top. -/
def merged? : Node → Option (List (Node × Node))
  | .mapping _ ns => Entries.all <$> entries? ns
  | .sequence _ ns => mergedAll? ns
  | .loop _ => some []
  | .scalar _ _ _ => none

/-- The entries of several mappings to be merged, those of the first last. -/
def mergedAll? : List Node → Option (List (Node × Node))
  | [] => some []
  | .mapping _ ns :: rest => do
    let es ← entries? ns
    let more ← mergedAll? rest
    pure (more ++ es.all)
  | .loop true :: rest => mergedAll? rest
  | _ :: _ => none

end

/-! ## Values -/

def sameKey : (a b : Value) → Bool
  | .foreign s _, .foreign t _ => s == t
  | a, b => a.key?.isSome && a.key? == b.key?

/-- Set an entry: in the place of its key if it is present, else at the end. -/
def put (key value : Value) : List (Value × Value) → List (Value × Value)
  | [] => [(key, value)]
  | (k, v) :: rest => if sameKey k key then (k, value) :: rest else (k, v) :: put key value rest

def isKey (v : Value) : Bool :=
  match v with
  | .foreign _ _ => true
  | v => v.scalar?.isSome

/-- The mapping of entries in order. -/
def mapping (es : List (Value × Value)) : Except Defect (List (Value × Value)) :=
  if es.all fun e => isKey e.1 then .ok (es.foldl (fun ms e => put e.1 e.2 ms) []) else fault

/-- The value of a scalar; as a key, the mark of a default value is a text. -/
def scalar (asKey : Bool) (tag : Option String) (plain : Bool) (text : String) :
    Except Defect Value :=
  match Scalar.kind? tag plain text with
  | some .default => if asKey then .ok (.str text) else fault
  | some kind => Scalar.value text kind
  | none => if tag == some (Scalar.coreTag "binary") then Scalar.octets text else fault

def collectionTags : List String :=
  ["seq", "omap", "pairs", "map", "set"].map Scalar.coreTag

/-- A collection of the kind that a tag asks for. -/
inductive Collection where
  | items (ns : List Node)
  | pairs (es : List (Node × Node))
  | set (es : List (Node × Node))
  | map (es : List (Node × Node))

def soleEntry? : Node → Option (Node × Node)
  | .mapping _ [e] => some e
  | _ => none

/-- The collection that a node is, if its tag goes with it. -/
def collection? : Node → Option Collection
  | .sequence none ns => some (.items ns)
  | .sequence (some tag) ns =>
    if tag == Scalar.coreTag "seq" then some (.items ns)
    else if tag == Scalar.coreTag "omap" || tag == Scalar.coreTag "pairs" then
      .pairs <$> ns.mapM soleEntry?
    else none
  | .mapping none ns => (fun es => .map es.all) <$> entries? ns
  | .mapping (some tag) ns =>
    if tag == Scalar.coreTag "map" then (fun es => .map es.all) <$> entries? ns
    else if tag == Scalar.coreTag "set" then (fun es => .set es.all) <$> entries? ns
    else none
  | .scalar _ _ _ | .loop _ => none

/-- The value that a node stands for, which is at most so many levels deep. -/
def value : (depth : Nat) → (asKey : Bool) → Node → Except Defect Value
  | 0, _, _ => fault
  | depth + 1, asKey, n =>
    let entry (asKey : Bool) (e : Node × Node) : Except Defect (Value × Value) := do
      pure (← value depth asKey e.1, ← value depth false e.2)
    match n with
    | .scalar tag plain text => scalar asKey tag plain text
    | .loop isMapping => .ok (.loop isMapping)
    | n =>
      match collection? n with
      | none => fault
      | some (.items ns) => .seq <$> ns.mapM (value depth false)
      | some (.pairs es) =>
        (fun vs => .seq (vs.map fun e => .pair e.1 e.2)) <$> es.mapM (entry false)
      | some (.set es) => do pure (.set ((← mapping (← es.mapM (entry true))).map (·.1)))
      | some (.map es) => do pure (.map (← mapping (← es.mapM (entry true))))

/-! ## The first fault -/

/--
Whether the parts of a node are only looked at once all that stands beside it has been:
it is a collection, or is said to be one.
-/
def isDeferred : Node → Bool
  | .sequence tag _ | .mapping tag _ => tag.all collectionTags.contains
  | .scalar tag _ _ => tag.any collectionTags.contains
  | .loop _ => false

/-- What is met where a collection is looked at. -/
inductive Part where
  | key (n : Node)
  | item (n : Node)
  /-- Something that cannot be a part. -/
  | fault

def entryParts (e : Node × Node) : List Part := [.key e.1, .item e.2]

/-- The parts of a sequence of entries, up to the first that is none. -/
def pairParts : List Node → List Part
  | [] => []
  | n :: rest =>
    match soleEntry? n with
    | some e => .item e.1 :: .item e.2 :: pairParts rest
    | none => [.fault]

/-- The parts of a deferred node, in the order in which they are met. -/
def parts (n : Node) : List Part :=
  match n, collection? n with
  | _, some (.items ns) => ns.map .item
  | _, some (.set es) | _, some (.map es) => es.flatMap entryParts
  | .sequence (some tag) ns, _ =>
    if tag == Scalar.coreTag "omap" || tag == Scalar.coreTag "pairs" then pairParts ns
    else [.fault]
  | _, _ => [.fault]

/-- Look at a part; a collection is left for later, and cannot be a key. -/
def meet : Part → Except Defect (Option Node)
  | .fault => fault
  | .key (.scalar tag plain text) =>
    if isDeferred (.scalar tag plain text) then fault
    else (fun _ => none) <$> scalar true tag plain text
  | .key _ => fault
  | .item (.loop _) => .ok none
  | .item n =>
    if isDeferred n then .ok (some n)
    else
      match n with
      | .scalar tag plain text => (fun _ => none) <$> scalar false tag plain text
      | _ => fault

/--
Look at the parts of nodes, then at the parts of those among them that were left for
later, level by level; the first fault that is met is that of the whole.
-/
def survey : (depth : Nat) → List Node → Except Defect Unit
  | 0, _ => .ok ()
  | depth + 1, ns => do
    let later ← (ns.flatMap parts).mapM meet
    if later.any Option.isSome then survey depth (later.filterMap id)

def document (n : Node) : Except Defect Value := do
  let later ← meet (.item n)
  survey n.depth later.toList
  value n.depth false n

end Build

/-- A text with every kind of line ending as a line feed. -/
def unixLines : List Char → List Char
  | [] => []
  | '\r' :: '\n' :: rest => '\n' :: unixLines rest
  | '\r' :: rest => '\n' :: unixLines rest
  | c :: rest => c :: unixLines rest

/-- Whether a character may occur in a text. -/
def isAllowed (c : Char) : Bool :=
  let n := c.toNat
  n == 9 || n == 10 || (0x20 ≤ n && n ≤ 0x7e) || n == 0x85 || (0xa0 ≤ n && n ≤ 0xfffd) ||
    0x10000 ≤ n

/-- Read a text; one without a document stands for null. -/
def read (text : String) : Except Defect Value := do
  let cs := unixLines text.toList
  if !cs.all isAllowed then throw (.notYaml .characters)
  match ← nodeOf cs with
  | none => pure .null
  | some n => Build.document n

end ChainFold.Yaml
