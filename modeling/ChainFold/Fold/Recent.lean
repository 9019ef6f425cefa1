import ChainFold.Fold.State
import ChainFold.Json.Comparison
import ChainFold.Json.Key
/-!
# Recently used states

A bounded collection of states under the cids they were folded to.  Entries stand
in the order of their last use; the one unused for the longest time makes room
for a new one.
-/

namespace ChainFold.Fold

/-- A state with the cid it is held under. -/
structure Entry where
  key : Key
  cid : Json
  state : State
  deriving DecidableEq

/-- States in the order of their last use, the latest at the end. -/
structure Recent where
  capacity : Amount
  entries : List Entry
  hits : Nat
  misses : Nat
  deriving DecidableEq

namespace Recent

def empty (capacity : Amount) : Recent := ⟨capacity, [], 0, 0⟩

/-- An empty collection; its capacity must be a number, and not below one. -/
def create (capacity : Json) : Except Failure Recent :=
  match Amount.of? capacity with
  | none => .error (.defect .wrongKind)
  | some n => if n.isBelow 1 then .error (.defect (.noRoom capacity)) else .ok (empty n)

def find? (r : Recent) (k : Key) : Option Entry := r.entries.find? (·.key == k)

def holds (r : Recent) (k : Key) : Bool := (r.find? k).isSome

def others (r : Recent) (k : Key) : List Entry := r.entries.filter (·.key ≠ k)

/-- Look up a key; a hit is a use. -/
def get (r : Recent) (k : Key) : Option State × Recent :=
  match r.find? k with
  | none => (none, { r with misses := r.misses + 1 })
  | some e => (some e.state, { r with entries := r.others k ++ [e], hits := r.hits + 1 })

/-- Hold a state under a cid, dropping the entry unused for the longest time when full. -/
def put (r : Recent) (k : Key) (cid : Json) (s : State) : Recent :=
  let entries := r.others k ++ [⟨k, cid, s⟩]
  { r with entries := if r.capacity.isBelow entries.length then entries.drop 1 else entries }

def clear (r : Recent) : Recent := { r with entries := [] }

def size (r : Recent) : Nat := r.entries.length

/-- The cids held, in the order of their last use. -/
def keys (r : Recent) : List Json := r.entries.map (·.cid)

/-- The share of the capacity in use. -/
def utilization (r : Recent) : Double :=
  match r.capacity.quantity with
  | .ratio num den => Double.ofRatio false (r.size * den) num.natAbs
  | .infinite _ => Double.zero false
  | .nan => Double.nan

/-- The key of a cid, if it can be looked up. -/
def keyOf (cid : Json) : Except Failure Key :=
  match cid.key? with
  | some k => .ok k
  | none => .error (.defect .wrongKind)

end Recent

end ChainFold.Fold
