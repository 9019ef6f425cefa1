import ChainFold.Fold.Recent
import ChainFold.Log
/-!
# The desk

What stays when an operation fails: the recently used states and the log.  An
operation with a desk is a computation that may fail and leaves the desk as it is
at that point.
-/

namespace ChainFold

/-- The recently used states, if any are kept, and the log with the latest line first. -/
structure Desk where
  recent : Option Fold.Recent
  log : List Log.Line

/-- A computation that may fail, with a desk that outlives the failure. -/
abbrev Work := ExceptT Failure (StateM Desk)

namespace Work

/-- Pass on a result that is already decided. -/
def ofExcept {α : Type} (r : Except Failure α) : Work α :=
  match r with
  | .ok a => pure a
  | .error f => throw f

/-- Write a line to the log. -/
def note (level : Int) (logger message : String) (extra : Members) : Work Unit :=
  modify fun d => { d with log := ⟨level, logger, message, none, extra⟩ :: d.log }

end Work

namespace Fold

/-- The state held for a cid, which counts as a use; none without a collection. -/
def fetch (cid : Json) : Work (Option State) := do
  let d ← get
  match d.recent with
  | none => pure none
  | some r =>
    let k ← Work.ofExcept (Recent.keyOf cid)
    let (s, r') := r.get k
    set { d with recent := some r' }
    pure s

/-- Hold a state under its tip. -/
def remember (s : State) : Work Unit := do
  let d ← get
  match d.recent with
  | none => pure ()
  | some r =>
    let k ← Work.ofExcept (Recent.keyOf s.tip)
    set { d with recent := some (r.put k s.tip s) }

/-- Fold the first event of a chain and hold the state. -/
def start (e : Event) : Work State := do
  let s ← Work.ofExcept (State.ofGenesis e)
  remember s
  pure s

/-- Fold one more event and hold the state. -/
def step (s : State) (e : Event) : Work State := do
  let s' ← Work.ofExcept (s.advance e)
  remember s'
  pure s'

def steps (s : State) : List Event → Work State
  | [] => pure s
  | e :: rest => do
    let s' ← step s e
    steps s' rest

/--
The deepest event of a chain whose state is held, with the events behind it.  The
chain is given from its tip back.
-/
def resume? : (fromTip behind : List Event) → Work (Option (State × List Event))
  | [], _ => pure none
  | e :: rest, behind => do
    match ← fetch e.cid with
    | some s => pure (some (s, behind))
    | none => resume? rest (e :: behind)

def logger : String := "dataverse_streams.projection.projector"

def noteProjected (chain : List Event) (s : State) : Work Unit :=
  Work.note Log.debug logger s!"Projected {chain.length} events up to {s.tip.display}" []

/-- Resume a fold where a state is held, if a collection is kept. -/
def resume (chain : List Event) : Work (Option (State × List Event)) := do
  if (← get).recent.isSome then resume? chain.reverse [] else pure none

/-- Project a chain, resuming from the deepest event whose state is held. -/
def project (chain : List Event) : Work State :=
  match chain with
  | [] => throw (.defect .emptyChain)
  | e :: rest => do
    let s ← match ← resume chain with
      | some (s, behind) => steps s behind
      | none => do steps (← start e) rest
    noteProjected chain s
    pure s

/-- Project a chain without looking at the held states or holding new ones. -/
def projectAfresh (chain : List Event) : Work State := do
  let s ← Work.ofExcept (State.ofChain chain)
  noteProjected chain s
  pure s

end Fold

end ChainFold
