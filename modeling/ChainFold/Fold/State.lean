import ChainFold.Event.Basic
import ChainFold.Json.Patch
import ChainFold.Payload
/-!
# Folding a chain

The state of a stream at an event: what is left when the payloads of the chain up
to that event are folded, the first as initial content and each later one as a
patch.
-/

namespace ChainFold.Fold

/-- What a chain folds to at its tip. -/
structure State where
  tip : Json
  content : Json
  model : Json
  account : Json
  deriving DecidableEq

namespace State

def ofGenesis (e : Event) : Except Failure State :=
  if !e.isGenesis then .error (.malformedEvent e.cid "not a genesis event")
  else
    match e.payload with
    | .error f => .error f
    | .ok p =>
      let h := p.header.getD .blank
      .ok ⟨e.cid, p.data.getD (.obj []), h.model.getD .null, h.account⟩

/-- The content after the patch of an event; a payload without data leaves it. -/
def patched (e : Event) (p : Payload) (content : Json) : Except Failure Json :=
  match p.data with
  | none => .ok content
  | some patch =>
    match Json.Patch.result? (patch.parts?.getD []) content with
    | none => .error (.malformedEvent e.cid "patch cannot be applied")
    | some result =>
      if result.isObject then .ok result
      else .error (.malformedEvent e.cid "patch must leave content a JSON object")

/-- The state after one more event, which must follow the tip. -/
def advance (s : State) (e : Event) : Except Failure State :=
  if !e.prev.looselySame s.tip then
    .error (.malformedEvent e.cid
      s!"cannot fold onto {s.tip.display}: prev is {e.prev.display}")
  else
    match e.payload with
    | .error f => .error f
    | .ok p =>
      match patched e p s.content with
      | .error f => .error f
      | .ok content => .ok ⟨e.cid, content, s.model, s.account⟩

def advanceAll : State → List Event → Except Failure State
  | s, [] => .ok s
  | s, e :: rest =>
    match s.advance e with
    | .error f => .error f
    | .ok s' => advanceAll s' rest

def ofChain : List Event → Except Failure State
  | [] => .error (.defect .emptyChain)
  | e :: rest =>
    match ofGenesis e with
    | .error f => .error f
    | .ok s => s.advanceAll rest

end State

end ChainFold.Fold
