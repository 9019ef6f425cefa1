import ChainFold.Engine.Submission
/-!
# Submitting at the same time

Events that are submitted at the same time are answered as if they had come one after
another.  What shows is the order of the log: transactions wait for one another, and
while the first one waits for its storage the other events are checked.
-/

namespace ChainFold.Engine

def submitAll (en : Engine) (claim : OwnerClaim) :
    List Event → List (Except Failure Receipt) × Engine
  | [] => ([], en)
  | e :: rest =>
    let (r, en) := en.submit e claim
    let (rs, en) := submitAll en claim rest
    (r :: rs, en)

def admitAll (en : Engine) : List Event → List (Except Failure Event) × Engine
  | [] => ([], en)
  | e :: rest =>
    let (r, en) := en.observe (en.admitting e)
    let (rs, en) := admitAll en rest
    (r :: rs, en)

/-- Submit events that have been checked, one after another. -/
def acceptAll (en : Engine) (claim : OwnerClaim) :
    List (Except Failure Event) → List (Except Failure Receipt) × Engine
  | [] => ([], en)
  | .error f :: rest =>
    let (rs, en) := acceptAll en claim rest
    (.error f :: rs, en)
  | .ok e :: rest =>
    let (r, en) := en.commit (en.accepting e claim)
    let (rs, en) := acceptAll en claim rest
    (r :: rs, en)

/-- Submit events whose transactions wait for their storage at once. -/
def submitWaiting (en : Engine) (claim : OwnerClaim) (es : List Event) :
    List (Except Failure Receipt) × Engine :=
  let (admitted, en) := en.admitAll es
  en.acceptAll claim admitted

/-- Submit events whose transactions wait when they archive their events. -/
def submitArchiving (en : Engine) (claim : OwnerClaim) :
    List Event → List (Except Failure Receipt) × Engine
  | [] => ([], en)
  | e :: rest =>
    match en.observe (en.admitting e) with
    | (.error f, en) =>
      let (rs, en) := submitArchiving en claim rest
      (.error f :: rs, en)
    | (.ok e, en) =>
      match en.observe (en.resolving e claim) with
      | (.error f, en) =>
        let (rs, en) := submitArchiving en claim rest
        (.error f :: rs, en)
      | (.ok (r, t), en) =>
        let (admitted, en) := en.admitAll rest
        let (r, en) := en.commit (en.settling e r t)
        let (rs, en) := en.acceptAll claim admitted
        (r :: rs, en)

def submitTogether (en : Engine) (claim : OwnerClaim) (es : List Event) :
    List (Except Failure Receipt) × Engine :=
  if !en.store.isOpen then en.submitAll claim es
  else if en.backend.isRelational then en.submitWaiting claim es
  else if en.archive.isFiles then en.submitArchiving claim es
  else en.submitAll claim es

end ChainFold.Engine
