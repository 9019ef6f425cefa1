import ChainFold.Json.Basic
/-!
# Comparing values

Values are compared by what they stand for and not by how they were written: whether two
are equal, which of two is less, and whether one is below a bound.
-/

/-!
## Equality by value

Numbers are compared by the number they stand for, so an integer may equal a
double.  Objects are compared regardless of order.  There are two such relations:
a loose one that counts booleans as the numbers 0 and 1, and a strict one that
keeps them apart.  NaN equals nothing, except that the loose relation lets it
equal itself inside an array or an object.
-/

namespace ChainFold.Json

/-- What a number stands for: a fraction, an infinity, or nothing. -/
inductive Quantity where
  | ratio (num : Int) (den : Nat)
  | infinite (negative : Bool)
  | nan
  deriving DecidableEq, Repr

def Quantity.ofInt (n : Int) : Quantity := .ratio n 1

def Quantity.ofDouble (d : Double) : Quantity :=
  if d.isNaN then .nan
  else if d.isFinite then .ratio d.numerator d.denominator
  else .infinite d.isNegative

/-- Whether two quantities are the same number. -/
def Quantity.same : Quantity → Quantity → Bool
  | .ratio a b, .ratio c d => a * d == c * b
  | .infinite a, .infinite b => a == b
  | _, _ => false

def Quantity.below (q : Quantity) (n : Int) : Bool :=
  match q with
  | .ratio a b => a < n * b
  | .infinite negative => negative
  | .nan => false

/-- Whether a quantity is below another; NaN is below nothing and nothing is below it. -/
def Quantity.less : Quantity → Quantity → Bool
  | .ratio a b, .ratio c d => a * d < c * b
  | .ratio _ _, .infinite negative => !negative
  | .infinite negative, .ratio _ _ => negative
  | .infinite a, .infinite b => a && !b
  | _, _ => false

/-- The quantity of a value; `booleans` says whether booleans have one. -/
def quantity? (booleans : Bool) : Json → Option Quantity
  | .int n => some (.ofInt n)
  | .double d => some (.ofDouble d)
  | .bool b => if booleans then some (.ofInt b.toNat) else none
  | _ => none

/-- Equality of two values neither of which is an array or an object. -/
def sameScalar (booleans : Bool) (a b : Json) : Bool :=
  match quantity? booleans a, quantity? booleans b with
  | some p, some q => p.same q
  | none, none =>
    match a, b with
    | .null, .null => true
    | .bool p, .bool q => p == q
    | .str s, .str t => s == t
    | _, _ => false
  | _, _ => false

def bothNaN : (a b : Json) → Bool
  | .double c, .double d => c.isNaN && d.isNaN
  | _, _ => false

mutual

/-- Equality by value; `loose` says whether booleans count as numbers. -/
def same (loose : Bool) : (a b : Json) → Bool
  | .arr as, .arr bs => sameItems loose as bs
  | .obj as, .obj bs => as.length == bs.length && sameMembers loose as bs
  | a, b => sameScalar loose a b

def sameItems (loose : Bool) : (as bs : List Json) → Bool
  | [], [] => true
  | a :: as, b :: bs => (loose && bothNaN a b || same loose a b) && sameItems loose as bs
  | _, _ => false

/-- Each member of the first list has an equal one in the second. -/
def sameMembers (loose : Bool) : (as bs : List (String × Json)) → Bool
  | [], _ => true
  | (k, a) :: as, bs =>
    (match Members.get? k bs with
      | some b => loose && bothNaN a b || same loose a b
      | none => false) && sameMembers loose as bs

end

/-- Equality under which `1`, `1.0` and `true` are the same. -/
def looselySame : Json → Json → Bool := same true

/-- Equality under which `1` and `1.0` are the same, and `true` is neither. -/
def strictlySame : Json → Json → Bool := same false

/-- The loose equality of two values that are parts of others: NaN equals itself. -/
def sameWithin (a b : Json) : Bool := bothNaN a b || a.looselySame b

end ChainFold.Json

/-!
## Ranking

A list in the order of a comparison that may not be defined for all elements.  What
the list begins with is kept if it ascends and turned if it descends; every element
behind it is put in its place by halving.  The outcome is therefore settled even where
the comparison is no order, as among numbers one of which is NaN.
-/

namespace ChainFold.Ranking

variable {α : Type} (less? : α → α → Option Bool)

/--
How many elements in a row, the first behind `previous`, are all less than the one in
front of them, or all not less.
-/
def runLength (descending : Bool) (previous : α) : List α → Option Nat
  | [] => some 0
  | x :: rest => do
    if (← less? x previous) == descending then
      let more ← runLength descending x rest
      pure (more + 1)
    else pure 0

/--
The place of an element in a list in order, from `low` up to `high`: behind the
elements that it is not less than.
-/
def placeOf (sorted : List α) (x : α) (low high : Nat) : Option Nat :=
  if _h : low < high then
    let middle := low + (high - low) / 2
    match sorted[middle]? with
    | none => some low
    | some y =>
      match less? x y with
      | none => none
      | some true => placeOf sorted x low middle
      | some false => placeOf sorted x (middle + 1) high
  else some low
termination_by high - low
decreasing_by all_goals omega

/-- A list in order with another element in its place. -/
def insert (sorted : List α) (x : α) : Option (List α) :=
  (placeOf less? sorted x 0 sorted.length).map fun i => sorted.take i ++ x :: sorted.drop i

/-- A list in order; `none` if elements are met that cannot be compared. -/
def sort? : List α → Option (List α)
  | x :: y :: rest => do
    let descending ← less? y x
    let more ← runLength less? descending y rest
    let run := x :: y :: rest.take more
    (rest.drop more).foldlM (insert less?) (if descending then run.reverse else run)
  | xs => some xs

end ChainFold.Ranking

/-!
## Order by value

Numbers are in the order of their quantities, booleans among them, and texts in the
order of their characters.  Of two arrays the first items that differ decide, or else
the lengths.  Anything else has no order.
-/

namespace ChainFold.Json

mutual

/-- Whether a value is less than another; `none` if the two have no order. -/
def less? : (a b : Json) → Option Bool
  | .str s, .str t => some (s < t)
  | .arr as, .arr bs => lessItems? as bs
  | a, b =>
    match quantity? true a, quantity? true b with
    | some p, some q => some (p.less q)
    | _, _ => none

def lessItems? : (as bs : List Json) → Option Bool
  | _, [] => some false
  | [], _ :: _ => some true
  | a :: as, b :: bs => if a.sameWithin b then lessItems? as bs else less? a b

end

def ordered? (items : List Json) : Option (List Json) := Ranking.sort? less? items

end ChainFold.Json

/-!
## Amounts

A number that bounds something: how many entries, how many bytes.  It is kept as it
was given, since messages repeat it.
-/

namespace ChainFold

/-- A number as it was given, with the quantity that it stands for. -/
structure Amount where
  given : Json
  quantity : Json.Quantity
  deriving DecidableEq

namespace Amount

/-- The amount that a value is; booleans count as 0 and 1, and anything but a number is none. -/
def of? (j : Json) : Option Amount := (Json.quantity? true j).map (⟨j, ·⟩)

def ofNat (n : Nat) : Amount := ⟨.int n, .ofInt n⟩

/-- Whether an amount is below an integer; NaN is not. -/
def isBelow (a : Amount) (n : Int) : Bool := a.quantity.below n

theorem isBelow_ofNat (n m : Nat) : (ofNat n).isBelow m = decide (n < m) := by
  simp [isBelow, ofNat, Json.Quantity.ofInt, Json.Quantity.below]

/-- Whether an amount is at most an integer; NaN is not. -/
def isAtMost (a : Amount) (n : Int) : Bool :=
  a.quantity.below n || a.quantity.same (.ofInt n)

end Amount

end ChainFold
