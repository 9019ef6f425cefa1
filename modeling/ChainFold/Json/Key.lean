import ChainFold.Json.Comparison
/-!
# Keys

What a collection that is looked up by value can have as a key: null, a number or a
text.  Numbers that are equal are one key, whether they are written as integers,
doubles or booleans.
-/

namespace ChainFold

inductive Key where
  | null
  /-- A number without a fraction. -/
  | whole (n : Int)
  /-- A double that is no integer. -/
  | fraction (d : Double)
  | text (s : String)
  deriving DecidableEq, Repr

namespace Key

/-- The key of a double; NaN is one key. -/
def ofDouble (d : Double) : Key :=
  if d.isNaN then .fraction .nan
  else if d.isFinite && d.numerator % d.denominator == 0 then .whole (d.numerator / d.denominator)
  else .fraction d

/-- Where the keys of a kind stand among those of other kinds. -/
def rank : Key → Nat
  | .null => 0
  | .whole _ => 1
  | .fraction _ => 2
  | .text _ => 3

/-- The order in which keys are kept: kind by kind, texts as texts. -/
def before : Key → Key → Bool
  | .whole m, .whole n => m < n
  | .fraction c, .fraction d => c.bits.toNat < d.bits.toNat
  | .text s, .text t => s < t
  | a, b => a.rank < b.rank

/-- The order of texts is the order of their keys. -/
@[simp] theorem before_text (s t : String) : before (.text s) (.text t) = decide (s < t) := rfl

theorem before_trans {a b c : Key} (hab : before a b) (hbc : before b c) : before a c := by
  cases a <;> cases b <;> cases c
  case text.text.text s t u =>
    rw [before_text, decide_eq_true_eq] at *
    exact String.lt_trans hab hbc
  all_goals simp_all [before, rank]
  case whole.whole.whole => omega
  case fraction.fraction.fraction => omega

theorem before_of_ne {a b : Key} (hne : a ≠ b) (h : ¬ before a b) : before b a := by
  cases a <;> cases b
  case text.text s t =>
    rw [before_text, decide_eq_true_eq] at *
    have hle : t ≤ s := String.not_lt.mp h
    by_cases hlt : t < s
    · exact hlt
    · exact absurd (congrArg Key.text (String.le_antisymm (String.not_lt.mp hlt) hle)) hne
  all_goals simp_all [before, rank]
  case whole.whole => omega
  case fraction.fraction c d =>
    rcases Nat.lt_or_ge d.bits.toNat c.bits.toNat with hlt | hge
    · exact hlt
    · have heq : c.bits = d.bits := UInt64.toNat_inj.mp (by omega)
      exact absurd (by cases c; cases d; simp_all) hne

def isText : Key → Bool
  | .text _ => true
  | _ => false

def isNumber : Key → Bool
  | .whole _ | .fraction _ => true
  | _ => false

/-- Whether keys have a common order: there is at most one, or all are texts, or all numbers. -/
def comparable (keys : List Key) : Bool :=
  keys.length ≤ 1 || keys.all isText || keys.all isNumber

def quantity? : Key → Option Json.Quantity
  | .whole n => some (.ofInt n)
  | .fraction d => some (.ofDouble d)
  | _ => none

def lessNumber (a b : Key) : Bool :=
  match a.quantity?, b.quantity? with
  | some p, some q => p.less q
  | _, _ => false

end Key

/-- The key that a value is looked up under; arrays and objects have none. -/
def Json.key? : Json → Option Key
  | .null => some .null
  | .bool b => some (.whole b.toNat)
  | .int n => some (.whole n)
  | .double d => some (.ofDouble d)
  | .str s => some (.text s)
  | .arr _ | .obj _ => none

end ChainFold
