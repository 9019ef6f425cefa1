import ChainFold.Json.Key
/-!
# Tables

A table maps keys to rows and is kept in the order of its keys, each key once.
Two tables with the same rows under the same keys are therefore equal.
-/

namespace ChainFold

/-- Rows with their keys, the keys strictly ascending. -/
structure Table (α : Type) where
  rows : List (Key × α)
  ascending : rows.Pairwise fun a b => a.1.before b.1

namespace Table

variable {α : Type}

instance [DecidableEq α] : DecidableEq (Table α) := fun s t =>
  if h : s.rows = t.rows then isTrue (by cases s; cases t; simp_all)
  else isFalse (by intro hst; exact h (by rw [hst]))

def empty : Table α := ⟨[], List.Pairwise.nil⟩

instance : Inhabited (Table α) := ⟨empty⟩

def lookup (key : Key) : List (Key × α) → Option α
  | [] => none
  | (k, a) :: rest => if k = key then some a else lookup key rest

def place (key : Key) (row : α) : List (Key × α) → List (Key × α)
  | [] => [(key, row)]
  | (k, a) :: rest =>
    if key = k then (key, row) :: rest
    else if key.before k then (key, row) :: (k, a) :: rest
    else (k, a) :: place key row rest

theorem mem_place {key : Key} {row : α} {rows : List (Key × α)} {p : Key × α}
    (h : p ∈ place key row rows) : p = (key, row) ∨ p ∈ rows := by
  induction rows with
  | nil => simpa [place] using h
  | cons q rest ih =>
    obtain ⟨k, a⟩ := q
    unfold place at h
    split at h
    · simp only [List.mem_cons] at h ⊢
      rcases h with h | h <;> simp [h]
    · split at h
      · simpa using h
      · simp only [List.mem_cons] at h ⊢
        rcases h with h | h
        · simp [h]
        · rcases ih h with h | h <;> simp [h]

theorem ascending_place (key : Key) (row : α) {rows : List (Key × α)}
    (h : rows.Pairwise fun a b => a.1.before b.1) :
    (place key row rows).Pairwise fun a b => a.1.before b.1 := by
  induction rows with
  | nil => simp [place]
  | cons q rest ih =>
    obtain ⟨k, a⟩ := q
    have hrest := (List.pairwise_cons.mp h).2
    have hhead := (List.pairwise_cons.mp h).1
    unfold place
    split
    · rename_i hk
      subst hk
      exact List.pairwise_cons.mpr ⟨hhead, hrest⟩
    · rename_i hne
      split
      · rename_i hlt
        refine List.pairwise_cons.mpr ⟨?_, h⟩
        intro p hp
        rcases List.mem_cons.mp hp with hp | hp
        · simpa [hp] using hlt
        · exact Key.before_trans hlt (hhead p hp)
      · rename_i hnlt
        refine List.pairwise_cons.mpr ⟨?_, ih hrest⟩
        intro p hp
        rcases mem_place hp with hp | hp
        · simpa [hp] using Key.before_of_ne hne hnlt
        · exact hhead p hp

def get? (t : Table α) (key : Key) : Option α := lookup key t.rows

def has (t : Table α) (key : Key) : Bool := (t.get? key).isSome

def insert (t : Table α) (key : Key) (row : α) : Table α :=
  ⟨place key row t.rows, ascending_place key row t.ascending⟩

def values (t : Table α) : List α := t.rows.map (·.2)

def keys (t : Table α) : List Key := t.rows.map (·.1)

/-- Put a row before the first one with a greater numeric key. -/
def insertByNumber (p : Key × α) : List (Key × α) → List (Key × α)
  | [] => [p]
  | q :: rest => if p.1.lessNumber q.1 then p :: q :: rest else q :: insertByNumber p rest

/--
The rows in the common order of their keys; `none` if the keys have none.  Numbers are in
the order of their quantities, integers among fractions.
-/
def sorted? (t : Table α) : Option (List α) :=
  if !Key.comparable t.keys then none
  else if t.keys.all Key.isNumber then some ((t.rows.foldr insertByNumber []).map (·.2))
  else some t.values

def size (t : Table α) : Nat := t.rows.length

/-- The rows of `top` set over those of `base`. -/
def merge (base top : Table α) : Table α :=
  top.rows.foldl (fun t p => t.insert p.1 p.2) base

end Table

end ChainFold
