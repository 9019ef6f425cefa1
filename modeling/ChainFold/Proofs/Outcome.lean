/-!
# Computations that may fail

How a sequence of steps that may fail comes to an end: it succeeds only if every
step does, and otherwise its failure is that of the first step that fails.  So it fails in
the ways in which its steps do.
-/

namespace ChainFold

variable {ε α β : Type}

theorem bind_eq_ok {x : Except ε α} {f : α → Except ε β} {b : β} :
    (x >>= f) = .ok b ↔ ∃ a, x = .ok a ∧ f a = .ok b := by
  cases x with
  | error e => simp [bind, Except.bind]
  | ok a => simp [bind, Except.bind]

theorem map_eq_ok {x : Except ε α} {f : α → β} {b : β} :
    f <$> x = .ok b ↔ ∃ a, x = .ok a ∧ f a = b := by
  cases x with
  | error e => simp [Functor.map, Except.map]
  | ok a => simp [Functor.map, Except.map]

@[simp] theorem pure_eq_ok (a : α) : (pure a : Except ε α) = .ok a := rfl

@[simp] theorem throw_eq_error (e : ε) : (throw e : Except ε α) = .error e := rfl

@[simp] theorem ok_bind (a : α) (f : α → Except ε β) : (Except.ok a >>= f) = f a := rfl

@[simp] theorem error_bind (e : ε) (f : α → Except ε β) :
    (Except.error e >>= f) = .error e := rfl

@[simp] theorem map_ok (f : α → β) (a : α) : f <$> (Except.ok a : Except ε α) = .ok (f a) := rfl

@[simp] theorem map_error (f : α → β) (e : ε) :
    f <$> (Except.error e : Except ε α) = .error e := rfl

/-- A computation fails, if at all, in a way that a predicate allows. -/
def FailsOnly (allowed : ε → Prop) (r : Except ε α) : Prop := ∀ f, r = .error f → allowed f

namespace FailsOnly

variable {allowed allowed' : ε → Prop}

theorem ok (a : α) : FailsOnly allowed (.ok a) := nofun

theorem error {f : ε} (h : allowed f) : FailsOnly allowed (.error f : Except ε α) := by
  intro f' hf'
  exact Except.error.inj hf' ▸ h

theorem bind {x : Except ε α} {g : α → Except ε β} (hx : FailsOnly allowed x)
    (hg : ∀ a, x = .ok a → FailsOnly allowed (g a)) : FailsOnly allowed (x >>= g) := by
  cases x with
  | error f => exact error (hx f rfl)
  | ok a => exact hg a rfl

theorem mono {x : Except ε α} (hx : FailsOnly allowed x) (h : ∀ f, allowed f → allowed' f) :
    FailsOnly allowed' x := by
  intro f hf
  exact h f (hx f hf)

end FailsOnly

end ChainFold
