import ProtoTypings.Error

/-!
# Outcomes

What comes of a computation that may fail and that need not come to an end.
-/

namespace ProtoTypings

inductive Outcome (α : Type) where
  | ok (a : α)
  | error (e : Error)
  /-- The computation goes on for ever, so that nothing comes of it. -/
  | endless
  deriving DecidableEq

namespace Outcome

variable {α β : Type}

/-- What comes of a computation that always ends. -/
def ofExcept : Except Error α → Outcome α
  | .ok a => .ok a
  | .error e => .error e

def map (f : α → β) : Outcome α → Outcome β
  | ok a => ok (f a)
  | error e => error e
  | endless => endless

/-- Nothing follows an error or what never ends. -/
protected def bind : Outcome α → (α → Outcome β) → Outcome β
  | ok a, f => f a
  | error e, _ => error e
  | endless, _ => endless

instance : Monad Outcome where
  pure := ok
  bind := Outcome.bind

/-! ## Results of steps -/

theorem map_id (x : Outcome α) : x.map id = x := by
  cases x <;> rfl

theorem map_eq_ok_iff {f : α → β} {x : Outcome α} {b : β} :
    x.map f = ok b ↔ ∃ a, x = ok a ∧ f a = b := by
  cases x <;> simp [map]

theorem map_eq_error_iff {f : α → β} {x : Outcome α} {e : Error} :
    x.map f = error e ↔ x = error e := by
  cases x <;> simp [map]

theorem map_eq_endless_iff {f : α → β} {x : Outcome α} : x.map f = endless ↔ x = endless := by
  cases x <;> simp [map]

theorem bind_eq_ok_iff {x : Outcome α} {f : α → Outcome β} {b : β} :
    (x >>= f) = ok b ↔ ∃ a, x = ok a ∧ f a = ok b := by
  cases x <;> simp [bind, Outcome.bind]

theorem bind_eq_error_iff {x : Outcome α} {f : α → Outcome β} {e : Error} :
    (x >>= f) = error e ↔ x = error e ∨ ∃ a, x = ok a ∧ f a = error e := by
  cases x <;> simp [bind, Outcome.bind]

theorem bind_eq_endless_iff {x : Outcome α} {f : α → Outcome β} :
    (x >>= f) = endless ↔ x = endless ∨ ∃ a, x = ok a ∧ f a = endless := by
  cases x <;> simp [bind, Outcome.bind]

theorem pure_eq_ok_iff {a b : α} : (pure a : Outcome α) = ok b ↔ b = a := by
  simp [pure, eq_comm]

end Outcome

end ProtoTypings
