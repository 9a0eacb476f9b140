/-!
# Results of calls that may panic

A Rust call returns a value, returns an error, or panics.  `Outcome` keeps the three apart.
-/

namespace SCMessenger

/-- The result of a call that may also panic. -/
inductive Outcome (ε α : Type) where
  | ok (a : α)
  | err (e : ε)
  | panicked
deriving DecidableEq

namespace Outcome

variable {ε α β : Type}

def ofExcept : Except ε α → Outcome ε α
  | .ok a => .ok a
  | .error e => .err e

def map (f : α → β) : Outcome ε α → Outcome ε β
  | .ok a => .ok (f a)
  | .err e => .err e
  | .panicked => .panicked

def bind (x : Outcome ε α) (f : α → Outcome ε β) : Outcome ε β :=
  match x with
  | .ok a => f a
  | .err e => .err e
  | .panicked => .panicked

def isErr : Outcome ε α → Bool
  | .err _ => true
  | _ => false

theorem ofExcept_eq_ok {x : Except ε α} {a : α} : ofExcept x = .ok a ↔ x = .ok a := by
  cases x with
  | ok b => simp [ofExcept]
  | error e => simp [ofExcept]

@[simp] theorem ok_bind (a : α) (f : α → Outcome ε β) : (ok a).bind f = f a := rfl

variable {x : Outcome ε α}

theorem bind_congr {f g : α → Outcome ε β} (h : ∀ a, x = ok a → f a = g a) : x.bind f = x.bind g := by
  cases x with
  | ok a => exact h a rfl
  | err e => rfl
  | panicked => rfl

theorem bind_eq_panicked {f : α → Outcome ε β} :
    x.bind f = panicked ↔ x = panicked ∨ ∃ a, x = ok a ∧ f a = panicked := by
  cases x <;> simp [bind]

theorem bind_eq_ok {f : α → Outcome ε β} {b : β} : x.bind f = ok b ↔ ∃ a, x = ok a ∧ f a = ok b := by
  cases x <;> simp [bind]

theorem map_eq_panicked {f : α → β} : x.map f = panicked ↔ x = panicked := by
  cases x <;> simp [map]

theorem map_eq_ok {f : α → β} {b : β} : x.map f = ok b ↔ ∃ a, x = ok a ∧ f a = b := by
  cases x <;> simp [map]

end Outcome

end SCMessenger
