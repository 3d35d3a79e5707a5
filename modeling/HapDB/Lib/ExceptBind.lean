import Mathlib

/-!
# Peeling `Except` computations apart

A decoder written in `do` notation over `Except` is a chain of binds.  The
inversion lemmas here turn "the chain returned `.ok b`" into the value each
step returned, so that a proof can take a decoder apart with `obtain` and never
unfold its binds by hand.
-/

namespace Except

variable {ε α β : Type}

theorem bind_eq_ok_iff {x : Except ε α} {f : α → Except ε β} {b : β} :
    (x >>= f) = .ok b ↔ ∃ a, x = .ok a ∧ f a = .ok b := by
  cases x with
  | error e => simp [bind, Except.bind]
  | ok a => simp [bind, Except.bind]

theorem pure_eq_ok_iff {a b : α} : (pure a : Except ε α) = .ok b ↔ a = b := by
  simp [pure, Except.pure]

@[simp] theorem bind_ok (a : α) (f : α → Except ε β) : ((Except.ok a : Except ε α) >>= f) = f a :=
  rfl

end Except
