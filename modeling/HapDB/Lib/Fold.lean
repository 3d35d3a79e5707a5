import Mathlib.Logic.Relation

/-!
# Loops over a list, step by step

A loop over the elements of a list is a left fold.  The rule here is the
induction every proof about such a loop repeats: when each round relates its
state to the next by a reflexive and transitive relation, the loop relates its
first state to its last.
-/

namespace Fold

variable {α β : Type*}

theorem foldl_of_step {R : α → α → Prop} (refl : ∀ a, R a a)
    (trans : ∀ {a b c}, R a b → R b c → R a c) {f : α → β → α} (step : ∀ a b, R a (f a b))
    (l : List β) (a : α) : R a (l.foldl f a) := by
  induction l generalizing a with
  | nil => exact refl a
  | cons b l ih => exact trans (step a b) (ih (f a b))

end Fold
