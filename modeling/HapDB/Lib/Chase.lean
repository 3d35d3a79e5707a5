import Mathlib.Logic.Relation
import Mathlib.Data.Nat.Notation

/-!
# Following a chain of links until it stops

A loop of the form

```text
while (true) { next = step(node); if (!next) break; node = next; }
```

walks a graph along a partial successor function and returns the node where the
successor is undefined.  Nothing bounds the number of rounds in general (a
cycle in the graph keeps it running forever), so `chase` takes fuel and answers
`none` when the fuel runs out before the walk stops.

The facts a caller needs are the ones proved here:

* fuel beyond what the walk needs changes nothing (`chase_add`), so a result,
  once reached, is the result for every larger budget;
* a rank that every link lowers bounds the fuel the walk needs
  (`chase_isSome_of_rank`);
* the node returned is a stop of `next` reachable from the start
  (`chase_stops`, `chase_reaches`);
* two successor functions that agree on every node reachable from the start
  give the same walk (`chase_congr`): this is the frame rule, used to show that
  links added where the walk never looks leave it unchanged.
-/

namespace Chase

variable {α : Type*}

/-- Follow `next` from `a` for at most `fuel` rounds; the node where `next` is
undefined, or `none` if the fuel runs out first. -/
def chase (next : α → Option α) : ℕ → α → Option α
  | 0, _ => none
  | fuel + 1, a =>
      match next a with
      | some b => chase next fuel b
      | none => some a

variable {next : α → Option α}

/-- One link of the chain. -/
def Link (next : α → Option α) (a b : α) : Prop := next a = some b

@[simp] theorem chase_zero (a : α) : chase next 0 a = none := rfl

theorem chase_succ_of_next {a b : α} (h : next a = some b) (fuel : ℕ) :
    chase next (fuel + 1) a = chase next fuel b := by
  simp [chase, h]

theorem chase_succ_of_stop {a : α} (h : next a = none) (fuel : ℕ) :
    chase next (fuel + 1) a = some a := by
  simp [chase, h]

/-- A walk that stopped within its fuel stops the same way with more. -/
theorem chase_add {fuel : ℕ} {a r : α} (h : chase next fuel a = some r) (extra : ℕ) :
    chase next (fuel + extra) a = some r := by
  induction fuel generalizing a with
  | zero => simp at h
  | succ fuel ih =>
      cases hnext : next a with
      | none =>
          rw [chase_succ_of_stop hnext] at h
          rw [Nat.add_right_comm, chase_succ_of_stop hnext, h]
      | some b =>
          rw [chase_succ_of_next hnext] at h
          rw [Nat.add_right_comm, chase_succ_of_next hnext]
          exact ih h

theorem chase_mono {fuel fuel' : ℕ} (hle : fuel ≤ fuel') {a r : α}
    (h : chase next fuel a = some r) : chase next fuel' a = some r := by
  obtain ⟨extra, rfl⟩ := Nat.exists_eq_add_of_le hle
  exact chase_add h extra

/-- A rank that every link lowers bounds the walk: fuel above the start's rank
is enough for it to stop. -/
theorem chase_isSome_of_rank (rank : α → ℕ) (hrank : ∀ a b, next a = some b → rank b < rank a)
    {fuel : ℕ} {a : α} (hfuel : rank a < fuel) : (chase next fuel a).isSome := by
  induction fuel generalizing a with
  | zero => omega
  | succ fuel ih =>
      cases hnext : next a with
      | none => simp [chase_succ_of_stop hnext]
      | some b =>
          rw [chase_succ_of_next hnext]
          have hlt := hrank a b hnext
          exact ih (by omega)

/-- The walk ends where `next` is undefined. -/
theorem chase_stops {fuel : ℕ} {a r : α} (h : chase next fuel a = some r) : next r = none := by
  induction fuel generalizing a with
  | zero => simp at h
  | succ fuel ih =>
      cases hnext : next a with
      | none =>
          rw [chase_succ_of_stop hnext, Option.some_inj] at h
          exact h ▸ hnext
      | some b =>
          rw [chase_succ_of_next hnext] at h
          exact ih h

/-- The walk ends at a node reachable from its start. -/
theorem chase_reaches {fuel : ℕ} {a r : α} (h : chase next fuel a = some r) :
    Relation.ReflTransGen (Link next) a r := by
  induction fuel generalizing a with
  | zero => simp at h
  | succ fuel ih =>
      cases hnext : next a with
      | none =>
          rw [chase_succ_of_stop hnext, Option.some_inj] at h
          exact h ▸ Relation.ReflTransGen.refl
      | some b =>
          rw [chase_succ_of_next hnext] at h
          exact Relation.ReflTransGen.head hnext (ih h)

/-- The frame rule: the walk reads `next` only at nodes it can reach. -/
theorem chase_congr {next' : α → Option α} {a : α}
    (hagree : ∀ b, Relation.ReflTransGen (Link next) a b → next' b = next b) (fuel : ℕ) :
    chase next' fuel a = chase next fuel a := by
  induction fuel generalizing a with
  | zero => rfl
  | succ fuel ih =>
      have hself : next' a = next a := hagree a Relation.ReflTransGen.refl
      cases hnext : next a with
      | none => rw [chase_succ_of_stop hnext, chase_succ_of_stop (hself.trans hnext)]
      | some b =>
          rw [chase_succ_of_next hnext, chase_succ_of_next (hself.trans hnext)]
          exact ih fun c hc => hagree c (Relation.ReflTransGen.head hnext hc)

end Chase
