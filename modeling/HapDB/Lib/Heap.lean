import Mathlib

/-!
# A heap of objects behind raw pointers

Objects created with `new` and destroyed with `delete`, reached through raw
pointers.  An address is handed out once (the allocator never reuses one), and
`free` does not erase the object: it marks the cell dead and leaves its last
contents in place.  A pointer kept past the `delete` thus still reads the old
contents, which is what a read through a dangling pointer returns as long as
the memory has not been reused, and `live` tells such a read from a legitimate
one.

The lemmas are the frame rules of the four operations: what `read` and `live`
return at the address an operation touched, and that every other address is
unchanged.
-/

/-- A heap cell: the object and whether it is still allocated. -/
structure Heap.Cell (α : Type*) where
  val : α
  live : Bool

/-- The cells by address; every address from `next` on is unused. -/
structure Heap (α : Type*) where
  cells : ℕ → Option (Heap.Cell α)
  next : ℕ
  fresh : ∀ a, next ≤ a → cells a = none

namespace Heap

variable {α : Type*}

/-- No object allocated yet.  Address `0` is the null pointer and is never handed out. -/
def empty : Heap α := ⟨fun _ => none, 1, fun _ _ => rfl⟩

/-- `new`: the object at a fresh address. -/
def alloc (h : Heap α) (x : α) : ℕ × Heap α :=
  (h.next, { cells := Function.update h.cells h.next (some ⟨x, true⟩)
             next := h.next + 1
             fresh := by
               intro a ha
               rw [Function.update_of_ne (by omega)]
               exact h.fresh a (by omega) })

/-- The object at `a`, alive or not. -/
def read (h : Heap α) (a : ℕ) : Option α := (h.cells a).map Heap.Cell.val

/-- Whether the object at `a` is allocated and not yet deleted. -/
def live (h : Heap α) (a : ℕ) : Bool := (h.cells a).any Heap.Cell.live

/-- Assignment through the pointer `a`; nothing happens at an unused address. -/
def update (h : Heap α) (a : ℕ) (f : α → α) : Heap α where
  cells := Function.update h.cells a ((h.cells a).map fun c => ⟨f c.val, c.live⟩)
  next := h.next
  fresh := by
    intro b hb
    by_cases hab : b = a
    · subst hab
      simp [h.fresh b hb]
    · rw [Function.update_of_ne hab]
      exact h.fresh b hb

/-- `delete a`: the object is dead, its contents stay. -/
def free (h : Heap α) (a : ℕ) : Heap α where
  cells := Function.update h.cells a ((h.cells a).map fun c => ⟨c.val, false⟩)
  next := h.next
  fresh := by
    intro b hb
    by_cases hab : b = a
    · subst hab
      simp [h.fresh b hb]
    · rw [Function.update_of_ne hab]
      exact h.fresh b hb

/-! ## Frame rules -/

@[simp] theorem read_alloc (h : Heap α) (x : α) (b : ℕ) :
    (h.alloc x).2.read b = if b = h.next then some x else h.read b := by
  by_cases hb : b = h.next
  · subst hb
    simp [alloc, read]
  · simp [alloc, read, hb]

@[simp] theorem live_alloc (h : Heap α) (x : α) (b : ℕ) :
    (h.alloc x).2.live b = if b = h.next then true else h.live b := by
  by_cases hb : b = h.next
  · subst hb
    simp [alloc, live]
  · simp [alloc, live, hb]

@[simp] theorem alloc_fst (h : Heap α) (x : α) : (h.alloc x).1 = h.next := rfl

@[simp] theorem read_update (h : Heap α) (a : ℕ) (f : α → α) (b : ℕ) :
    (h.update a f).read b = if b = a then (h.read a).map f else h.read b := by
  by_cases hb : b = a
  · subst hb
    simp only [read, update, Function.update_self, if_true, Option.map_map]
    rfl
  · simp [read, update, hb]

@[simp] theorem live_update (h : Heap α) (a : ℕ) (f : α → α) (b : ℕ) :
    (h.update a f).live b = h.live b := by
  by_cases hb : b = a
  · subst hb
    simp only [live, update, Function.update_self]
    cases h.cells b <;> rfl
  · simp [live, update, Function.update_of_ne hb]

@[simp] theorem read_free (h : Heap α) (a : ℕ) (b : ℕ) : (h.free a).read b = h.read b := by
  by_cases hb : b = a
  · subst hb
    simp only [read, free, Function.update_self, Option.map_map]
    rfl
  · simp [read, free, Function.update_of_ne hb]

@[simp] theorem live_free (h : Heap α) (a : ℕ) (b : ℕ) :
    (h.free a).live b = if b = a then false else h.live b := by
  by_cases hb : b = a
  · subst hb
    simp only [live, free, Function.update_self, if_true]
    cases h.cells b <;> rfl
  · simp [live, free, hb]

theorem read_of_live {h : Heap α} {a : ℕ} (hlive : h.live a) : (h.read a).isSome := by
  simp only [live] at hlive
  simp only [read]
  cases hc : h.cells a with
  | none => simp [hc] at hlive
  | some c => rfl

theorem not_live_next (h : Heap α) : h.live h.next = false := by
  simp [live, h.fresh h.next le_rfl]

end Heap
