import Mathlib.Data.List.Basic
import Mathlib.Data.Nat.Notation

/-!
# A growable array and the pointers taken into it

A `std::vector` keeps its elements in one block of storage, with room for
`capacity` of them.  Appending to a full vector moves every element into a new
block and frees the old one; a pointer taken into the old block still points
there.  Writing through it changes freed storage, not the vector, and reading
through it returns whatever the freed block holds.

`GrowVec α` keeps every block the vector has used: the current one, which is
the vector, and the freed ones in the order they were given up, which are
never changed except through old pointers.  A pointer names a block by its
position in that history and an element by its index; it is *live* when it
names the current block and an element of it.  Freed blocks keep their last
contents, as a freed block does until it is reused.

* `emplaceBack` into a vector with room keeps every live pointer live
  (`live_emplaceBack_of_lt`); into a full one it leaves no old pointer live
  (`not_live_emplaceBack_of_full`).  Its `back` pointer is live
  (`live_back_emplaceBack`).
* `reserve n` moves the vector when `n` exceeds the capacity.
* A write through a pointer that does not name the current block leaves the
  vector as it was (`current_write_of_stale`).
* `map f` applies `f` to every block; it commutes with the operations
  (`map_emplaceBack`, `map_reserve`, `map_write`), and a pointer reads the same
  through it (`read_map`), so a fact about one view of the elements, such as
  their file numbers, is carried by the view alone.
-/

/-- A growable array: the current block of storage, its capacity, and the
blocks given up before it, oldest first. -/
@[ext] structure GrowVec (α : Type*) where
  current : List α
  capacity : ℕ
  freed : List (List α)
  length_le : current.length ≤ capacity

namespace GrowVec

variable {α : Type*}

/-- A pointer into a growable array: the block, by its place in the history,
and the index of the element in it. -/
structure Ptr where
  block : ℕ
  index : ℕ
  deriving DecidableEq, Repr

/-- A vector holding `l`, in a block with exactly enough room. -/
def ofList (l : List α) : GrowVec α := ⟨l, l.length, [], Nat.le_refl _⟩

/-- The place of the current block in the history. -/
def epoch (v : GrowVec α) : ℕ := v.freed.length

/-- The block a pointer names. -/
def block (v : GrowVec α) (b : ℕ) : List α :=
  if b = v.epoch then v.current else v.freed.getD b []

/-- The pointer names an element of the vector itself. -/
def live (v : GrowVec α) (p : Ptr) : Bool := p.block == v.epoch && p.index < v.current.length

/-- `*p`: what the block the pointer names holds at its index. -/
def read (v : GrowVec α) (p : Ptr) : Option α := (v.block p.block)[p.index]?

/-- `p->field = ...`: a change of the element the pointer names, in whichever
block it names. -/
def write (v : GrowVec α) (p : Ptr) (f : α → α) : GrowVec α :=
  if p.block = v.epoch then
    ⟨v.current.modify p.index f, v.capacity, v.freed, by simpa using v.length_le⟩
  else ⟨v.current, v.capacity, v.freed.modify p.block (·.modify p.index f), v.length_le⟩

/-- `reserve(n)`: a larger block when `n` exceeds the capacity. -/
def reserve (v : GrowVec α) (n : ℕ) : GrowVec α :=
  if h : n ≤ v.capacity then v
  else ⟨v.current, n, v.freed ++ [v.current], by have := v.length_le; omega⟩

/-- `emplace_back(a)`: appended in place when there is room; otherwise every
element moves to a block of twice the size (at least one), as libstdc++ grows
its vectors. -/
def emplaceBack (v : GrowVec α) (a : α) : GrowVec α :=
  if h : v.current.length < v.capacity then
    ⟨v.current ++ [a], v.capacity, v.freed, by simpa using Nat.succ_le_of_lt h⟩
  else
    ⟨v.current ++ [a], v.capacity + max v.capacity 1, v.freed ++ [v.current], by
      have := v.length_le
      simp only [List.length_append, List.length_singleton]
      omega⟩

/-- `&v.back()`. -/
def back (v : GrowVec α) : Ptr := ⟨v.epoch, v.current.length - 1⟩

@[simp] theorem current_emplaceBack (v : GrowVec α) (a : α) :
    (v.emplaceBack a).current = v.current ++ [a] := by
  unfold emplaceBack
  split <;> rfl

@[simp] theorem current_reserve (v : GrowVec α) (n : ℕ) : (v.reserve n).current = v.current := by
  unfold reserve
  split <;> rfl

theorem capacity_emplaceBack_of_lt {v : GrowVec α} (hroom : v.current.length < v.capacity)
    (a : α) : (v.emplaceBack a).capacity = v.capacity := by
  simp [emplaceBack, hroom]

theorem live_emplaceBack_of_lt {v : GrowVec α} {p : Ptr} (hlive : v.live p = true)
    (hroom : v.current.length < v.capacity) (a : α) : (v.emplaceBack a).live p = true := by
  simp only [live, Bool.and_eq_true, beq_iff_eq, decide_eq_true_eq] at hlive ⊢
  simp only [emplaceBack, dif_pos hroom, epoch, List.length_append, List.length_singleton]
  exact ⟨hlive.1, by omega⟩

/-- Appending to a full vector moves it: no pointer into its block stays live. -/
theorem not_live_emplaceBack_of_full {v : GrowVec α} (hfull : v.capacity ≤ v.current.length)
    (a : α) {p : Ptr} (hp : p.block = v.epoch) : (v.emplaceBack a).live p = false := by
  simp only [live, emplaceBack, dif_neg (Nat.not_lt.mpr hfull), epoch, List.length_append,
    List.length_singleton, hp, Bool.and_eq_false_iff, beq_eq_false_iff_ne]
  exact Or.inl (by omega)

theorem live_back_emplaceBack (v : GrowVec α) (a : α) :
    (v.emplaceBack a).live (v.emplaceBack a).back = true := by
  simp [live, back]

theorem read_back_emplaceBack (v : GrowVec α) (a : α) :
    (v.emplaceBack a).read (v.emplaceBack a).back = some a := by
  simp [read, back, block]

/-- A write through a pointer that does not name the current block leaves the
vector as it was. -/
theorem current_write_of_stale {v : GrowVec α} {p : Ptr} (hp : p.block ≠ v.epoch) (f : α → α) :
    (v.write p f).current = v.current := by
  simp [write, hp]

theorem current_write_of_live {v : GrowVec α} {p : Ptr} (hp : p.block = v.epoch) (f : α → α) :
    (v.write p f).current = v.current.modify p.index f := by
  simp [write, hp]

@[simp] theorem epoch_write (v : GrowVec α) (p : Ptr) (f : α → α) :
    (v.write p f).epoch = v.epoch := by
  unfold write epoch
  split <;> simp

@[simp] theorem capacity_write (v : GrowVec α) (p : Ptr) (f : α → α) :
    (v.write p f).capacity = v.capacity := by
  unfold write
  split <;> rfl

@[simp] theorem length_current_write (v : GrowVec α) (p : Ptr) (f : α → α) :
    (v.write p f).current.length = v.current.length := by
  unfold write
  split <;> simp

theorem live_write {v : GrowVec α} {p q : Ptr} (f : α → α) : (v.write q f).live p = v.live p := by
  simp [live]

/-! ## One view of the elements -/

variable {β : Type*}

/-- The vector with `f` applied to every element of every block. -/
def map (f : α → β) (v : GrowVec α) : GrowVec β :=
  ⟨v.current.map f, v.capacity, v.freed.map (·.map f), by simpa using v.length_le⟩

@[simp] theorem current_map (f : α → β) (v : GrowVec α) : (v.map f).current = v.current.map f :=
  rfl

@[simp] theorem capacity_map (f : α → β) (v : GrowVec α) : (v.map f).capacity = v.capacity := rfl

@[simp] theorem epoch_map (f : α → β) (v : GrowVec α) : (v.map f).epoch = v.epoch := by
  simp [map, epoch]

@[simp] theorem back_map (f : α → β) (v : GrowVec α) : (v.map f).back = v.back := by
  simp [back]

@[simp] theorem live_map (f : α → β) (v : GrowVec α) (p : Ptr) : (v.map f).live p = v.live p := by
  simp [live]

theorem block_map (f : α → β) (v : GrowVec α) (b : ℕ) : (v.map f).block b = (v.block b).map f := by
  by_cases hb : b = v.epoch
  · simp [block, hb]
  · rw [block, block, epoch_map, if_neg hb, if_neg hb]
    simp only [map, List.getD_eq_getElem?_getD, List.getElem?_map]
    cases v.freed[b]? <;> rfl

@[simp] theorem read_map (f : α → β) (v : GrowVec α) (p : Ptr) :
    (v.map f).read p = (v.read p).map f := by
  simp [read, block_map]

theorem map_emplaceBack (f : α → β) (v : GrowVec α) (a : α) :
    (v.emplaceBack a).map f = (v.map f).emplaceBack (f a) := by
  unfold emplaceBack
  by_cases h : v.current.length < v.capacity
  · simp [h, map]
  · simp [h, map]

theorem map_reserve (f : α → β) (v : GrowVec α) (n : ℕ) :
    (v.reserve n).map f = (v.map f).reserve n := by
  unfold reserve
  by_cases h : n ≤ v.capacity
  · simp [h, map]
  · simp [h, map]

/-- `List.modify` commutes with a map that turns `g` into `g'`. -/
theorem list_map_modify {f : α → β} {g : α → α} {g' : β → β} (h : ∀ a, f (g a) = g' (f a)) :
    ∀ (l : List α) (i : ℕ), (l.modify i g).map f = (l.map f).modify i g'
  | [], _ => by simp
  | a :: l, 0 => by simp [h]
  | a :: l, i + 1 => by simp [list_map_modify h l i]

/-- A write seen through `f` is the write of what `g` does to the view. -/
theorem map_write {f : α → β} {g : α → α} {g' : β → β} (h : ∀ a, f (g a) = g' (f a))
    (v : GrowVec α) (p : Ptr) : (v.write p g).map f = (v.map f).write p g' := by
  by_cases hp : p.block = v.epoch
  · rw [write, if_pos hp, write, if_pos (by simpa using hp)]
    exact GrowVec.ext (list_map_modify h v.current p.index) rfl rfl
  · rw [write, if_neg hp, write, if_neg (by simpa using hp)]
    exact GrowVec.ext rfl rfl (list_map_modify (fun l => list_map_modify h l p.index) v.freed p.block)

/-- A write of nothing. -/
@[simp] theorem write_id (v : GrowVec α) (p : Ptr) : v.write p id = v := by
  unfold write
  split
  · exact GrowVec.ext (List.modify_id p.index v.current) rfl rfl
  · have hblock : (fun l : List α => l.modify p.index id) = id := funext (List.modify_id p.index)
    exact GrowVec.ext rfl rfl (by rw [hblock, List.modify_id])

/-- A write that `f` does not see. -/
theorem map_write_of_comp {f : α → β} {g : α → α} (h : ∀ a, f (g a) = f a) (v : GrowVec α)
    (p : Ptr) : (v.write p g).map f = v.map f := by
  rw [map_write (show ∀ a, f (g a) = id (f a) from h), write_id]

/-! ## The shape of a vector -/

/-- The blocks without their elements: what the liveness of a pointer and the
room left depend on. -/
def shape (v : GrowVec α) : GrowVec Unit := v.map fun _ => ()

theorem live_eq_of_shape_eq {v : GrowVec α} {u : GrowVec β} (h : v.shape = u.shape) (p : Ptr) :
    v.live p = u.live p := by
  rw [← live_map (fun _ => ()) v, ← live_map (fun _ => ()) u]
  exact congrArg (live · p) h

theorem length_eq_of_shape_eq {v : GrowVec α} {u : GrowVec β} (h : v.shape = u.shape) :
    v.current.length = u.current.length := by
  have := congrArg (fun w : GrowVec Unit => w.current.length) h
  simpa [shape] using this

theorem capacity_eq_of_shape_eq {v : GrowVec α} {u : GrowVec β} (h : v.shape = u.shape) :
    v.capacity = u.capacity :=
  congrArg GrowVec.capacity h

@[simp] theorem shape_write (v : GrowVec α) (p : Ptr) (f : α → α) : (v.write p f).shape = v.shape :=
  map_write_of_comp (show ∀ a, (fun _ => ()) (f a) = (fun _ => ()) a from fun _ => rfl) v p

end GrowVec
