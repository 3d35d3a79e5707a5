import Mathlib

/-!
# `util/heap.h`: `BinaryHeap`

A binary heap stored in a vector.  The comparison is that of
`std::priority_queue`: `cmp(a, b)` says that `a` is below `b`, and `top()` is
a maximum.  `upheap` and `downheap` move a hole through the vector and place
the value held aside where the hole stops, as the source does with
`std::move`.

`root_cmp_cache_` remembers which child of the root is the larger.  It is set
by a `downheap` that left the root's children where they were, so that the
next `downheap` from the root compares with that child only.  It is reset to
`port::kMaxSizet` whenever the shape of the tree changes.  It only ever holds
a child's index or `kMaxSizet`, never `0`.  The structure keeps that as a
field: a root that picked itself would make `downheap` loop.

The comparator is an argument of each operation rather than a field.  In
`MergingIterator` it compares the current keys of child iterators, and those
keys move between calls.  `get_right` appears in the source only in an
assertion and is not modelled.
-/

namespace HapDB

/-- `port::kMaxSizet`, the largest `size_t`. -/
def kMaxSizet : ℕ := 2 ^ 64 - 1

theorem kMaxSizet_pos : 0 < kMaxSizet := by
  unfold kMaxSizet
  norm_num

/-- `BinaryHeap<T, Compare>`: the vector `data_` and `root_cmp_cache_`. -/
structure BinaryHeap (T : Type*) where
  data : List T
  rootCmpCache : ℕ
  rootCmpCache_pos : 0 < rootCmpCache

namespace BinaryHeap

variable {T : Type*} [Inhabited T] (cmp : T → T → Bool)

/-- `BinaryHeap()`. -/
def new : BinaryHeap T := ⟨[], kMaxSizet, kMaxSizet_pos⟩

def getRoot : ℕ := 0

def getParent (index : ℕ) : ℕ := (index - 1) / 2

def getLeft (index : ℕ) : ℕ := 2 * index + 1

/-- `reset_root_cmp_cache()`. -/
def resetRootCmpCache (h : BinaryHeap T) : BinaryHeap T :=
  { h with rootCmpCache := kMaxSizet, rootCmpCache_pos := kMaxSizet_pos }

/-- The loop of `upheap(index)`: while the hole is not the root and its parent
is below `v`, the parent moves down into the hole. -/
def upheapLoop (v : T) (data : List T) (index : ℕ) : List T × ℕ :=
  if index > getRoot then
    let parent := getParent index
    if !cmp data[parent]! v then (data, index)
    else upheapLoop v (data.set index data[parent]!) parent
  else (data, index)
termination_by index
decreasing_by
  simp only [getParent, getRoot, gt_iff_lt] at *
  omega

/-- `upheap(index)`: `v = data_[index]` goes where the hole stops, and the
cache is reset. -/
def upheap (h : BinaryHeap T) (index : ℕ) : BinaryHeap T :=
  let v := h.data[index]!
  let r := upheapLoop cmp v h.data index
  resetRootCmpCache { h with data := r.1.set r.2 v }

/-- The child `downheap` picks at `index`: at the root, the cached child if it
is inside the vector; otherwise the right child if the left one is below it. -/
def pickChild (cache : ℕ) (data : List T) (index : ℕ) : ℕ :=
  let leftChild := getLeft index
  let rightChild := leftChild + 1
  if index == 0 && cache < data.length then cache
  else if rightChild < data.length && cmp data[leftChild]! data[rightChild]! then rightChild
  else leftChild

/-- The picked child comes after `index`, since the cache is never the root. -/
theorem index_lt_pickChild {cache : ℕ} (hcache : 0 < cache) (data : List T) (index : ℕ) :
    index < pickChild cmp cache data index := by
  have hleft : index < getLeft index := by
    unfold getLeft
    omega
  dsimp only [pickChild]
  by_cases hroot : (index == 0 && decide (cache < data.length)) = true
  · rw [if_pos hroot]
    simp only [Bool.and_eq_true, beq_iff_eq, decide_eq_true_eq] at hroot
    omega
  · rw [if_neg hroot]
    -- either child comes after its parent
    split
    · omega
    · exact hleft

/-- The loop of `downheap(index)`, with the `picked_child` of the round
before: the hole moves down to the picked child while `v` is below it. -/
def downheapLoop (cache : ℕ) (hcache : 0 < cache) (v : T) (data : List T)
    (index pickedChild : ℕ) : List T × ℕ × ℕ :=
  if getLeft index ≥ data.length then (data, index, pickedChild)
  else
    let pickedChild := pickChild cmp cache data index
    if !cmp v data[pickedChild]! then (data, index, pickedChild)
    else downheapLoop cache hcache v (data.set index data[pickedChild]!) pickedChild pickedChild
termination_by data.length - index
decreasing_by
  have hlt := index_lt_pickChild cmp hcache data index
  simp only [List.length_set, getLeft] at *
  omega

/-- The picked child the loop returns is never the root. -/
theorem downheapLoop_pickedChild_pos (cache : ℕ) (hcache : 0 < cache) (v : T) (data : List T)
    (index pickedChild : ℕ) (hpicked : 0 < pickedChild) :
    0 < (downheapLoop cmp cache hcache v data index pickedChild).2.2 := by
  fun_induction downheapLoop cmp cache hcache v data index pickedChild with
  | case1 => exact hpicked
  | case2 data index => exact Nat.lt_of_le_of_lt (Nat.zero_le _) (index_lt_pickChild cmp hcache data index)
  | case3 data index _ _ _ _ ih =>
    exact ih (Nat.lt_of_le_of_lt (Nat.zero_le _) (index_lt_pickChild cmp hcache data index))

/-- `downheap(index)`: `v = data_[index]` goes where the hole stops.  The
cache keeps the picked child if the hole stayed at the root, and is reset
otherwise. -/
def downheap (h : BinaryHeap T) (index : ℕ) : BinaryHeap T :=
  let v := h.data[index]!
  let r := downheapLoop cmp h.rootCmpCache h.rootCmpCache_pos v h.data index kMaxSizet
  if r.2.1 = 0 then
    ⟨r.1.set r.2.1 v, r.2.2,
      downheapLoop_pickedChild_pos cmp _ _ v _ index _ kMaxSizet_pos⟩
  else resetRootCmpCache { h with data := r.1.set r.2.1 v }

/-- `empty()`. -/
def empty (h : BinaryHeap T) : Bool := h.data.isEmpty

/-- `size()`. -/
def size (h : BinaryHeap T) : ℕ := h.data.length

/-- `top()`: `data_.front()`; the heap is not empty. -/
def top (h : BinaryHeap T) : T := h.data.head!

/-- `push(value)`. -/
def push (h : BinaryHeap T) (value : T) : BinaryHeap T :=
  let h := { h with data := h.data ++ [value] }
  h.upheap cmp (h.data.length - 1)

/-- `replace_top(value)`: the heap is not empty. -/
def replaceTop (h : BinaryHeap T) (value : T) : BinaryHeap T :=
  { h with data := h.data.set 0 value }.downheap cmp getRoot

/-- `pop()`: the last element moves to the front; the heap is not empty. -/
def pop (h : BinaryHeap T) : BinaryHeap T :=
  let h := { h with data := (h.data.set 0 h.data.getLast!).dropLast }
  if !h.empty then h.downheap cmp getRoot else h.resetRootCmpCache

/-- `clear()`. -/
def clear (h : BinaryHeap T) : BinaryHeap T := resetRootCmpCache { h with data := [] }

end BinaryHeap

end HapDB
