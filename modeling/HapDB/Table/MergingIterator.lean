import HapDB.Lib.Cursor
import HapDB.Util.BinaryHeap

/-!
# `table/merging_iterator.cc`: `MergingIterator`

A merging iterator walks the union of its children in key order.  Going
forward it keeps the valid children in `minHeap_`, whose top is a child with
the smallest key; going backward it keeps them in `maxHeap_`, which is created
the first time the iterator turns back.  `current_` is the child the iterator
stands on, the top of the heap of its direction.  `Next` and `Prev` step the
current child and give it back to the heap with `replace_top`, or `pop` it
when it ran out.  Turning around (`SwitchToForward`, and the first half of
`Prev`) moves every other child to the first key past `key()` in the new
direction and rebuilds the heap.

A child is modelled by what an iterator over a sorted list does, a `Cursor`;
`IteratorWrapper`, which caches a child's `Valid()` and `key()`, then reads
the cursor itself.  A child is named by its index in `children_`, where the
source holds a pointer into it.  The heaps compare children by their current
keys, so their comparators are functions of the children (`minCmp`,
`maxCmp`), applied to the children as they are at each call.

Left out: the children's `status()` and `considerStatus` (a cursor does not
fail), `AddIterator` with `MergeIteratorBuilder`, `NewMergingIterator`'s
cases of zero and one child, the perf counters and the arena.
-/

namespace HapDB

/-- `MergingIterator::Direction`. -/
inductive Direction where
  | kForward
  | kReverse
  deriving DecidableEq, Repr

/-- The fields of `MergingIterator` that its operations read. -/
structure MergingIterator (κ ν : Type*) where
  children : List (Cursor κ ν)
  current : Option ℕ
  direction : Direction
  minHeap : BinaryHeap ℕ
  maxHeap : Option (BinaryHeap ℕ)
  prefixSeekMode : Bool

namespace MergingIterator

variable {κ ν : Type*} [Inhabited κ] [Inhabited ν] (cmp : κ → κ → Ordering)

/-- The child at index `j` of `children`. -/
def childAt (children : List (Cursor κ ν)) (j : ℕ) : Cursor κ ν := children.getD j default

/-- The heaps' comparison of two children: `a` is below `b` when comparing
their keys gives `o`. -/
def keyCmp (o : Ordering) (children : List (Cursor κ ν)) (a b : ℕ) : Bool :=
  cmp (childAt children a).key (childAt children b).key == o

/-- `MinIteratorComparator`: `Compare(a->key(), b->key()) > 0`, so the top has the smallest key. -/
def minCmp : List (Cursor κ ν) → ℕ → ℕ → Bool := keyCmp cmp .gt

/-- `MaxIteratorComparator`: `Compare(a->key(), b->key()) < 0`. -/
def maxCmp : List (Cursor κ ν) → ℕ → ℕ → Bool := keyCmp cmp .lt

variable {cmp}

/-- `Valid()`; the status is always OK. -/
def Valid (it : MergingIterator κ ν) : Bool := it.current.isSome

/-- `key()`: the current child's key. -/
def key (it : MergingIterator κ ν) : κ := (childAt it.children (it.current.getD 0)).key

/-- `value()`. -/
def value (it : MergingIterator κ ν) : ν := (childAt it.children (it.current.getD 0)).value

/-- `CurrentForward()`. -/
def CurrentForward (it : MergingIterator κ ν) : Option ℕ :=
  if it.minHeap.empty then none else some it.minHeap.top

/-- `CurrentReverse()`. -/
def CurrentReverse (it : MergingIterator κ ν) : Option ℕ :=
  match it.maxHeap with
  | some h => if h.empty then none else some h.top
  -- unreachable: `assert(maxHeap_)`
  | none => none

/-- `ClearHeaps()`. -/
def ClearHeaps (it : MergingIterator κ ν) : MergingIterator κ ν :=
  { it with minHeap := it.minHeap.clear, maxHeap := it.maxHeap.map BinaryHeap.clear }

/-- `InitMaxHeap()`. -/
def InitMaxHeap (it : MergingIterator κ ν) : MergingIterator κ ν :=
  if it.maxHeap.isNone then { it with maxHeap := some BinaryHeap.new } else it

variable (cmp)

/-- `minHeap_.push(&child)` going forward, `maxHeap_->push(&child)` going back. -/
def pushChild (forward : Bool) (it : MergingIterator κ ν) (j : ℕ) : MergingIterator κ ν :=
  if forward then { it with minHeap := it.minHeap.push (minCmp cmp it.children) j }
  else { it with maxHeap := it.maxHeap.map fun h => h.push (maxCmp cmp it.children) j }

/-- One turn of the loops `for (auto& child : children_)` that move every
child and push the valid ones onto the heap of the direction: `move j` is what
the loop does to the child at index `j`. -/
def repositionStep (forward : Bool) (move : ℕ → Cursor κ ν → Cursor κ ν) (it : MergingIterator κ ν)
    (j : ℕ) : MergingIterator κ ν :=
  let it := { it with children := it.children.modify j (move j) }
  if (childAt it.children j).valid then it.pushChild cmp forward j else it

/-- The loops over `children_`. -/
def repositionChildren (forward : Bool) (move : ℕ → Cursor κ ν → Cursor κ ν)
    (it : MergingIterator κ ν) : MergingIterator κ ν :=
  (List.range it.children.length).foldl (repositionStep cmp forward move) it

/-- The constructor: the children are pushed onto the min-heap where they stand. -/
def new (children : List (Cursor κ ν)) (prefixSeekMode : Bool) : MergingIterator κ ν :=
  let it : MergingIterator κ ν := ⟨children, none, .kForward, BinaryHeap.new, none, prefixSeekMode⟩
  let it := repositionChildren cmp true (fun _ c => c) it
  { it with current := it.CurrentForward }

/-- `SeekToFirst` and `Seek` going forward, `SeekToLast` and `SeekForPrev`
going back: every child makes the same move, and the heap of the direction is
rebuilt. -/
def seekChildren (forward : Bool) (move : Cursor κ ν → Cursor κ ν) (it : MergingIterator κ ν) :
    MergingIterator κ ν :=
  if forward then
    let it := repositionChildren cmp true (fun _ => move) it.ClearHeaps
    { it with direction := .kForward, current := it.CurrentForward }
  else
    let it := repositionChildren cmp false (fun _ => move) it.ClearHeaps.InitMaxHeap
    { it with direction := .kReverse, current := it.CurrentReverse }

def SeekToFirst : MergingIterator κ ν → MergingIterator κ ν := seekChildren cmp true Cursor.seekToFirst

def SeekToLast : MergingIterator κ ν → MergingIterator κ ν := seekChildren cmp false Cursor.seekToLast

def Seek (it : MergingIterator κ ν) (target : κ) : MergingIterator κ ν :=
  seekChildren cmp true (fun c => c.seek cmp target) it

def SeekForPrev (it : MergingIterator κ ν) (target : κ) : MergingIterator κ ν :=
  seekChildren cmp false (fun c => c.seekForPrev cmp target) it

/-- What turning around does to the child at index `j`: unless it is the
current one, it goes to the first key not before `target` in the new
direction, and steps past `target` itself. -/
def turnChild (forward : Bool) (target : κ) (current : Option ℕ) (j : ℕ) (c : Cursor κ ν) :
    Cursor κ ν :=
  if some j = current then c
  else
    let c := if forward then c.seek cmp target else c.seekForPrev cmp target
    if c.valid && cmp target c.key == .eq then (if forward then c.next else c.prev) else c

/-- The loop that turns the iterator around, in `SwitchToForward` and in the
first half of `Prev`, past `key()`. -/
def turnAround (forward : Bool) (it : MergingIterator κ ν) : MergingIterator κ ν :=
  repositionChildren cmp forward (turnChild cmp forward it.key it.current)
    (if forward then it.ClearHeaps else it.ClearHeaps.InitMaxHeap)

/-- `SwitchToForward()`. -/
def SwitchToForward (it : MergingIterator κ ν) : MergingIterator κ ν :=
  { turnAround cmp true it with direction := .kForward }

/-- `Next()`: the iterator is valid. -/
def Next (it : MergingIterator κ ν) : MergingIterator κ ν :=
  let it := if it.direction ≠ .kForward then it.SwitchToForward cmp else it
  match it.current with
  -- unreachable: `assert(Valid())`
  | none => it
  | some i =>
    let it := { it with children := it.children.modify i Cursor.next }
    let it :=
      if (childAt it.children i).valid then
        { it with minHeap := it.minHeap.replaceTop (minCmp cmp it.children) i }
      else { it with minHeap := it.minHeap.pop (minCmp cmp it.children) }
    { it with current := it.CurrentForward }

/-- The first half of `Prev()` when the iterator was going forward, the
mirror of `SwitchToForward`.  In prefix seek mode `current_` is kept. -/
def SwitchToReverse (it : MergingIterator κ ν) : MergingIterator κ ν :=
  let it := { turnAround cmp false it with direction := .kReverse }
  if !it.prefixSeekMode then { it with current := it.CurrentReverse } else it

/-- `Prev()`: the iterator is valid. -/
def Prev (it : MergingIterator κ ν) : MergingIterator κ ν :=
  let it := if it.direction ≠ .kReverse then it.SwitchToReverse cmp else it
  match it.current with
  -- unreachable: `assert(Valid())`
  | none => it
  | some i =>
    let it := { it with children := it.children.modify i Cursor.prev }
    let it :=
      if (childAt it.children i).valid then
        { it with maxHeap := it.maxHeap.map fun h : BinaryHeap ℕ => h.replaceTop (maxCmp cmp it.children) i }
      else { it with maxHeap := it.maxHeap.map fun h : BinaryHeap ℕ => h.pop (maxCmp cmp it.children) }
    { it with current := it.CurrentReverse }

/-- One positioning call. -/
def apply (it : MergingIterator κ ν) : IterOp κ → MergingIterator κ ν
  | .seekToFirst => it.SeekToFirst cmp
  | .seekToLast => it.SeekToLast cmp
  | .seek t => it.Seek cmp t
  | .seekForPrev t => it.SeekForPrev cmp t
  | .next => it.Next cmp
  | .prev => it.Prev cmp

/-- The iterator after a sequence of positioning calls. -/
def run (it : MergingIterator κ ν) (ops : List (IterOp κ)) : MergingIterator κ ν :=
  ops.foldl (apply cmp) it

end MergingIterator

end HapDB
