import HapDB.Db.RangeTombstoneFragmenter

/-!
# `db/range_del_aggregator`: whether a range tombstone deletes a key

`TruncatedRangeDelIterator` is a fragment iterator cut to a file's key range
`[smallest, largest]`; the largest key is taken one sequence number lower, so
that a tombstone cut there still covers the file's own largest key, unless it
is a sentinel of a range deletion or has sequence number `0`.

A `StripeRep` holds the truncated iterators of a stripe of sequence numbers
and answers `ShouldDelete(k)` for a key `k` of the stripe: whether a fragment
over `k` has a top above `k`'s sequence number.  Between calls it keeps every
iterator where the last key left it, in a forward walk
(`ForwardRangeDelIterator`) for keys that come in increasing order, or a
reverse walk (`ReverseRangeDelIterator`) for keys that come in decreasing
order.  A walk keeps the iterators whose fragment is over the last key
(active, with their tops in a multiset ordered by sequence number) and those
still ahead of it (inactive), each in a binary heap; iterators added since the
last call are picked up by a seek to the key, and a call in the other
direction starts the walk over.

`ReadRangeDelAggregator` has one stripe, `[0, upper_bound]`;
`CompactionRangeDelAggregator` splits every tombstone list by the snapshots
and keeps one stripe per snapshot, keyed by its upper bound.

The two walks are one definition, `RangeDelWalk`, with the direction as a
parameter (`WalkDir`).  Iterators live in the stripe's list `iters_`; the heaps
hold their indices.  A heap is a list whose top is its first element that no
other element is above; the binary heap may pick another of several equal
ones, which changes nothing, since every iterator a loop pops is moved on its
own.  The loops run on fuel: a loop over a heap pops each iterator at most
once, and a loop over one iterator's fragments moves at least one fragment a
round.
-/

namespace HapDB

/-- `TruncatedRangeDelIterator`: a fragment iterator and the file's smallest and
largest keys, if any. -/
structure TruncatedRangeDelIterator where
  iter : FragmentedRangeTombstoneIterator
  smallestIkey : Option ParsedInternalKey
  largestIkey : Option ParsedInternalKey
  deriving DecidableEq, Repr

namespace TruncatedRangeDelIterator

variable (ucmp : Comparator)

/-- `smallest_`. -/
def smallest (it : TruncatedRangeDelIterator) : Option ParsedInternalKey := it.smallestIkey

/-- `largest_`: one sequence number lower, unless the key is a range deletion
sentinel at `kMaxSequenceNumber` or has sequence number `0`. -/
def largest (it : TruncatedRangeDelIterator) : Option ParsedInternalKey :=
  it.largestIkey.map fun k =>
    if k.type = .kTypeRangeDeletion && k.sequence = kMaxSequenceNumber then k
    else if k.sequence = 0 then k
    else { k with sequence := k.sequence - 1 }

/-- `Valid()`: the fragment ends after `smallest` and starts before `largest`. -/
def Valid (it : TruncatedRangeDelIterator) : Bool :=
  it.iter.Valid &&
    (match it.smallest with
      | some s => parsedInternalKeyCompare ucmp s it.iter.parsedEndKey = .lt
      | none => true) &&
    (match it.largest with
      | some l => parsedInternalKeyCompare ucmp it.iter.parsedStartKey l = .lt
      | none => true)

/-- `Next()`. -/
def Next (it : TruncatedRangeDelIterator) : TruncatedRangeDelIterator :=
  { it with iter := it.iter.TopNext }

/-- `Prev()`. -/
def Prev (it : TruncatedRangeDelIterator) : TruncatedRangeDelIterator :=
  { it with iter := it.iter.TopPrev }

/-- `Seek(target)`, for a user key. -/
def Seek (it : TruncatedRangeDelIterator) (target : Bytes) : TruncatedRangeDelIterator :=
  match it.largest with
  | some l =>
      if parsedInternalKeyCompare ucmp l ⟨target, kMaxSequenceNumber, .kTypeRangeDeletion⟩ ≠ .gt then
        { it with iter := it.iter.Invalidate }
      else seekFrom
  | none => seekFrom
where
  seekFrom : TruncatedRangeDelIterator :=
    match it.smallest with
    | some s =>
        if ucmp target s.userKey = .lt then { it with iter := it.iter.Seek ucmp s.userKey }
        else { it with iter := it.iter.Seek ucmp target }
    | none => { it with iter := it.iter.Seek ucmp target }

/-- `SeekForPrev(target)`, for a user key. -/
def SeekForPrev (it : TruncatedRangeDelIterator) (target : Bytes) : TruncatedRangeDelIterator :=
  match it.smallest with
  | some s =>
      if parsedInternalKeyCompare ucmp ⟨target, 0, .kTypeRangeDeletion⟩ s = .lt then
        { it with iter := it.iter.Invalidate }
      else seekFrom
  | none => seekFrom
where
  seekFrom : TruncatedRangeDelIterator :=
    match it.largest with
    | some l =>
        if ucmp l.userKey target = .lt then { it with iter := it.iter.SeekForPrev ucmp l.userKey }
        else { it with iter := it.iter.SeekForPrev ucmp target }
    | none => { it with iter := it.iter.SeekForPrev ucmp target }

/-- `start_key()`: the fragment's start, or `smallest` if that is later. -/
def startKey (it : TruncatedRangeDelIterator) : ParsedInternalKey :=
  match it.smallest with
  | some s => if parsedInternalKeyCompare ucmp s it.iter.parsedStartKey ≠ .gt then
      it.iter.parsedStartKey else s
  | none => it.iter.parsedStartKey

/-- `end_key()`: the fragment's end, or `largest` if that is earlier. -/
def endKey (it : TruncatedRangeDelIterator) : ParsedInternalKey :=
  match it.largest with
  | some l => if parsedInternalKeyCompare ucmp it.iter.parsedEndKey l ≠ .gt then
      it.iter.parsedEndKey else l
  | none => it.iter.parsedEndKey

/-- `seq()`. -/
def seq (it : TruncatedRangeDelIterator) : UInt64 := it.iter.seq

/-- `SplitBySnapshot(snapshots)`: the stripes of the fragment iterator, each cut
to the same file bounds. -/
def SplitBySnapshot (it : TruncatedRangeDelIterator) (snapshots : List UInt64) :
    List (UInt64 × TruncatedRangeDelIterator) :=
  (it.iter.SplitBySnapshot snapshots).map fun p => (p.1, ⟨p.2, it.smallestIkey, it.largestIkey⟩)

end TruncatedRangeDelIterator

/-- `top()` of a binary heap ordered by `less`: an element no other is above,
here the first such. -/
def heapTop? {α : Type*} (less : α → α → Bool) : List α → Option α
  | [] => none
  | x :: xs =>
      match heapTop? less xs with
      | some y => if less x y then some y else some x
      | none => some x

/-- The state of `ForwardRangeDelIterator` and `ReverseRangeDelIterator`:
`unused_idx_`, the active iterators (`active_iters_`, whose tops are
`active_seqnums_`) and the inactive ones, by index into the stripe's list. -/
structure RangeDelWalk where
  unusedIdx : ℕ
  active : List ℕ
  inactive : List ℕ
  deriving DecidableEq, Repr

/-- What tells the forward walk from the reverse one: the seek and the move,
the tests on an iterator's fragment against the key, and the comparators of
the two heaps. -/
structure WalkDir where
  /-- `AddNewIter`'s seek: `Seek` or `SeekForPrev`. -/
  seek : TruncatedRangeDelIterator → Bytes → TruncatedRangeDelIterator
  /-- One fragment on: `Next` or `Prev`. -/
  move : TruncatedRangeDelIterator → TruncatedRangeDelIterator
  /-- The fragment is behind the key: the test of the first loop and of the
  moves. -/
  passed : ParsedInternalKey → TruncatedRangeDelIterator → Bool
  /-- The fragment is still ahead of the key: the test of `PushIter`. -/
  ahead : ParsedInternalKey → TruncatedRangeDelIterator → Bool
  /-- The fragment is no longer ahead of the key: the test of the second loop. -/
  reached : ParsedInternalKey → TruncatedRangeDelIterator → Bool
  /-- The comparators of `active_iters_` and `inactive_iters_`. -/
  activeLess : TruncatedRangeDelIterator → TruncatedRangeDelIterator → Bool
  inactiveLess : TruncatedRangeDelIterator → TruncatedRangeDelIterator → Bool

/-- `ForwardRangeDelIterator`: the keys come in increasing order; the active
heap has the smallest end key on top (`EndKeyMinComparator`), the inactive one
the smallest start key (`StartKeyMinComparator`). -/
def forwardDir (ucmp : Comparator) : WalkDir where
  seek := TruncatedRangeDelIterator.Seek ucmp
  move := TruncatedRangeDelIterator.Next
  passed parsed it := parsedInternalKeyCompare ucmp (it.endKey ucmp) parsed != .gt
  ahead parsed it := parsedInternalKeyCompare ucmp parsed (it.startKey ucmp) = .lt
  reached parsed it := parsedInternalKeyCompare ucmp (it.startKey ucmp) parsed != .gt
  activeLess a b := parsedInternalKeyCompare ucmp (a.endKey ucmp) (b.endKey ucmp) = .gt
  inactiveLess a b := parsedInternalKeyCompare ucmp (a.startKey ucmp) (b.startKey ucmp) = .gt

/-- `ReverseRangeDelIterator`: the keys come in decreasing order; the active
heap has the largest start key on top (`StartKeyMaxComparator`), the inactive
one the largest end key (`EndKeyMaxComparator`). -/
def reverseDir (ucmp : Comparator) : WalkDir where
  seek := TruncatedRangeDelIterator.SeekForPrev ucmp
  move := TruncatedRangeDelIterator.Prev
  passed parsed it := parsedInternalKeyCompare ucmp parsed (it.startKey ucmp) = .lt
  ahead parsed it := parsedInternalKeyCompare ucmp (it.endKey ucmp) parsed != .gt
  reached parsed it := parsedInternalKeyCompare ucmp parsed (it.endKey ucmp) = .lt
  activeLess a b := parsedInternalKeyCompare ucmp (a.startKey ucmp) (b.startKey ucmp) = .lt
  inactiveLess a b := parsedInternalKeyCompare ucmp (a.endKey ucmp) (b.endKey ucmp) = .lt

namespace RangeDelWalk

variable (ucmp : Comparator) (d : WalkDir)

/-- The walk before any key: `Invalidate()`. -/
def Invalidate : RangeDelWalk := ⟨0, [], []⟩

/-- The iterator at an index; the stripe only hands out indices it has. -/
def at! (iters : List TruncatedRangeDelIterator) (i : ℕ) : TruncatedRangeDelIterator :=
  iters.getD i ⟨⟨[], 0, 0, 0, 0⟩, none, none⟩

/-- `PushIter(iter, parsed)`: a consumed iterator is dropped; one still ahead
of the key is inactive, the others active. -/
def PushIter (iters : List TruncatedRangeDelIterator) (w : RangeDelWalk) (i : ℕ)
    (parsed : ParsedInternalKey) : RangeDelWalk :=
  let it := at! iters i
  if !it.Valid ucmp then w
  else if d.ahead parsed it then { w with inactive := w.inactive ++ [i] }
  else { w with active := w.active ++ [i] }

/-- `AddNewIter(iter, parsed)`: seek to the key, then push. -/
def AddNewIter (iters : List TruncatedRangeDelIterator) (w : RangeDelWalk) (i : ℕ)
    (parsed : ParsedInternalKey) : List TruncatedRangeDelIterator × RangeDelWalk :=
  let iters := iters.modify i (d.seek · parsed.userKey)
  (iters, PushIter ucmp d iters w i parsed)

/-- The loop of `StripeRep::ShouldDelete` that picks up the iterators from
`unused_idx_` on. -/
def addUnused (parsed : ParsedInternalKey) :
    ℕ → List TruncatedRangeDelIterator × RangeDelWalk → List TruncatedRangeDelIterator × RangeDelWalk
  | 0, s => s
  | fuel + 1, (iters, w) =>
      if w.unusedIdx < iters.length then
        let (iters, w') := AddNewIter ucmp d iters w w.unusedIdx parsed
        addUnused parsed fuel (iters, { w' with unusedIdx := w.unusedIdx + 1 })
      else (iters, w)

/-- `while (iter->Valid() && passed) move`, on fuel. -/
def moveWhilePassed (parsed : ParsedInternalKey) :
    ℕ → TruncatedRangeDelIterator → TruncatedRangeDelIterator
  | 0, it => it
  | fuel + 1, it =>
      if it.Valid ucmp && d.passed parsed it then moveWhilePassed parsed fuel (d.move it) else it

/-- The fuel of a move loop: every round moves one fragment. -/
def moveFuel (it : TruncatedRangeDelIterator) : ℕ := it.iter.tombstones.length + 1

/-- The first loop of `ShouldDelete`: while the top active iterator has passed
the key, pop it, move it (at least once) past the key and push it again. -/
def popPassed (parsed : ParsedInternalKey) :
    ℕ → List TruncatedRangeDelIterator × RangeDelWalk → List TruncatedRangeDelIterator × RangeDelWalk
  | 0, s => s
  | fuel + 1, (iters, w) =>
      match heapTop? (fun a b => d.activeLess (at! iters a) (at! iters b)) w.active with
      | some i =>
          let it := at! iters i
          if d.passed parsed it then
            let it := moveWhilePassed ucmp d parsed (moveFuel it) (d.move it)
            let iters := iters.set i it
            popPassed parsed fuel (iters, PushIter ucmp d iters { w with active := w.active.erase i } i parsed)
          else (iters, w)
      | none => (iters, w)

/-- The second loop of `ShouldDelete`: while the top inactive iterator has
reached the key, pop it, move it past the key if it has passed it, and push it
again. -/
def popReached (parsed : ParsedInternalKey) :
    ℕ → List TruncatedRangeDelIterator × RangeDelWalk → List TruncatedRangeDelIterator × RangeDelWalk
  | 0, s => s
  | fuel + 1, (iters, w) =>
      match heapTop? (fun a b => d.inactiveLess (at! iters a) (at! iters b)) w.inactive with
      | some i =>
          let it := at! iters i
          if d.reached parsed it then
            let it := moveWhilePassed ucmp d parsed (moveFuel it) it
            let iters := iters.set i it
            popReached parsed fuel
              (iters, PushIter ucmp d iters { w with inactive := w.inactive.erase i } i parsed)
          else (iters, w)
      | none => (iters, w)

/-- `ShouldDelete(parsed)`: after the two loops, whether the largest top of
the active iterators is above the key's sequence number. -/
def ShouldDelete (iters : List TruncatedRangeDelIterator) (w : RangeDelWalk)
    (parsed : ParsedInternalKey) : Bool × List TruncatedRangeDelIterator × RangeDelWalk :=
  let (iters, w) := popPassed ucmp d parsed iters.length (iters, w)
  let (iters, w) := popReached ucmp d parsed iters.length (iters, w)
  let answer := match (w.active.map fun i => (at! iters i).seq).max? with
    | some s => decide (s > parsed.sequence)
    | none => false
  (answer, iters, w)

end RangeDelWalk

/-- `RangeDelPositioningMode`. -/
inductive RangeDelPositioningMode where
  | kForwardTraversal
  | kBackwardTraversal
  deriving DecidableEq, Repr

/-- `RangeDelAggregator::StripeRep`: the truncated iterators of the stripe
`[lower_bound, upper_bound]` and the two walks over them. -/
structure StripeRep where
  iters : List TruncatedRangeDelIterator
  forwardIter : RangeDelWalk
  reverseIter : RangeDelWalk
  upperBound : UInt64
  lowerBound : UInt64
  deriving DecidableEq, Repr

namespace StripeRep

variable (ucmp : Comparator)

/-- The constructor. -/
def create (upperBound lowerBound : UInt64) : StripeRep :=
  ⟨[], RangeDelWalk.Invalidate, RangeDelWalk.Invalidate, upperBound, lowerBound⟩

/-- `AddTombstones(input_iter)`. -/
def AddTombstones (rep : StripeRep) (it : TruncatedRangeDelIterator) : StripeRep :=
  { rep with iters := rep.iters ++ [it] }

/-- `IsEmpty()`. -/
def IsEmpty (rep : StripeRep) : Bool := rep.iters.isEmpty

/-- `InStripe(seq)`. -/
def InStripe (rep : StripeRep) (seq : UInt64) : Bool :=
  rep.lowerBound ≤ seq && seq ≤ rep.upperBound

/-- `Invalidate()`. -/
def Invalidate (rep : StripeRep) : StripeRep :=
  { rep with forwardIter := RangeDelWalk.Invalidate, reverseIter := RangeDelWalk.Invalidate }

/-- `ShouldDelete(parsed, mode)`: a walk in the other direction is dropped, the
iterators added since the last call are picked up, and the walk answers. -/
def ShouldDelete (rep : StripeRep) (parsed : ParsedInternalKey) (mode : RangeDelPositioningMode) :
    Bool × StripeRep :=
  if !rep.InStripe parsed.sequence || rep.IsEmpty then (false, rep)
  else
    match mode with
    | .kForwardTraversal =>
        let (iters, w) := RangeDelWalk.addUnused ucmp (forwardDir ucmp) parsed rep.iters.length
          (rep.iters, rep.forwardIter)
        let (answer, iters, w) := RangeDelWalk.ShouldDelete ucmp (forwardDir ucmp) iters w parsed
        (answer, { rep with iters := iters, forwardIter := w, reverseIter := RangeDelWalk.Invalidate })
    | .kBackwardTraversal =>
        let (iters, w) := RangeDelWalk.addUnused ucmp (reverseDir ucmp) parsed rep.iters.length
          (rep.iters, rep.reverseIter)
        let (answer, iters, w) := RangeDelWalk.ShouldDelete ucmp (reverseDir ucmp) iters w parsed
        (answer, { rep with iters := iters, reverseIter := w, forwardIter := RangeDelWalk.Invalidate })

end StripeRep

/-- `ReadRangeDelAggregator`: one stripe, `[0, upper_bound]`. -/
structure ReadRangeDelAggregator where
  rep : StripeRep
  deriving DecidableEq, Repr

namespace ReadRangeDelAggregator

variable (ucmp : Comparator)

/-- The constructor. -/
def create (upperBound : UInt64) : ReadRangeDelAggregator := ⟨StripeRep.create upperBound 0⟩

/-- `AddTombstones(input_iter, smallest, largest)`: an empty list adds nothing. -/
def AddTombstones (agg : ReadRangeDelAggregator) (input : FragmentedRangeTombstoneIterator)
    (smallest largest : Option ParsedInternalKey) : ReadRangeDelAggregator :=
  if input.empty then agg else ⟨agg.rep.AddTombstones ⟨input, smallest, largest⟩⟩

/-- `ShouldDelete(parsed, mode)`. -/
def ShouldDelete (agg : ReadRangeDelAggregator) (parsed : ParsedInternalKey)
    (mode : RangeDelPositioningMode) : Bool × ReadRangeDelAggregator :=
  let (answer, rep) := agg.rep.ShouldDelete ucmp parsed mode
  (answer, ⟨rep⟩)

/-- `InvalidateRangeDelMapPositions()`: both walks start over at the next call. -/
def InvalidateRangeDelMapPositions (agg : ReadRangeDelAggregator) : ReadRangeDelAggregator :=
  ⟨agg.rep.Invalidate⟩

end ReadRangeDelAggregator

/-- `CompactionRangeDelAggregator`: the snapshots, the truncated iterators as
added, and the stripes by upper bound (`reps_`, a sorted list). -/
structure CompactionRangeDelAggregator where
  snapshots : List UInt64
  parentIters : List TruncatedRangeDelIterator
  reps : List (UInt64 × StripeRep)
  deriving DecidableEq, Repr

namespace CompactionRangeDelAggregator

variable (ucmp : Comparator)

/-- The constructor. -/
def create (snapshots : List UInt64) : CompactionRangeDelAggregator := ⟨snapshots, [], []⟩

/-- `reps_.find(upper)`, and `reps_.emplace` of a new stripe when it fails,
then `AddTombstones` on the stripe. -/
def addToStripe (it : TruncatedRangeDelIterator) (upper : UInt64) :
    List (UInt64 × StripeRep) → List (UInt64 × StripeRep)
  | [] => [(upper, (StripeRep.create it.iter.upperBound it.iter.lowerBound).AddTombstones it)]
  | (k, rep) :: reps =>
      if k = upper then (k, rep.AddTombstones it) :: reps
      else if upper < k then
        (upper, (StripeRep.create it.iter.upperBound it.iter.lowerBound).AddTombstones it) ::
          (k, rep) :: reps
      else (k, rep) :: addToStripe it upper reps

/-- `AddTombstones(input_iter, smallest, largest)`: the list is cut by the
snapshots and each part goes to its stripe. -/
def AddTombstones (agg : CompactionRangeDelAggregator) (input : FragmentedRangeTombstoneIterator)
    (smallest largest : Option ParsedInternalKey) : CompactionRangeDelAggregator :=
  if input.empty then agg
  else
    let parent : TruncatedRangeDelIterator := ⟨input, smallest, largest⟩
    { agg with
      parentIters := agg.parentIters ++ [parent]
      reps := (parent.SplitBySnapshot agg.snapshots).foldl
        (fun reps p => addToStripe p.2 p.1 reps) agg.reps }

/-- `reps_.lower_bound(seq)` and `ShouldDelete` there. -/
def shouldDeleteIn (parsed : ParsedInternalKey) (mode : RangeDelPositioningMode) :
    List (UInt64 × StripeRep) → Bool × List (UInt64 × StripeRep)
  | [] => (false, [])
  | (k, rep) :: reps =>
      if parsed.sequence ≤ k then
        let (answer, rep) := rep.ShouldDelete ucmp parsed mode
        (answer, (k, rep) :: reps)
      else
        let (answer, reps) := shouldDeleteIn parsed mode reps
        (answer, (k, rep) :: reps)

/-- `ShouldDelete(parsed, mode)`: in the stripe with the smallest upper bound
at or above the key's sequence number, if any. -/
def ShouldDelete (agg : CompactionRangeDelAggregator) (parsed : ParsedInternalKey)
    (mode : RangeDelPositioningMode) : Bool × CompactionRangeDelAggregator :=
  let (answer, reps) := shouldDeleteIn ucmp parsed mode agg.reps
  (answer, { agg with reps := reps })

end CompactionRangeDelAggregator

end HapDB
