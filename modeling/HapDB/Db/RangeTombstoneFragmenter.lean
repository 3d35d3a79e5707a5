import HapDB.Db.FileMap
import HapDB.Lib.LowerBound
import Mathlib.Data.List.Sort

/-!
# `db/range_tombstone_fragmenter`: range tombstones cut into fragments

A range tombstone deletes the user keys `[start_key, end_key)` written below
its sequence number.  `FragmentedRangeTombstoneList` cuts a set of them into
fragments that do not overlap: each fragment is a key range with the sequence
numbers, largest first, of the tombstones over it.  The constructor sorts the
tombstones by their internal keys (start key, then the larger sequence number)
unless they already are, and `FragmentTombstones` walks them keeping the end
keys of the tombstones begun so far in a set ordered by end key;
`flush_current_tombstones` cuts the fragments that end before the next start
key.  For compaction it keeps, of the sequence numbers over a fragment, only
the largest in each snapshot stripe.

`FragmentedRangeTombstoneIterator` looks at the fragments through a window of
sequence numbers `[lower_bound, upper_bound]`: at each fragment it sits on the
largest sequence number in the window (its top), and the `Top` moves skip the
fragments with none.  `Seek` and `SeekForPrev` find a fragment by binary
search over the end keys and over the start keys.

Here the fragments carry their own lists of sequence numbers, where the source
keeps them in one shared vector `tombstone_seqs_` indexed by
`[seq_start_idx, seq_end_idx)`; `seq_pos_` is an index into the fragment's
list.  `seq_set_` is the set of all of them.  The two sorts are insertion
sorts: they give the sorted order `std::sort` gives, up to the order of
tombstones with the same internal key, whose end keys go into one set anyway.
The binary searches are `Lib/LowerBound.lean`'s halving loop, the one of
`std::lower_bound` and `std::upper_bound`, which on a range that is not sorted
finds what that loop finds.
-/

namespace HapDB

/-- `InternalKeyComparator::Compare` on parsed keys: by user key, then the
larger sequence number first, then the larger type. -/
def parsedInternalKeyCompare (ucmp : Comparator) (a b : ParsedInternalKey) : Ordering :=
  match ucmp a.userKey b.userKey with
  | .eq =>
      if a.sequence > b.sequence then .lt
      else if a.sequence < b.sequence then .gt
      else if a.type.toByte > b.type.toByte then .lt
      else if a.type.toByte < b.type.toByte then .gt
      else .eq
  | o => o

/-- `RangeTombstone`: the user keys `[start_key, end_key)`, deleted at `seq`. -/
structure RangeTombstone where
  startKey : Bytes
  endKey : Bytes
  seq : UInt64
  deriving DecidableEq, Repr

/-- The internal key a tombstone is stored under: its start key at its sequence
number, as a range deletion. -/
def RangeTombstone.key (t : RangeTombstone) : ParsedInternalKey :=
  ⟨t.startKey, t.seq, .kTypeRangeDeletion⟩

/-- `RangeTombstoneStack`: a fragment and the sequence numbers over it, largest
first. -/
structure RangeTombstoneStack where
  startKey : Bytes
  endKey : Bytes
  seqs : List UInt64
  deriving DecidableEq, Repr

/-- `FragmentedRangeTombstoneList`: the fragments, in the order they were cut. -/
structure FragmentedRangeTombstoneList where
  tombstones : List RangeTombstoneStack
  deriving DecidableEq, Repr

/-- The state of `FragmentTombstones`: the fragments cut so far,
`cur_start_key` and the set `cur_end_keys`, as a sorted list. -/
structure Fragmenter where
  tombstones : List RangeTombstoneStack
  curStartKey : Bytes
  curEndKeys : List ParsedInternalKey
  deriving DecidableEq, Repr

namespace FragmentedRangeTombstoneList

variable (ucmp : Comparator)

/-- The loop of the compaction branch of `flush_current_tombstones`, over the
sequence numbers largest first: a sequence number is kept when it is at or
below `next_snapshot`, the snapshot under the last one kept; the first one
below the earliest snapshot is the last kept. -/
def keepVisible (snapshots : List UInt64) : UInt64 → List UInt64 → List UInt64
  | _, [] => []
  | nextSnapshot, seq :: rest =>
      if seq ≤ nextSnapshot then
        -- `std::lower_bound(snapshots, seq)`: the first snapshot at or above `seq`
        let ub := LowerBound.search (fun s => decide (s < seq)) snapshots snapshots.length 0
          snapshots.length
        if ub = 0 then [seq]
        else seq :: keepVisible snapshots (snapshots[ub - 1]?.getD 0) rest
      else keepVisible snapshots nextSnapshot rest

/-- The sequence numbers a fragment gets from the end keys over it: all of
them, largest first, or for compaction those `keepVisible` keeps. -/
def flushSeqs (forCompaction : Bool) (snapshots : List UInt64) (ends : List ParsedInternalKey) :
    List UInt64 :=
  let seqnums := (ends.map (·.sequence)).insertionSort (fun a b => b ≤ a)
  if forCompaction then keepVisible snapshots kMaxSequenceNumber seqnums else seqnums

/-- The loop of `flush_current_tombstones(next_start_key)` over the end keys
from `it` on.  It returns the fragments with those it cut appended, and the end
keys still in use: from the one at or past `next_start_key` on, or `none` when
no end key reached it and the set is cleared. -/
def flushLoop (forCompaction : Bool) (snapshots : List UInt64) (nextStartKey : Bytes) :
    Bytes → List ParsedInternalKey → List RangeTombstoneStack →
      List RangeTombstoneStack × Option (List ParsedInternalKey)
  | _, [], out => (out, none)
  | curStartKey, it :: rest, out =>
      if ucmp curStartKey it.userKey = .eq then
        -- an empty tombstone
        flushLoop forCompaction snapshots nextStartKey curStartKey rest out
      else
        let reached := ucmp nextStartKey it.userKey != .gt
        let curEndKey := if reached then nextStartKey else it.userKey
        let out := out ++ [⟨curStartKey, curEndKey, flushSeqs forCompaction snapshots (it :: rest)⟩]
        if reached then (out, some (it :: rest))
        else flushLoop forCompaction snapshots nextStartKey curEndKey rest out

/-- `flush_current_tombstones(next_start_key)`. -/
def flushCurrentTombstones (forCompaction : Bool) (snapshots : List UInt64) (st : Fragmenter)
    (nextStartKey : Bytes) : Fragmenter :=
  let (out, kept) :=
    flushLoop ucmp forCompaction snapshots nextStartKey st.curStartKey st.curEndKeys st.tombstones
  { tombstones := out, curStartKey := nextStartKey, curEndKeys := kept.getD [] }

/-- `cur_end_keys.emplace`: nothing when an equal key is in the set. -/
def insertEndKey (s : List ParsedInternalKey) (k : ParsedInternalKey) : List ParsedInternalKey :=
  if s.any (fun x => parsedInternalKeyCompare ucmp x k == .eq) then s
  else s.orderedInsert (fun a b => parsedInternalKeyCompare ucmp a b ≠ .gt) k

/-- The loop of `FragmentTombstones` over the sorted tombstones: a new start key
first cuts the fragments that end before it. -/
def fragmentLoop (forCompaction : Bool) (snapshots : List UInt64) :
    Fragmenter → List RangeTombstone → Fragmenter
  | st, [] => st
  | st, t :: ts =>
      let st := if !st.curEndKeys.isEmpty && ucmp st.curStartKey t.startKey != .eq then
          flushCurrentTombstones ucmp forCompaction snapshots st t.startKey
        else st
      fragmentLoop forCompaction snapshots
        { st with
          curStartKey := t.startKey
          curEndKeys := insertEndKey ucmp st.curEndKeys ⟨t.endKey, t.seq, .kTypeRangeDeletion⟩ }
        ts

/-- `FragmentTombstones`: after the loop, what is left is cut up to the largest
end key. -/
def FragmentTombstones (input : List RangeTombstone) (forCompaction : Bool)
    (snapshots : List UInt64) : List RangeTombstoneStack :=
  let st := fragmentLoop ucmp forCompaction snapshots ⟨[], [], []⟩ input
  match st.curEndKeys.getLast? with
  | some lastEndKey =>
      (flushCurrentTombstones ucmp forCompaction snapshots st lastEndKey.userKey).tombstones
  | none => st.tombstones

/-- The check of the constructor: no tombstone's key is above the next one's. -/
def isSorted : List RangeTombstone → Bool
  | t₁ :: t₂ :: ts => parsedInternalKeyCompare ucmp t₁.key t₂.key != .gt && isSorted (t₂ :: ts)
  | _ => true

/-- The constructor: the tombstones are sorted by internal key unless they
already are, then fragmented. -/
def create (input : List RangeTombstone) (forCompaction : Bool) (snapshots : List UInt64) :
    FragmentedRangeTombstoneList :=
  let input := if isSorted ucmp input then input
    else input.insertionSort (fun a b => parsedInternalKeyCompare ucmp a.key b.key ≠ .gt)
  ⟨FragmentTombstones ucmp input forCompaction snapshots⟩

/-- `empty()`. -/
def empty (l : FragmentedRangeTombstoneList) : Bool := l.tombstones.isEmpty

/-- `ContainsRange(lower, upper)`: the smallest sequence number of `seq_set_` at
or above `lower` is at or below `upper`. -/
def ContainsRange (l : FragmentedRangeTombstoneList) (lower upper : UInt64) : Bool :=
  match ((l.tombstones.flatMap (·.seqs)).filter (lower ≤ ·)).min? with
  | some s => s ≤ upper
  | none => false

end FragmentedRangeTombstoneList

/-- `FragmentedRangeTombstoneIterator`: the fragments, the window of sequence
numbers, and the position `pos_` (the number of fragments is `end()`) with
`seq_pos_` in the fragment's list. -/
structure FragmentedRangeTombstoneIterator where
  tombstones : List RangeTombstoneStack
  upperBound : UInt64
  lowerBound : UInt64
  pos : ℕ
  seqPos : ℕ
  deriving DecidableEq, Repr

namespace FragmentedRangeTombstoneIterator

variable (ucmp : Comparator)

/-- The constructor: invalid until positioned. -/
def create (l : FragmentedRangeTombstoneList) (upperBound : UInt64) (lowerBound : UInt64 := 0) :
    FragmentedRangeTombstoneIterator :=
  ⟨l.tombstones, upperBound, lowerBound, l.tombstones.length, 0⟩

/-- `Invalidate()`: at `end()`. -/
def Invalidate (it : FragmentedRangeTombstoneIterator) : FragmentedRangeTombstoneIterator :=
  { it with pos := it.tombstones.length, seqPos := 0 }

/-- `Valid()`: not at `end()`. -/
def Valid (it : FragmentedRangeTombstoneIterator) : Bool := it.pos < it.tombstones.length

/-- `empty()`. -/
def empty (it : FragmentedRangeTombstoneIterator) : Bool := it.tombstones.isEmpty

/-- `std::lower_bound(seqs, upper_bound_, std::greater)`: the first sequence
number at or below the upper bound, the top of the stack. -/
def topSeqPos (upperBound : UInt64) (f : RangeTombstoneStack) : ℕ :=
  LowerBound.search (fun s => decide (s > upperBound)) f.seqs f.seqs.length 0 f.seqs.length

/-- At fragment `i`, on its top. -/
def setTop (it : FragmentedRangeTombstoneIterator) (i : ℕ) : FragmentedRangeTombstoneIterator :=
  { it with
    pos := i
    seqPos := match it.tombstones[i]? with
      | some f => topSeqPos it.upperBound f
      | none => 0 }

/-- The condition of the scans: a fragment whose stack has nothing in the
window, that is `seq_pos_` at the end of the stack or below `lower_bound_`;
`false` at `end()`. -/
def invisible (it : FragmentedRangeTombstoneIterator) : Bool :=
  match it.tombstones[it.pos]? with
  | some f =>
      match f.seqs[it.seqPos]? with
      | some s => decide (s < it.lowerBound)
      | none => true
  | none => false

/-- `ScanForwardToVisibleTombstone()`, on fuel. -/
def ScanForwardToVisibleTombstone :
    ℕ → FragmentedRangeTombstoneIterator → FragmentedRangeTombstoneIterator
  | 0, it => it
  | fuel + 1, it =>
      if it.invisible then
        if it.pos + 1 < it.tombstones.length then
          ScanForwardToVisibleTombstone fuel (it.setTop (it.pos + 1))
        else it.Invalidate
      else it

/-- `ScanBackwardToVisibleTombstone()`, on fuel. -/
def ScanBackwardToVisibleTombstone :
    ℕ → FragmentedRangeTombstoneIterator → FragmentedRangeTombstoneIterator
  | 0, it => it
  | fuel + 1, it =>
      if it.invisible then
        if it.pos = 0 then it.Invalidate
        else ScanBackwardToVisibleTombstone fuel (it.setTop (it.pos - 1))
      else it

/-- `SeekToCoveringTombstone(target)`: `std::upper_bound` over the end keys, the
first fragment that ends after `target`. -/
def SeekToCoveringTombstone (it : FragmentedRangeTombstoneIterator) (target : Bytes) :
    FragmentedRangeTombstoneIterator :=
  let pos := LowerBound.search (fun f => ucmp target f.endKey != .lt) it.tombstones
    it.tombstones.length 0 it.tombstones.length
  if pos = it.tombstones.length then { it with pos := pos, seqPos := 0 } else it.setTop pos

/-- `SeekForPrevToCoveringTombstone(target)`: `std::upper_bound` over the start
keys, and the fragment before. -/
def SeekForPrevToCoveringTombstone (it : FragmentedRangeTombstoneIterator) (target : Bytes) :
    FragmentedRangeTombstoneIterator :=
  if it.empty then it.Invalidate
  else
    let pos := LowerBound.search (fun f => ucmp target f.startKey != .lt) it.tombstones
      it.tombstones.length 0 it.tombstones.length
    if pos = 0 then it.Invalidate else it.setTop (pos - 1)

/-- `Seek(target)`. -/
def Seek (it : FragmentedRangeTombstoneIterator) (target : Bytes) :
    FragmentedRangeTombstoneIterator :=
  if it.empty then it.Invalidate
  else ScanForwardToVisibleTombstone it.tombstones.length (it.SeekToCoveringTombstone ucmp target)

/-- `SeekForPrev(target)`. -/
def SeekForPrev (it : FragmentedRangeTombstoneIterator) (target : Bytes) :
    FragmentedRangeTombstoneIterator :=
  if it.empty then it.Invalidate
  else
    ScanBackwardToVisibleTombstone it.tombstones.length
      (it.SeekForPrevToCoveringTombstone ucmp target)

/-- `SeekToTopFirst()`. -/
def SeekToTopFirst (it : FragmentedRangeTombstoneIterator) : FragmentedRangeTombstoneIterator :=
  if it.empty then it.Invalidate
  else ScanForwardToVisibleTombstone it.tombstones.length (it.setTop 0)

/-- `SeekToTopLast()`. -/
def SeekToTopLast (it : FragmentedRangeTombstoneIterator) : FragmentedRangeTombstoneIterator :=
  if it.empty then it.Invalidate
  else ScanBackwardToVisibleTombstone it.tombstones.length (it.setTop (it.tombstones.length - 1))

/-- `TopNext()`: the next fragment with something in the window. -/
def TopNext (it : FragmentedRangeTombstoneIterator) : FragmentedRangeTombstoneIterator :=
  if it.pos + 1 < it.tombstones.length then
    ScanForwardToVisibleTombstone it.tombstones.length (it.setTop (it.pos + 1))
  else { it with pos := it.pos + 1 }

/-- `TopPrev()`: the fragment before with something in the window. -/
def TopPrev (it : FragmentedRangeTombstoneIterator) : FragmentedRangeTombstoneIterator :=
  if it.pos = 0 then it.Invalidate
  else ScanBackwardToVisibleTombstone it.tombstones.length (it.setTop (it.pos - 1))

/-- `start_key()` of the fragment at the position. -/
def startKey (it : FragmentedRangeTombstoneIterator) : Bytes :=
  match it.tombstones[it.pos]? with
  | some f => f.startKey
  | none => []

/-- `end_key()` of the fragment at the position. -/
def endKey (it : FragmentedRangeTombstoneIterator) : Bytes :=
  match it.tombstones[it.pos]? with
  | some f => f.endKey
  | none => []

/-- `seq()`: the sequence number at `seq_pos_`. -/
def seq (it : FragmentedRangeTombstoneIterator) : UInt64 :=
  match it.tombstones[it.pos]? with
  | some f => f.seqs[it.seqPos]?.getD 0
  | none => 0

/-- `parsed_start_key()`: the start key at the largest sequence number, below
every entry of that user key. -/
def parsedStartKey (it : FragmentedRangeTombstoneIterator) : ParsedInternalKey :=
  ⟨it.startKey, kMaxSequenceNumber, .kTypeRangeDeletion⟩

/-- `parsed_end_key()`. -/
def parsedEndKey (it : FragmentedRangeTombstoneIterator) : ParsedInternalKey :=
  ⟨it.endKey, kMaxSequenceNumber, .kTypeRangeDeletion⟩

/-- `MaxCoveringTombstoneSeqnum(user_key)`: the top of the fragment over
`user_key`, `0` if there is none. -/
def MaxCoveringTombstoneSeqnum (it : FragmentedRangeTombstoneIterator) (userKey : Bytes) :
    UInt64 :=
  let it := it.SeekToCoveringTombstone ucmp userKey
  let validPos := match it.tombstones[it.pos]? with
    | some f => it.seqPos < f.seqs.length
    | none => false
  if validPos && ucmp it.startKey userKey != .gt then it.seq else 0

/-- The loop of `SplitBySnapshot(snapshots)`: one iterator per stripe
`[lower, upper]` that holds a sequence number, keyed by its upper bound. -/
def splitLoop (l : FragmentedRangeTombstoneList) :
    UInt64 → List UInt64 → List (UInt64 × FragmentedRangeTombstoneIterator)
  | lower, [] =>
      if l.ContainsRange lower kMaxSequenceNumber then
        [(kMaxSequenceNumber, create l kMaxSequenceNumber lower)]
      else []
  | lower, upper :: snapshots =>
      (if l.ContainsRange lower upper then [(upper, create l upper lower)] else []) ++
        splitLoop l (upper + 1) snapshots

/-- `SplitBySnapshot(snapshots)`. -/
def SplitBySnapshot (it : FragmentedRangeTombstoneIterator) (snapshots : List UInt64) :
    List (UInt64 × FragmentedRangeTombstoneIterator) :=
  splitLoop ⟨it.tombstones⟩ 0 snapshots

end FragmentedRangeTombstoneIterator

end HapDB
