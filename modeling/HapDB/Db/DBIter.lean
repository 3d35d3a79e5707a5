import HapDB.Db.MergeHelper
import HapDB.Db.RangeDelAggregator
import HapDB.Db.InternalKeyComparator
import HapDB.Lib.Cursor

/-!
# `db/db_iter.cc`: the user's iterator, going forward

`DBIter` turns the internal iterator of a read (the merging iterator over the
memtables and the files, every version of every key, newest first within a
user key) into the user's view at the snapshot `sequence_`: each user key
once, with the value its newest visible version gives.  Going forward,
`FindNextUserEntryInternal` walks the internal entries: versions the snapshot
does not see are passed over, a deletion (or a range tombstone over the
entry) hides the key and the walk skips the rest of its versions, a value is
the answer, and a merge operand hands over to `MergeValuesNewToOld`, which
collects the older operands of the key until a value, a deletion or the next
key, and merges them.  After many versions of one key in a row, the walk seeks
past them instead of stepping (`max_skip_`).

The internal iterator is a `Cursor` over the encoded internal keys, ordered by
`InternalKeyComparator`; the merging iterator walks such a cursor
(`MergingIterator.merging_iterates_as_union_cursor`).  Its status is always
`OK`, so `DBIter::status()` is `status_`.

Only the forward direction is modelled: `SeekToFirst`, `Seek` and `Next`.
Left out: `Prev`, `SeekForPrev`, `SeekToLast` and the direction switches; the
prefix extractor (a column family without one); statistics, perf counters,
the tracer and the pinning of values; and the final `fetch` of a value, which
succeeds on a value that is its bytes.
-/

namespace HapDB

/-- `ReadCallback`: a transaction's test of whether its snapshot sees a
sequence number. -/
structure ReadCallback where
  IsVisible : UInt64 → Bool
  MaxUnpreparedSequenceNumber : UInt64 := 0

/-- `IterKey`: a buffer holding a user key, or an internal key whose user key
is all but its last eight bytes. -/
structure IterKey where
  key : Bytes
  isUserKey : Bool
  deriving DecidableEq, Repr

namespace IterKey

def GetUserKey (k : IterKey) : Bytes := if k.isUserKey then k.key else k.key.take (k.key.length - 8)

def SetUserKey (userKey : Bytes) : IterKey := ⟨userKey, true⟩

/-- `SetInternalKey(user_key, s, t)`: the key encoded by `AppendInternalKey`. -/
def SetInternalKey (ikey : ParsedInternalKey) : IterKey := ⟨appendInternalKey [] ikey, false⟩

end IterKey

/-- The fields of `ReadOptions` that a `DBIter` reads. -/
structure ReadOptions where
  iterateLowerBound : Option Bytes := none
  iterateUpperBound : Option Bytes := none
  maxSkippableInternalKeys : UInt64 := 0
  iterStartSeqnum : UInt64 := 0

instance : Inhabited InternalKey := ⟨⟨[]⟩⟩

/-- The fields of `DBIter` that the forward direction reads and writes. -/
structure DBIter where
  ucmp : Comparator
  mergeOperator : Option MergeOperator
  iter : Cursor InternalKey Bytes
  sequence : UInt64
  separateHelper : Option (Bytes → UInt64 → Bytes → Bytes)
  status : Status
  savedKey : IterKey
  value : Bytes
  valid : Bool
  currentEntryIsMerged : Bool
  maxSkip : UInt64
  maxSkippableInternalKeys : UInt64
  numInternalKeysSkipped : UInt64
  iterateLowerBound : Option Bytes
  iterateUpperBound : Option Bytes
  mergeContext : List Bytes
  rangeDelAgg : ReadRangeDelAggregator
  readCallback : Option ReadCallback
  startSeqnum : UInt64

namespace DBIter

/-- The constructor: not positioned, with an empty range deletion aggregator
whose stripe ends at the snapshot. -/
def new (ucmp : Comparator) (mergeOperator : Option MergeOperator) (iter : Cursor InternalKey Bytes)
    (s : UInt64) (separateHelper : Option (Bytes → UInt64 → Bytes → Bytes))
    (maxSequentialSkipInIterations : UInt64) (readCallback : Option ReadCallback)
    (readOptions : ReadOptions) : DBIter where
  ucmp := ucmp
  mergeOperator := mergeOperator
  iter := iter
  sequence := s
  separateHelper := separateHelper
  status := Status.OK
  savedKey := ⟨[], true⟩
  value := []
  valid := false
  currentEntryIsMerged := false
  maxSkip := maxSequentialSkipInIterations
  maxSkippableInternalKeys := readOptions.maxSkippableInternalKeys
  numInternalKeysSkipped := 0
  iterateLowerBound := readOptions.iterateLowerBound
  iterateUpperBound := readOptions.iterateUpperBound
  mergeContext := []
  rangeDelAgg := ReadRangeDelAggregator.create s
  readCallback := readCallback
  startSeqnum := readOptions.iterStartSeqnum

variable (it : DBIter)

/-- `key()`: the internal key when the iterator has a start sequence number. -/
def key : Bytes := if it.startSeqnum > 0 then it.savedKey.key else it.savedKey.GetUserKey

def MaxVisibleSequenceNumber : UInt64 :=
  match it.readCallback with
  | none => it.sequence
  | some cb => max it.sequence cb.MaxUnpreparedSequenceNumber

def IsVisible (sequence : UInt64) : Bool :=
  decide (sequence ≤ it.MaxVisibleSequenceNumber) && it.readCallback.all fun cb => cb.IsVisible sequence

/-- `TooManyInternalKeysSkipped(increment)`: whether the iterator gives up, and
its state after the count. -/
def TooManyInternalKeysSkipped (increment : Bool) : Bool × DBIter :=
  if it.maxSkippableInternalKeys > 0 && it.numInternalKeysSkipped > it.maxSkippableInternalKeys then
    (true, { it with valid := false, status := Status.Incomplete "Too many internal keys skipped." })
  else if increment then (false, { it with numInternalKeysSkipped := it.numInternalKeysSkipped + 1 })
  else (false, it)

/-- `ParseKey`: the parsed key at the position; `corruptedKey` is the state
its failure leaves. -/
def ParseKey : Option ParsedInternalKey := parseInternalKey it.iter.key.rep

def corruptedKey : DBIter :=
  { it with status := Status.Corruption "corrupted internal key in DBIter", valid := false }

/-- `GetValue(ikey, index_type)`: the value at the position, an index entry
turned into its value by the separate helper. -/
def GetValue (ikey : ParsedInternalKey) (indexType : ValueType) : Bytes :=
  match it.separateHelper with
  | some transToCombined =>
      if ikey.type = indexType then transToCombined it.savedKey.GetUserKey ikey.sequence it.iter.value
      else it.iter.value
  | none => it.iter.value

/-- `range_del_agg_.ShouldDelete(ikey, kForwardTraversal)`. -/
def ShouldDelete (ikey : ParsedInternalKey) : Bool × DBIter :=
  let (answer, agg) := it.rangeDelAgg.ShouldDelete it.ucmp ikey .kForwardTraversal
  (answer, { it with rangeDelAgg := agg })

/-- `ResetValueAndCounter()`, without the statistics. -/
def ResetValueAndCounter : DBIter := { it with numInternalKeysSkipped := 0, value := [] }

/-! ## `MergeValuesNewToOld` -/

/-- `TimedFullMerge` of the operands collected into `value_`; a failed merge
leaves the iterator invalid with its status. -/
def mergeInto (op : MergeOperator) (userKey : Bytes) (base : Option Bytes) : Bool × DBIter :=
  match MergeHelper.TimedFullMerge op userKey base it.mergeContext.reverse with
  | .ok result => (true, { it with value := result })
  | .error s => (false, { it with valid := false, status := s })

/-- The loop of `MergeValuesNewToOld` over the entries after the first operand:
operands are collected newest first until a value, a deletion or the next
user key. -/
def mergeLoop (op : MergeOperator) (it : DBIter) : Bool × DBIter :=
  if it.iter.valid then
    match it.ParseKey with
    | none => (false, it.corruptedKey)
    | some ikey =>
      if it.ucmp ikey.userKey it.savedKey.GetUserKey ≠ .eq then
        -- hit the next user key, stop right here
        it.mergeInto op it.savedKey.GetUserKey none
      else
        let (deleted, agg) :=
          if ikey.type = .kTypeDeletion ∨ ikey.type = .kTypeSingleDeletion then (true, it.rangeDelAgg)
          else it.rangeDelAgg.ShouldDelete it.ucmp ikey .kForwardTraversal
        if deleted then
          -- the position moves past the deletion
          { it with rangeDelAgg := agg, iter := it.iter.next }.mergeInto op it.savedKey.GetUserKey none
        else if ikey.type = .kTypeValue ∨ ikey.type = .kTypeValueIndex then
          match { it with rangeDelAgg := agg }.mergeInto op ikey.userKey
              (some (it.GetValue ikey .kTypeValueIndex)) with
          | (true, it') => (true, { it' with iter := it'.iter.next })
          | (false, it') => (false, it')
        else if ikey.type = .kTypeMerge ∨ ikey.type = .kTypeMergeIndex then
          mergeLoop op
            { it with
              rangeDelAgg := agg, iter := it.iter.next
              mergeContext := it.mergeContext ++ [it.GetValue ikey .kTypeMergeIndex] }
        else mergeLoop op { it with rangeDelAgg := agg, iter := it.iter.next }
  else it.mergeInto op it.savedKey.GetUserKey none
termination_by it.iter.entries.length - it.iter.pos
decreasing_by
  -- each call is made on a valid cursor, one entry further
  all_goals
    simp only [Cursor.valid, decide_eq_true_eq] at *
    simp only [Cursor.next]
    omega

/-- `MergeValuesNewToOld()` at the merge operand `ikey`. -/
def MergeValuesNewToOld (ikey : ParsedInternalKey) : Bool × DBIter :=
  match it.mergeOperator with
  | none => (false, { it with status := Status.InvalidArgument "merge_operator_ must be set.", valid := false })
  | some op =>
      mergeLoop op { it with mergeContext := [it.GetValue ikey .kTypeMergeIndex], iter := it.iter.next }

/-! ## `FindNextUserEntryInternal` -/

/-- How one round of the loop of `FindNextUserEntryInternal` ends: the function
returns, or the loop goes on with the flags `skipping`, `num_skipped` and
`reseek_done`. -/
inductive Round where
  | ret (ok : Bool) (it : DBIter)
  | skip (it : DBIter) (skipping : Bool) (numSkipped : UInt64) (reseekDone : Bool)

/-- The `switch` on the type of a visible entry that is not skipped. -/
def switchRound (ikey : ParsedInternalKey) (skipping : Bool) : Round :=
  match ikey.type with
  | .kTypeDeletion | .kTypeSingleDeletion =>
      if it.startSeqnum > 0 && ikey.sequence ≥ it.startSeqnum then
        .ret true { it with savedKey := IterKey.SetInternalKey ikey, value := [], valid := true }
      else
        -- arrange to skip all upcoming entries for this key
        .skip { it with savedKey := IterKey.SetUserKey ikey.userKey } true 0 false
  | .kTypeValueIndex | .kTypeValue =>
      if it.startSeqnum > 0 then
        if ikey.sequence ≥ it.startSeqnum then
          let it := { it with savedKey := IterKey.SetInternalKey ikey }
          .ret true { it with value := it.GetValue ikey .kTypeValueIndex, valid := true }
        else .skip { it with savedKey := IterKey.SetUserKey ikey.userKey } true 0 false
      else
        let it := { it with savedKey := IterKey.SetUserKey ikey.userKey }
        let (deleted, it) := it.ShouldDelete ikey
        if deleted then .skip it true 0 false
        else .ret true { it with value := it.GetValue ikey .kTypeValueIndex, valid := true }
  | .kTypeMerge | .kTypeMergeIndex =>
      let it := { it with savedKey := IterKey.SetUserKey ikey.userKey }
      let (deleted, it) := it.ShouldDelete ikey
      if deleted then .skip it true 0 false
      else
        let (ok, it) := { it with currentEntryIsMerged := true, valid := true }.MergeValuesNewToOld ikey
        .ret ok it
  | _ => .skip it skipping 0 false

/-- One round of the loop on the parsed entry `ikey`, up to the step to the
next entry. -/
def round (ikey : ParsedInternalKey) (skipping : Bool) (numSkipped : UInt64) (reseekDone : Bool) :
    Round :=
  if it.iterateUpperBound.any fun ub => it.ucmp ikey.userKey ub ≠ .lt then .ret true { it with valid := false }
  else
    match it.TooManyInternalKeysSkipped true with
    | (true, it) => .ret false it
    | (false, it) =>
      if it.IsVisible ikey.sequence then
        if skipping && it.ucmp ikey.userKey it.savedKey.GetUserKey ≠ .gt then
          .skip it skipping (numSkipped + 1) reseekDone
        else it.switchRound ikey skipping
      else
        -- inserted after the snapshot was taken
        let cmp := it.ucmp ikey.userKey it.savedKey.GetUserKey
        if cmp = .eq ∨ (skipping ∧ cmp ≠ .gt) then .skip it skipping (numSkipped + 1) reseekDone
        else .skip { it with savedKey := IterKey.SetUserKey ikey.userKey } false 0 false

/-- The end of a round that goes on: after more than `max_skip_` entries of one
user key in a row, a seek past them (to the smallest internal key of the key
when skipping it, to the snapshot otherwise), else a step. -/
def advance (skipping : Bool) (numSkipped : UInt64) (reseekDone : Bool) : DBIter × UInt64 × Bool :=
  if numSkipped > it.maxSkip && !reseekDone then
    let lastKey := if skipping then appendInternalKey [] ⟨it.savedKey.GetUserKey, 0, .kTypeDeletion⟩
      else appendInternalKey [] ⟨it.savedKey.GetUserKey, it.sequence, kValueTypeForSeek⟩
    ({ it with iter := it.iter.seek (internalKeyCompare it.ucmp) ⟨lastKey⟩ }, 0, true)
  else ({ it with iter := it.iter.next }, numSkipped, reseekDone)

/-- The loop of `FindNextUserEntryInternal`, on fuel: a sorted source ends it
before `2 * n + 2` rounds over `n` entries. -/
def findNextLoop : ℕ → DBIter → Bool → UInt64 → Bool → Bool × DBIter
  | 0, it, _, _, _ => (false, { it with valid := false })
  | fuel + 1, it, skipping, numSkipped, reseekDone =>
    match it.ParseKey with
    | none => (false, it.corruptedKey)
    | some ikey =>
      match it.round ikey skipping numSkipped reseekDone with
      | .ret ok it => (ok, it)
      | .skip it skipping numSkipped reseekDone =>
        let (it, numSkipped, reseekDone) := it.advance skipping numSkipped reseekDone
        if it.iter.valid then findNextLoop fuel it skipping numSkipped reseekDone
        else (true, { it with valid := false })

/-- `FindNextUserEntry(skipping, prefix_check)`, without a prefix extractor. -/
def FindNextUserEntry (skipping : Bool) : Bool × DBIter :=
  findNextLoop (2 * it.iter.entries.length + 2) { it with currentEntryIsMerged := false } skipping 0 false

/-! ## The positioning calls -/

/-- `Next()`, going forward: past the entry returned, unless a merge already
moved the position, and on to the next user key. -/
def Next : DBIter :=
  let it := it.ResetValueAndCounter
  let it := if it.iter.valid && !it.currentEntryIsMerged then { it with iter := it.iter.next } else it
  if it.iter.valid then (it.FindNextUserEntry true).2 else { it with valid := false }

/-- `Seek(target)`: to the first entry of the target at the snapshot, or of
the lower bound when the target is below it. -/
def Seek (target : Bytes) : DBIter :=
  let it := { it with status := Status.OK }.ResetValueAndCounter
  let seq := it.MaxVisibleSequenceNumber
  let savedKey := IterKey.SetInternalKey ⟨target, seq, kValueTypeForSeek⟩
  let savedKey := match it.iterateLowerBound with
    | some lowerBound =>
        if it.ucmp savedKey.GetUserKey lowerBound = Ordering.lt then
          IterKey.SetInternalKey ⟨lowerBound, seq, kValueTypeForSeek⟩
        else savedKey
    | none => savedKey
  let it :=
    { it with
      savedKey := savedKey
      iter := it.iter.seek (internalKeyCompare it.ucmp) ⟨savedKey.key⟩
      rangeDelAgg := it.rangeDelAgg.InvalidateRangeDelMapPositions }
  if it.iter.valid then (it.FindNextUserEntry false).2 else { it with valid := false }

/-- `SeekToFirst()`: `Seek` to the lower bound when there is one. -/
def SeekToFirst : DBIter :=
  match it.iterateLowerBound with
  | some lowerBound => it.Seek lowerBound
  | none =>
    let it := { it with status := Status.OK }.ResetValueAndCounter
    let it :=
      { it with
        iter := it.iter.seekToFirst
        rangeDelAgg := it.rangeDelAgg.InvalidateRangeDelMapPositions }
    if it.iter.valid then
      ({ it with savedKey := IterKey.SetUserKey it.iter.key.userKey }.FindNextUserEntry false).2
    else { it with valid := false }

/-- The forward calls a user makes on the iterator. -/
inductive ForwardOp where
  | SeekToFirst
  | Seek (target : Bytes)
  | Next
  deriving DecidableEq

/-- One call. -/
def apply : ForwardOp → DBIter
  | .SeekToFirst => it.SeekToFirst
  | .Seek target => it.Seek target
  | .Next => it.Next

/-- The iterator after a sequence of calls. -/
def run (ops : List ForwardOp) : DBIter := ops.foldl apply it

/-- Every `Next` of a sequence of calls is made on a valid iterator, as
`assert(valid_)` asks. -/
def Legal : DBIter → List ForwardOp → Prop
  | _, [] => True
  | it, op :: ops => (op = .Next → it.valid = true) ∧ Legal (it.apply op) ops

instance decidableLegal : (it : DBIter) → (ops : List ForwardOp) → Decidable (Legal it ops)
  | _, [] => isTrue trivial
  | it, op :: ops =>
    have := decidableLegal (it.apply op) ops
    inferInstanceAs (Decidable ((op = .Next → it.valid = true) ∧ Legal (it.apply op) ops))

end DBIter

end HapDB
