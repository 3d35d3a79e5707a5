import HapDB.Db.RangeDelAggregator
import HapDB.Db.Builder

/-!
# `db/compaction_iterator`: which entries a compaction keeps

`CompactionIterator` walks the input of a compaction, sorted by internal key
(user key, then newest first), and hands the table builder the entries that
some reader can still see.  A version of a user key is visible in the snapshot
stripe that starts after the previous snapshot and ends at the earliest
snapshot at or above it (`findEarliestVisibleSnapshot`; with no snapshots at
all, one stripe up to `kMaxSequenceNumber`).  `NextFromInput` keeps, per user
key, the newest version of each stripe, and of those it drops

* a version older than one already seen in the same stripe (hidden),
* a `SingleDelete` together with the `Put` it meets in its stripe (or keeps
  the `SingleDelete` and the `Put` with its value cleared, so that write
  conflicts are still seen: Optimization 3),
* a `Delete` at or below the earliest snapshot when no lower level holds the
  key, and a `Delete` at the bottommost level with nothing older to hide,
* a version a range tombstone of its stripe covers (`ShouldDelete` of the
  `CompactionRangeDelAggregator`, in a forward walk).

`PrepareOutput` then zeroes the sequence number of a version at or below the
earliest snapshot at the bottommost level.

With obsolete-record tracking on (`SetTrackObsoleteRecordsFlag(true)`), every
round counts its entry in `num_input_records`; the first version of a user key
that is a value index records its blob file in `latest_valid_fileno_`, and
every later version of the key that is a value index counts one record of its
blob made obsolete by that file in `deprecated_count`.

The model is the iterator as a compaction builds it with no compaction filter,
no snapshot checker, a merge helper without an operator and no value
separation (`do_separate_value_`, `do_rebuild_blob_` and `do_combine_value_`
all false).  The input is a list of parsed internal keys with their values,
held from the input iterator's position on: `input_->Next()` drops its head.
Every round of the loop of `NextFromInput` either ends the loop or consumes an
input entry, so `input.length + 1` rounds are enough.
-/

namespace HapDB

/-- What `CompactionIterator` asks of its compaction (`CompactionProxy`):
`bottommost_level()`, `allow_ingest_behind()`, `preserve_deletes()` and
`KeyNotExistsBeyondOutputLevel(user_key)`. -/
structure CompactionProxy where
  bottommostLevel : Bool
  allowIngestBehind : Bool
  preserveDeletes : Bool
  keyNotExistsBeyondOutputLevel : Bytes → Bool

/-- `CompactionIterator`: the input from its position on, the parameters of
the constructor, and the state of the walk. -/
structure CompactionIterator where
  input : List (ParsedInternalKey × Bytes)
  /-- `end_`: the exclusive upper bound on user keys, if any. -/
  endKey : Option Bytes
  snapshots : List UInt64
  earliestWriteConflictSnapshot : UInt64
  compaction : Option CompactionProxy
  preserveDeletesSeqnum : UInt64
  rangeDelAgg : CompactionRangeDelAggregator
  valid : Bool
  /-- `ikey_` (and `key_`, its encoding): the current entry's key. -/
  ikey : ParsedInternalKey
  value : Bytes
  status : Status
  hasCurrentUserKey : Bool
  atNext : Bool
  currentUserKey : Bytes
  currentUserKeySequence : UInt64
  currentUserKeySnapshot : UInt64
  hasOutputtedKey : Bool
  clearAndOutputNextKey : Bool
  trackObsoleteRecordsFlag : Bool
  /-- `latest_valid_fileno_`. -/
  latestValidFileno : UInt64
  /-- `iter_stats_.num_input_records`. -/
  numInputRecords : ℕ
  /-- `iter_stats_.deprecated_count`, by edge `(a, b)`. -/
  deprecatedCount : List ((UInt64 × UInt64) × ℕ)

/-- `deprecated_count[edge] += 1`. -/
def bumpEdge (edge : UInt64 × UInt64) : List ((UInt64 × UInt64) × ℕ) → List ((UInt64 × UInt64) × ℕ)
  | [] => [(edge, 1)]
  | (e, n) :: rest => if e = edge then (e, n + 1) :: rest else (e, n) :: bumpEdge edge rest

/-- `CompactionIterationStats::SumDeprecatedRecordCount()`. -/
def SumDeprecatedRecordCount (deprecatedCount : List ((UInt64 × UInt64) × ℕ)) : ℕ :=
  (deprecatedCount.map (·.2)).sum

/-- `findEarliestVisibleSnapshot(in, &prev_snapshot)` with no snapshot
checker: the first snapshot at or above `in` (`kMaxSequenceNumber` if there is
none), and the snapshot before it (`0` if there is none). -/
def findEarliestVisibleSnapshot (snapshots : List UInt64) (in_ : UInt64) : UInt64 × UInt64 :=
  let idx := LowerBound.search (fun s => decide (s < in_)) snapshots snapshots.length 0
    snapshots.length
  let prevSnapshot := if idx = 0 then 0 else snapshots.getD (idx - 1) 0
  (snapshots.getD idx kMaxSequenceNumber, prevSnapshot)

namespace CompactionIterator

variable (ucmp : Comparator)

/-- The constructor, with the state of the walk at its initial values. -/
def create (input : List (ParsedInternalKey × Bytes)) (endKey : Option Bytes)
    (snapshots : List UInt64) (earliestWriteConflictSnapshot : UInt64)
    (compaction : Option CompactionProxy) (preserveDeletesSeqnum : UInt64)
    (rangeDelAgg : CompactionRangeDelAggregator) : CompactionIterator where
  input := input
  endKey := endKey
  snapshots := snapshots
  earliestWriteConflictSnapshot := earliestWriteConflictSnapshot
  compaction := compaction
  preserveDeletesSeqnum := preserveDeletesSeqnum
  rangeDelAgg := rangeDelAgg
  valid := false
  ikey := ⟨[], kMaxSequenceNumber, .kTypeDeletion⟩
  value := []
  status := Status.OK
  hasCurrentUserKey := false
  atNext := false
  currentUserKey := []
  currentUserKeySequence := 0
  currentUserKeySnapshot := 0
  hasOutputtedKey := false
  clearAndOutputNextKey := false
  trackObsoleteRecordsFlag := false
  latestValidFileno := 0xFFFFFFFFFFFFFFFF
  numInputRecords := 0
  deprecatedCount := []

/-- `SetTrackObsoleteRecordsFlag(flag)`. -/
def SetTrackObsoleteRecordsFlag (it : CompactionIterator) (flag : Bool) : CompactionIterator :=
  { it with trackObsoleteRecordsFlag := flag }

/-- `visible_at_tip_`: there are no snapshots. -/
def visibleAtTip (it : CompactionIterator) : Bool := it.snapshots.isEmpty

/-- `earliest_snapshot_`: the first snapshot, or `kMaxSequenceNumber`. -/
def earliestSnapshot (it : CompactionIterator) : UInt64 :=
  match it.snapshots with
  | [] => kMaxSequenceNumber
  | s :: _ => s

/-- `bottommost_level_`. -/
def bottommostLevel (it : CompactionIterator) : Bool :=
  match it.compaction with
  | some c => c.bottommostLevel
  | none => false

/-- `ikeyNotNeededForIncrementalSnapshot()`. -/
def ikeyNotNeededForIncrementalSnapshot (it : CompactionIterator) (c : CompactionProxy) : Bool :=
  !c.preserveDeletes || decide (it.ikey.sequence < it.preserveDeletesSeqnum)

/-- The end of a `SingleDelete`'s key: no next version of the key follows.
The `SingleDelete` goes when it is at or below the earliest snapshot and no
lower level holds the key, and is output otherwise. -/
def singleDeletionAtEnd (it : CompactionIterator) : CompactionIterator :=
  let it := { it with hasCurrentUserKey := false }
  match it.compaction with
  | some c =>
      if decide (it.ikey.sequence ≤ it.earliestSnapshot) &&
          c.keyNotExistsBeyondOutputLevel it.ikey.userKey then it
      else { it with valid := true }
  | none => { it with valid := true }

/-- The `SingleDelete` branch of `NextFromInput`, after the stripe of the
current key is known: peek at the next entry.  A next version of the same key
in the same stripe is a second `SingleDelete` (the first is skipped), or the
value it deletes: both are dropped when a record of the key is already out or
no write-conflict snapshot is below, and otherwise the `SingleDelete` is kept
and the value is kept cleared. -/
def singleDeletion (it : CompactionIterator) (prevSnapshot : UInt64) : CompactionIterator :=
  let it := { it with input := it.input.tail }
  let it :=
    match it.input with
    | (next, _) :: rest =>
        if ucmp it.ikey.userKey next.userKey = Ordering.eq then
          if prevSnapshot = 0 || decide (next.sequence > prevSnapshot) then
            if next.type = ValueType.kTypeSingleDeletion then it
            else if it.hasOutputtedKey ||
                decide (it.ikey.sequence ≤ it.earliestWriteConflictSnapshot) then
              { it with input := rest }
            else { it with valid := true, clearAndOutputNextKey := true }
          -- the next version is in an earlier stripe
          else { it with valid := true }
        else it.singleDeletionAtEnd
    | [] => it.singleDeletionAtEnd
  if it.valid then { it with atNext := true } else it

/-- Whether an entry is a version of the current key in the current stripe:
the test of the skip loop of the bottommost `Delete` branch. -/
def inStripe (it : CompactionIterator) (prevSnapshot : UInt64)
    (e : ParsedInternalKey × Bytes) : Bool :=
  ucmp it.ikey.userKey e.1.userKey = .eq && (prevSnapshot = 0 || decide (e.1.sequence > prevSnapshot))

/-- The bottommost `Delete` branch: skip every version of the key in the
`Delete`'s stripe, and output the `Delete` only if an older version follows. -/
def bottommostDeletion (it : CompactionIterator) (prevSnapshot : UInt64) : CompactionIterator :=
  let it := { it with input := it.input.tail.dropWhile (it.inStripe ucmp prevSnapshot) }
  match it.input with
  | (next, _) :: _ =>
      if ucmp it.ikey.userKey next.userKey = .eq then { it with valid := true, atNext := true }
      else it
  | [] => it

/-- The `Delete` at or below the earliest snapshot that no lower level holds
the key of: it is obsolete. -/
def obsoleteDeletion (it : CompactionIterator) : Bool :=
  match it.compaction with
  | some c =>
      it.ikey.type = .kTypeDeletion && decide (it.ikey.sequence ≤ it.earliestSnapshot) &&
        it.ikeyNotNeededForIncrementalSnapshot c && c.keyNotExistsBeyondOutputLevel it.ikey.userKey
  | none => false

/-- The `Delete` at the bottommost level. -/
def bottommostDelete (it : CompactionIterator) : Bool :=
  match it.compaction with
  | some c => it.ikey.type = .kTypeDeletion && c.bottommostLevel && it.ikeyNotNeededForIncrementalSnapshot c
  | none => false

/-- The key of the entry the loop is at becomes the current key: a new user
key resets the walk's record of it.  With tracking on, a value index that is
the key's first version records its blob file, and one that is a later
version counts an obsolete record of its blob.  The blob file of a value index
is the file number its value encodes. -/
def setCurrentKey (it : CompactionIterator) (key : ParsedInternalKey) (value : Bytes) :
    CompactionIterator :=
  if !it.hasCurrentUserKey || ucmp key.userKey it.currentUserKey != .eq then
    let it := { it with
      ikey := key, value := value, currentUserKey := key.userKey, hasCurrentUserKey := true,
      hasOutputtedKey := false, currentUserKeySequence := kMaxSequenceNumber,
      currentUserKeySnapshot := 0 }
    if it.ikey.type = .kTypeValueIndex && it.trackObsoleteRecordsFlag then
      { it with latestValidFileno := DecodeFileNumber value }
    else it
  else
    -- the user key is the one kept from its first version
    let it := { it with ikey := { key with userKey := it.currentUserKey }, value := value }
    if it.trackObsoleteRecordsFlag && it.ikey.type = .kTypeValueIndex then
      { it with deprecatedCount :=
          bumpEdge (it.latestValidFileno, DecodeFileNumber value) it.deprecatedCount }
    else it

/-- One round of the loop of `NextFromInput`, at the input entry
`(key, value)`: `done` where the source returns. -/
def nextFromInputRound (it : CompactionIterator) (key : ParsedInternalKey) (value : Bytes) :
    ForInStep CompactionIterator :=
  let it := it.setCurrentKey ucmp key value
  let lastSnapshot := it.currentUserKeySnapshot
  let stripe := if it.visibleAtTip then (it.earliestSnapshot, 0)
    else findEarliestVisibleSnapshot it.snapshots it.ikey.sequence
  let it := { it with currentUserKeySequence := it.ikey.sequence,
                      currentUserKeySnapshot := stripe.1 }
  if it.clearAndOutputNextKey then
    -- the `Put` after a `SingleDelete` that is kept (Optimization 3)
    .yield { it with value := [], valid := true, clearAndOutputNextKey := false }
  else if it.ikey.type = .kTypeSingleDeletion then .yield (it.singleDeletion ucmp stripe.2)
  else if lastSnapshot = stripe.1 then
    -- hidden by a newer version of the same stripe
    .yield { it with input := it.input.tail }
  else if it.obsoleteDeletion then .yield { it with input := it.input.tail }
  else if it.bottommostDelete then .yield (it.bottommostDeletion ucmp stripe.2)
  else if it.ikey.type = .kTypeMerge || it.ikey.type = .kTypeMergeIndex then
    .done { it with status := Status.InvalidArgument "merge_operator is not properly initialized." }
  else
    let shouldDelete := it.rangeDelAgg.ShouldDelete ucmp it.ikey .kForwardTraversal
    if shouldDelete.1 then .yield { it with rangeDelAgg := shouldDelete.2, input := it.input.tail }
    else .yield { it with rangeDelAgg := shouldDelete.2, valid := true }

/-- The loop of `NextFromInput`: while no entry is ready and the input is not
at its end or past `end_`, one round. -/
def nextFromInputLoop : ℕ → CompactionIterator → CompactionIterator
  | 0, it => it
  | fuel + 1, it =>
      if it.valid then it
      else
        match it.input with
        | [] => it
        | (key, value) :: _ =>
            if (it.endKey.map fun e => ucmp key.userKey e != .lt).getD false then it
            else
              let it := { it with numInputRecords := it.numInputRecords + 1 }
              match it.nextFromInputRound ucmp key value with
              | .done it => it
              | .yield it => nextFromInputLoop fuel it

/-- `NextFromInput()`. -/
def NextFromInput (it : CompactionIterator) : CompactionIterator :=
  nextFromInputLoop ucmp (it.input.length + 1) { it with atNext := false, valid := false }

/-- The `zero_sequence` step of `PrepareOutput`: at the bottommost level a
version at or below the earliest snapshot gets sequence number `0`. -/
def zeroSequence (it : CompactionIterator) : CompactionIterator :=
  match it.compaction with
  | some c =>
      if !c.allowIngestBehind && it.ikeyNotNeededForIncrementalSnapshot c && c.bottommostLevel &&
          it.valid && decide (it.ikey.sequence ≤ it.earliestSnapshot) &&
          it.ikey.type != .kTypeMerge then
        { it with ikey := { it.ikey with sequence := 0 } }
      else it
  | none => it

/-- `PrepareOutput()` without value separation: a value index is passed on as
it is, every other entry may have its sequence number zeroed. -/
def PrepareOutput (it : CompactionIterator) : CompactionIterator :=
  if it.ikey.type = .kTypeValueIndex || it.ikey.type = .kTypeMergeIndex then it
  else it.zeroSequence

/-- `SeekToFirst()`. -/
def SeekToFirst (it : CompactionIterator) : CompactionIterator :=
  let it := it.NextFromInput ucmp
  if it.valid then it.PrepareOutput else it

/-- `Next()`: move the input on unless the last round already did. -/
def Next (it : CompactionIterator) : CompactionIterator :=
  let it := if it.atNext then it else { it with input := it.input.tail }
  let it := it.NextFromInput ucmp
  if it.valid then PrepareOutput { it with hasOutputtedKey := true } else it

/-- The loop of `CompactionJob::ProcessKeyValueCompaction` over the iterator:
while it is valid, hand `(key(), value())` to the output and call `Next()`. -/
def outputLoop : ℕ → CompactionIterator → List (ParsedInternalKey × Bytes)
  | 0, _ => []
  | fuel + 1, it => if it.valid then (it.ikey, it.value) :: outputLoop fuel (it.Next ucmp) else []

/-- The entries a compaction writes: `SeekToFirst()`, then the output loop.
Every output is an entry of the input, so `input.length + 1` rounds are
enough. -/
def outputs (it : CompactionIterator) : List (ParsedInternalKey × Bytes) :=
  outputLoop ucmp (it.input.length + 1) (it.SeekToFirst ucmp)

/-- The iterator once the output loop has run it out. -/
def drainLoop : ℕ → CompactionIterator → CompactionIterator
  | 0, it => it
  | fuel + 1, it => if it.valid then drainLoop fuel (it.Next ucmp) else it

/-- The iterator after `SeekToFirst()` and the output loop, whose statistics
`ProcessKeyValueCompaction` reads. -/
def exhausted (it : CompactionIterator) : CompactionIterator :=
  drainLoop ucmp (it.input.length + 1) (it.SeekToFirst ucmp)

end CompactionIterator

end HapDB
