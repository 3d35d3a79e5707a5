import HapDB.Db.DbFormat
import HapDB.Lib.ExceptBind
import HapDB.Util.Status

/-!
# `db/write_batch.cc`: the batch format and `WriteBatch::Iterate`

A batch is one byte string, `rep_`:

```text
rep_    := sequence: fixed64  count: fixed32  record*
record  := kTypeValue varstring varstring
         | kTypeColumnFamilyValue varint32 varstring varstring
         | ...                                   (one shape per tag)
varstring := len: varint32  data: uint8[len]
```

The count in the header is kept by the writers (`SetCount(Count + 1)` for every
record but `LogData`), separately from the records, and `Iterate` checks it
against the records it dispatched.

The five counted writers (`Put`, `Delete`, `SingleDelete`, `DeleteRange`,
`Merge`) share one body, `appendCountedRecord`; `Put` and `Merge` alone check
the key and value lengths first.  Every writer runs under a `LocalSavePoint`,
whose `commit` undoes the write when the batch outgrows `max_bytes_`.

`Iterate` is a loop over the records that hands each to a `Handler`.  A
handler is user code: here it is a state `σ` with one function per callback,
each returning the callback's status (where `Iterate` reads it) and the
handler's next state.  The loop re-dispatches a record whose callback returned
`TryAgain`, once; the measure of its recursion counts that.
-/

namespace HapDB

/-- `WriteBatchInternal::kHeader`. -/
def kHeader : ℕ := 12

/-- `port::kMaxUint32`. -/
def kMaxUint32 : ℕ := 2 ^ 32 - 1

/-! ## `enum ContentFlags` -/

namespace ContentFlags

def DEFERRED : UInt32 := (1 : UInt32) <<< 0
def HAS_PUT : UInt32 := (1 : UInt32) <<< 1
def HAS_DELETE : UInt32 := (1 : UInt32) <<< 2
def HAS_SINGLE_DELETE : UInt32 := (1 : UInt32) <<< 3
def HAS_MERGE : UInt32 := (1 : UInt32) <<< 4
def HAS_BEGIN_PREPARE : UInt32 := (1 : UInt32) <<< 5
def HAS_END_PREPARE : UInt32 := (1 : UInt32) <<< 6
def HAS_COMMIT : UInt32 := (1 : UInt32) <<< 7
def HAS_ROLLBACK : UInt32 := (1 : UInt32) <<< 8
def HAS_DELETE_RANGE : UInt32 := (1 : UInt32) <<< 9
def HAS_BEGIN_UNPREPARE : UInt32 := (1 : UInt32) <<< 10

end ContentFlags

/-- `SavePoint`: the size, count and content flags to return to. -/
structure SavePoint where
  size : ℕ
  count : UInt32
  contentFlags : UInt32
  deriving DecidableEq, Repr

/-- `SavePoint::is_cleared`: `(size | count | content_flags) == 0`. -/
def SavePoint.isCleared (sp : SavePoint) : Bool :=
  sp.size == 0 && sp.count == 0 && sp.contentFlags == 0

/-- The fields of `WriteBatch` that the writers and `Iterate` use. -/
structure WriteBatch where
  rep : Bytes
  contentFlags : UInt32
  maxBytes : ℕ
  /-- `save_points_`, most recent first. -/
  savePoints : List SavePoint
  /-- `wal_term_point_`. -/
  walTermPoint : SavePoint
  deriving DecidableEq, Repr

namespace WriteBatch

/-- `WriteBatch(reserved_bytes, max_bytes)`: a header of zeros and no records. -/
def empty (maxBytes : ℕ) : WriteBatch := ⟨List.replicate kHeader 0, 0, maxBytes, [], ⟨0, 0, 0⟩⟩

/-- `WriteBatchInternal::Sequence`: the fixed64 at offset 0. -/
def sequence (b : WriteBatch) : UInt64 := decodeFixed64 b.rep

/-- `WriteBatchInternal::Count`: the fixed32 at offset 8. -/
def count (b : WriteBatch) : UInt32 := decodeFixed32 (b.rep.drop 8)

/-- `WriteBatchInternal::ByteSize` and `GetDataSize`: the size of `rep_`. -/
def byteSize (b : WriteBatch) : ℕ := b.rep.length

/-- `WriteBatchInternal::SetCount`. -/
def setCount (b : WriteBatch) (n : UInt32) : WriteBatch :=
  { b with rep := b.rep.take 8 ++ encodeFixed32 n ++ b.rep.drop 12 }

/-- The save point a `LocalSavePoint` takes when a writer starts. -/
def localSavePoint (b : WriteBatch) : SavePoint := ⟨b.rep.length, b.count, b.contentFlags⟩

/-- `LocalSavePoint::commit`: a batch over its `max_bytes_` limit (when there
is one) goes back to the save point and the write fails. -/
def commit (save : SavePoint) (b : WriteBatch) : Status × WriteBatch :=
  if b.maxBytes ≠ 0 ∧ b.maxBytes < b.rep.length then
    (Status.MemoryLimit,
      { ({ b with rep := b.rep.take save.size } : WriteBatch).setCount save.count with
          contentFlags := save.contentFlags })
  else (Status.OK, b)

/-- `WriteBatch(rep)`: a batch over serialized bytes, with no size limit and its
content flags left to be computed (`DEFERRED`). -/
def ofRep (rep : Bytes) : WriteBatch := ⟨rep, ContentFlags.DEFERRED, 0, [], ⟨0, 0, 0⟩⟩

/-- `WriteBatch::Clear`: the header of zeros, no flags, no save points and a
cleared termination point. -/
def clear (b : WriteBatch) : WriteBatch :=
  { b with
    rep := List.replicate kHeader 0
    contentFlags := 0
    savePoints := []
    walTermPoint := ⟨0, 0, 0⟩ }

/-- `WriteBatch::SetSavePoint`. -/
def setSavePoint (b : WriteBatch) : WriteBatch :=
  { b with savePoints := b.localSavePoint :: b.savePoints }

/-- `WriteBatch::RollbackToSavePoint`: pop the most recent save point and go
back to it.  The source asserts that the save point is not past the batch;
`resize` to a smaller size is `take`. -/
def rollbackToSavePoint (b : WriteBatch) : Status × WriteBatch :=
  match b.savePoints with
  | [] => (Status.NotFound, b)
  | savepoint :: rest =>
    let b := { b with savePoints := rest }
    -- no changes to roll back
    if savepoint.size = b.rep.length then (Status.OK, b)
    -- roll back everything
    else if savepoint.size = 0 then (Status.OK, b.clear)
    else
      (Status.OK,
        { ({ b with rep := b.rep.take savepoint.size } : WriteBatch).setCount savepoint.count with
            contentFlags := savepoint.contentFlags })

/-- `WriteBatch::PopSavePoint`. -/
def popSavePoint (b : WriteBatch) : Status × WriteBatch :=
  match b.savePoints with
  | [] => (Status.NotFound, b)
  | _ :: rest => (Status.OK, { b with savePoints := rest })

/-- `WriteBatch::MarkWalTerminationPoint`: the size, count and flags so far. -/
def markWalTerminationPoint (b : WriteBatch) : WriteBatch :=
  { b with walTermPoint := ⟨b.byteSize, b.count, b.contentFlags⟩ }

/-- `WriteBatchInternal::Append(dst, src, wal_only)`: the records of `src`
after its header, or those up to its termination point when `wal_only` and
the point is marked, go after the records of `dst`; the counts add up and the
flags are or-ed. -/
def append (dst src : WriteBatch) (walOnly : Bool) : Status × WriteBatch :=
  let batchEnd := src.walTermPoint
  let (srcLen, srcCount, srcFlags) :=
    if walOnly && !batchEnd.isCleared then
      (batchEnd.size - kHeader, batchEnd.count, batchEnd.contentFlags)
    else (src.rep.length - kHeader, src.count, src.contentFlags)
  let dst := dst.setCount (dst.count + srcCount)
  (Status.OK,
    { dst with
      rep := dst.rep ++ (src.rep.drop kHeader).take srcLen
      contentFlags := dst.contentFlags ||| srcFlags })

/-- `WriteBatchInternal::AppendedByteSize`. -/
def appendedByteSize (leftByteSize rightByteSize : ℕ) : ℕ :=
  if leftByteSize = 0 ∨ rightByteSize = 0 then leftByteSize + rightByteSize
  else leftByteSize + rightByteSize - kHeader

/-- `WriteBatch::PutLogData`: an uncounted record. -/
def putLogData (b : WriteBatch) (blob : Bytes) : Status × WriteBatch :=
  commit b.localSavePoint
    { b with rep := putLengthPrefixedSlice (b.rep ++ [ValueType.kTypeLogData.toByte]) blob }

end WriteBatch

namespace WriteBatchInternal

/-- The body shared by the counted writers: bump the count, write `tag` for
the default column family or `cfTag` and the family id for another, then the
length-prefixed `slices`, set `flag`, and commit. -/
def appendCountedRecord (b : WriteBatch) (tag cfTag : ValueType) (columnFamilyId : UInt32)
    (slices : List Bytes) (flag : UInt32) : Status × WriteBatch :=
  let save := b.localSavePoint
  let b := b.setCount (b.count + 1)
  let rep :=
    if columnFamilyId = 0 then b.rep ++ [tag.toByte]
    else putVarint32 (b.rep ++ [cfTag.toByte]) columnFamilyId
  WriteBatch.commit save
    { b with rep := slices.foldl putLengthPrefixedSlice rep, contentFlags := b.contentFlags ||| flag }

/-- `WriteBatchInternal::Put`: the key and the value must each fit a `uint32_t`
length. -/
def put (b : WriteBatch) (columnFamilyId : UInt32) (key value : Bytes) : Status × WriteBatch :=
  if kMaxUint32 < key.length then (Status.InvalidArgument "key is too large", b)
  else if kMaxUint32 < value.length then (Status.InvalidArgument "value is too large", b)
  else
    appendCountedRecord b .kTypeValue .kTypeColumnFamilyValue columnFamilyId [key, value]
      ContentFlags.HAS_PUT

/-- `WriteBatchInternal::Delete`. -/
def delete (b : WriteBatch) (columnFamilyId : UInt32) (key : Bytes) : Status × WriteBatch :=
  appendCountedRecord b .kTypeDeletion .kTypeColumnFamilyDeletion columnFamilyId [key]
    ContentFlags.HAS_DELETE

/-- `WriteBatchInternal::SingleDelete`. -/
def singleDelete (b : WriteBatch) (columnFamilyId : UInt32) (key : Bytes) : Status × WriteBatch :=
  appendCountedRecord b .kTypeSingleDeletion .kTypeColumnFamilySingleDeletion columnFamilyId [key]
    ContentFlags.HAS_SINGLE_DELETE

/-- `WriteBatchInternal::DeleteRange`. -/
def deleteRange (b : WriteBatch) (columnFamilyId : UInt32) (beginKey endKey : Bytes) :
    Status × WriteBatch :=
  appendCountedRecord b .kTypeRangeDeletion .kTypeColumnFamilyRangeDeletion columnFamilyId
    [beginKey, endKey] ContentFlags.HAS_DELETE_RANGE

/-- `WriteBatchInternal::Merge`: the same length checks as `Put`. -/
def merge (b : WriteBatch) (columnFamilyId : UInt32) (key value : Bytes) : Status × WriteBatch :=
  if kMaxUint32 < key.length then (Status.InvalidArgument "key is too large", b)
  else if kMaxUint32 < value.length then (Status.InvalidArgument "value is too large", b)
  else
    appendCountedRecord b .kTypeMerge .kTypeColumnFamilyMerge columnFamilyId [key, value]
      ContentFlags.HAS_MERGE

/-- `WriteBatchInternal::InsertNoop`. -/
def insertNoop (b : WriteBatch) : Status × WriteBatch :=
  (Status.OK, { b with rep := b.rep ++ [ValueType.kTypeNoop.toByte] })

/-- `WriteBatchInternal::MarkEndPrepare`: clear the save points, rewrite the
noop at offset 12 (which the source asserts is there) as the begin marker of
the write policy, and append the end marker with the xid. -/
def markEndPrepare (b : WriteBatch) (xid : Bytes) (writeAfterCommit unpreparedBatch : Bool) :
    Status × WriteBatch :=
  let tag : ValueType :=
    if writeAfterCommit then .kTypeBeginPrepareXID
    else if unpreparedBatch then .kTypeBeginUnprepareXID
    else .kTypeBeginPersistedPrepareXID
  let rep := putLengthPrefixedSlice (b.rep.set 12 tag.toByte ++ [ValueType.kTypeEndPrepareXID.toByte]) xid
  let flags := b.contentFlags ||| ContentFlags.HAS_END_PREPARE ||| ContentFlags.HAS_BEGIN_PREPARE
  let flags := if unpreparedBatch then flags ||| ContentFlags.HAS_BEGIN_UNPREPARE else flags
  (Status.OK, { b with rep, contentFlags := flags, savePoints := [] })

/-- `WriteBatchInternal::MarkCommit`. -/
def markCommit (b : WriteBatch) (xid : Bytes) : Status × WriteBatch :=
  (Status.OK,
    { b with rep := putLengthPrefixedSlice (b.rep ++ [ValueType.kTypeCommitXID.toByte]) xid,
             contentFlags := b.contentFlags ||| ContentFlags.HAS_COMMIT })

/-- `WriteBatchInternal::MarkRollback`. -/
def markRollback (b : WriteBatch) (xid : Bytes) : Status × WriteBatch :=
  (Status.OK,
    { b with rep := putLengthPrefixedSlice (b.rep ++ [ValueType.kTypeRollbackXID.toByte]) xid,
             contentFlags := b.contentFlags ||| ContentFlags.HAS_ROLLBACK })

end WriteBatchInternal

/-! ## Reading a record -/

/-- What `ReadRecordFromWriteBatch` reads: the tag, the column family (`0` by
default) and the slices of the record.  A field the tag does not carry is
empty; `Iterate` never reads it. -/
structure WriteBatchRecord where
  tag : ValueType
  columnFamily : UInt32 := 0
  key : Bytes := []
  value : Bytes := []
  blob : Bytes := []
  xid : Bytes := []
  deriving DecidableEq, Repr

/-- A varint32 column family id, or the corruption `msg`. -/
def readColumnFamily (input : Bytes) (msg : String) : Except Status (UInt32 × Bytes) :=
  match getVarint32 input with
  | some r => .ok r
  | none => .error (Status.Corruption msg)

/-- One length-prefixed slice, or the corruption `msg`. -/
def readSlice (input : Bytes) (msg : String) : Except Status (Bytes × Bytes) :=
  match getLengthPrefixedSlice input with
  | some r => .ok r
  | none => .error (Status.Corruption msg)

/-- Two length-prefixed slices, or the corruption `msg`. -/
def readTwoSlices (input : Bytes) (msg : String) : Except Status (Bytes × Bytes × Bytes) := do
  let (first, input) ← readSlice input msg
  let (second, input) ← readSlice input msg
  pure (first, second, input)

/-- `ReadRecordFromWriteBatch`, after the tag byte `tag` has been taken off
the input.  The column-family tags read the id and fall through to the
default-family shape. -/
def readRecordFromWriteBatch (tag : UInt8) (input : Bytes) :
    Except Status (WriteBatchRecord × Bytes) :=
  match ValueType.ofByte? tag with
  | some .kTypeColumnFamilyValue => do
      let (cf, input) ← readColumnFamily input "bad WriteBatch Put"
      let (key, value, input) ← readTwoSlices input "bad WriteBatch Put"
      pure ({ tag := .kTypeColumnFamilyValue, columnFamily := cf, key, value }, input)
  | some .kTypeValue => do
      let (key, value, input) ← readTwoSlices input "bad WriteBatch Put"
      pure ({ tag := .kTypeValue, key, value }, input)
  | some .kTypeColumnFamilyDeletion => do
      let (cf, input) ← readColumnFamily input "bad WriteBatch Delete"
      let (key, input) ← readSlice input "bad WriteBatch Delete"
      pure ({ tag := .kTypeColumnFamilyDeletion, columnFamily := cf, key }, input)
  | some .kTypeColumnFamilySingleDeletion => do
      let (cf, input) ← readColumnFamily input "bad WriteBatch Delete"
      let (key, input) ← readSlice input "bad WriteBatch Delete"
      pure ({ tag := .kTypeColumnFamilySingleDeletion, columnFamily := cf, key }, input)
  | some .kTypeDeletion => do
      let (key, input) ← readSlice input "bad WriteBatch Delete"
      pure ({ tag := .kTypeDeletion, key }, input)
  | some .kTypeSingleDeletion => do
      let (key, input) ← readSlice input "bad WriteBatch Delete"
      pure ({ tag := .kTypeSingleDeletion, key }, input)
  | some .kTypeColumnFamilyRangeDeletion => do
      let (cf, input) ← readColumnFamily input "bad WriteBatch DeleteRange"
      let (key, value, input) ← readTwoSlices input "bad WriteBatch DeleteRange"
      pure ({ tag := .kTypeColumnFamilyRangeDeletion, columnFamily := cf, key, value }, input)
  | some .kTypeRangeDeletion => do
      let (key, value, input) ← readTwoSlices input "bad WriteBatch DeleteRange"
      pure ({ tag := .kTypeRangeDeletion, key, value }, input)
  | some .kTypeColumnFamilyMerge => do
      let (cf, input) ← readColumnFamily input "bad WriteBatch Merge"
      let (key, value, input) ← readTwoSlices input "bad WriteBatch Merge"
      pure ({ tag := .kTypeColumnFamilyMerge, columnFamily := cf, key, value }, input)
  | some .kTypeMerge => do
      let (key, value, input) ← readTwoSlices input "bad WriteBatch Merge"
      pure ({ tag := .kTypeMerge, key, value }, input)
  | some .kTypeValueIndex | some .kTypeMergeIndex =>
      .error (Status.Corruption "WriteBatch don't contents ValueIndex or MergeIndex")
  | some .kTypeLogData => do
      let (blob, input) ← readSlice input "bad WriteBatch Blob"
      pure ({ tag := .kTypeLogData, blob }, input)
  | some .kTypeNoop => pure ({ tag := .kTypeNoop }, input)
  | some .kTypeBeginPrepareXID => pure ({ tag := .kTypeBeginPrepareXID }, input)
  | some .kTypeBeginPersistedPrepareXID => pure ({ tag := .kTypeBeginPersistedPrepareXID }, input)
  | some .kTypeBeginUnprepareXID => pure ({ tag := .kTypeBeginUnprepareXID }, input)
  | some .kTypeEndPrepareXID => do
      let (xid, input) ← readSlice input "bad EndPrepare XID"
      pure ({ tag := .kTypeEndPrepareXID, xid }, input)
  | some .kTypeCommitXID => do
      let (xid, input) ← readSlice input "bad Commit XID"
      pure ({ tag := .kTypeCommitXID, xid }, input)
  | some .kTypeRollbackXID => do
      let (xid, input) ← readSlice input "bad Rollback XID"
      pure ({ tag := .kTypeRollbackXID, xid }, input)
  | none => .error (Status.Corruption "unknown WriteBatch tag")

/-! ## Readers consume their input

`Iterate` recurses on what is left of the batch; these lemmas give its
measure. -/

@[grind →] theorem readSlice_length {input rest slice : Bytes} {msg : String}
    (h : readSlice input msg = .ok (slice, rest)) : rest.length < input.length := by
  unfold readSlice at h
  split at h
  · cases h
    exact length_lt_of_getLengthPrefixedSlice (by assumption)
  · cases h

@[grind →] theorem readColumnFamily_length {input rest : Bytes} {cf : UInt32} {msg : String}
    (h : readColumnFamily input msg = .ok (cf, rest)) : rest.length < input.length := by
  unfold readColumnFamily at h
  split at h
  · cases h
    exact length_lt_of_getVarint32 (by assumption)
  · cases h

@[grind →] theorem readTwoSlices_length {input rest a b : Bytes} {msg : String}
    (h : readTwoSlices input msg = .ok (a, b, rest)) : rest.length < input.length := by
  unfold readTwoSlices at h
  simp only [Except.bind_eq_ok_iff, Except.pure_eq_ok_iff, Prod.exists, Prod.mk.injEq] at h
  obtain ⟨x, r1, h1, y, r2, h2, -, -, rfl⟩ := h
  have := readSlice_length h1
  have := readSlice_length h2
  omega

theorem readRecordFromWriteBatch_length {tag : UInt8} {input rest : Bytes} {r : WriteBatchRecord}
    (h : readRecordFromWriteBatch tag input = .ok (r, rest)) : rest.length ≤ input.length := by
  unfold readRecordFromWriteBatch at h
  -- every branch is a chain of readers, each of which shortens the input
  split at h <;>
    simp only [Except.bind_eq_ok_iff, Except.pure_eq_ok_iff, Prod.exists, Prod.mk.injEq,
      reduceCtorEq] at h <;> grind

/-! ## `WriteBatch::Iterate` -/

/-- `WriteBatch::Handler`, as a state `σ` and its callbacks.  The counted
callbacks return the status `Iterate` reads; the others return nothing that
`Iterate` looks at (`LogData` is `void`, and the status of the `Mark*`
callbacks is dropped). -/
structure WriteBatchHandler (σ : Type) where
  putCF : UInt32 → Bytes → Bytes → σ → Status × σ
  deleteCF : UInt32 → Bytes → σ → Status × σ
  singleDeleteCF : UInt32 → Bytes → σ → Status × σ
  deleteRangeCF : UInt32 → Bytes → Bytes → σ → Status × σ
  mergeCF : UInt32 → Bytes → Bytes → σ → Status × σ
  logData : Bytes → σ → σ
  markBeginPrepare : Bool → σ → σ
  markEndPrepare : Bytes → σ → σ
  markNoop : Bool → σ → σ
  markRollback : Bytes → σ → σ
  markCommit : Bytes → σ → σ
  /-- `Continue`. -/
  continue_ : σ → Bool
  writeAfterCommit : σ → Bool
  writeBeforePrepare : σ → Bool

/-- `Status::IsTryAgain`. -/
def Status.IsTryAgain (s : Status) : Bool := s.code == .kTryAgain

variable {σ : Type}

/-- After a counted callback: on success the batch is no longer empty and one
more record was found. -/
def afterCounted (emptyBatch : Bool) (found : UInt32) (r : Status × σ) :
    Status × Bool × UInt32 × σ :=
  if r.1.ok then (r.1, false, found + 1, r.2) else (r.1, emptyBatch, found, r.2)

/-- The `switch (tag)` of `Iterate`: hand one record to the handler, with the
status `s` of this turn (`OK` after a read or a retry).  Returns the new status,
`empty_batch`, `found` and handler state. -/
def dispatchRecord (h : WriteBatchHandler σ) (r : WriteBatchRecord) (s : Status)
    (emptyBatch : Bool) (found : UInt32) (st : σ) : Status × Bool × UInt32 × σ :=
  match r.tag with
  | .kTypeColumnFamilyValue | .kTypeValue =>
      afterCounted emptyBatch found (h.putCF r.columnFamily r.key r.value st)
  | .kTypeColumnFamilyDeletion | .kTypeDeletion =>
      afterCounted emptyBatch found (h.deleteCF r.columnFamily r.key st)
  | .kTypeColumnFamilySingleDeletion | .kTypeSingleDeletion =>
      afterCounted emptyBatch found (h.singleDeleteCF r.columnFamily r.key st)
  | .kTypeColumnFamilyRangeDeletion | .kTypeRangeDeletion =>
      afterCounted emptyBatch found (h.deleteRangeCF r.columnFamily r.key r.value st)
  | .kTypeColumnFamilyMerge | .kTypeMerge =>
      afterCounted emptyBatch found (h.mergeCF r.columnFamily r.key r.value st)
  -- `assert(false)`: the reader never returns these
  | .kTypeValueIndex | .kTypeMergeIndex => (s, emptyBatch, found, st)
  | .kTypeLogData => (s, false, found, h.logData r.blob st)
  | .kTypeBeginPrepareXID =>
      let st := h.markBeginPrepare false st
      let s := if !h.writeAfterCommit st then Status.NotSupported
          "WriteCommitted txn tag when write_after_commit_ is disabled (in WritePrepared/WriteUnprepared mode). If it is not due to corruption, the WAL must be emptied before changing the WritePolicy."
        else s
      let s := if h.writeBeforePrepare st then Status.NotSupported
          "WriteCommitted txn tag when write_before_prepare_ is enabled (in WriteUnprepared mode). If it is not due to corruption, the WAL must be emptied before changing the WritePolicy."
        else s
      (s, false, found, st)
  | .kTypeBeginPersistedPrepareXID =>
      let st := h.markBeginPrepare false st
      let s := if h.writeAfterCommit st then Status.NotSupported
          "WritePrepared/WriteUnprepared txn tag when write_after_commit_ is enabled (in default WriteCommitted mode). If it is not due to corruption, the WAL must be emptied before changing the WritePolicy."
        else s
      (s, false, found, st)
  | .kTypeBeginUnprepareXID =>
      let st := h.markBeginPrepare true st
      let s := if h.writeAfterCommit st then Status.NotSupported
          "WriteUnprepared txn tag when write_after_commit_ is enabled (in default WriteCommitted mode). If it is not due to corruption, the WAL must be emptied before changing the WritePolicy."
        else s
      let s := if !h.writeBeforePrepare st then Status.NotSupported
          "WriteUnprepared txn tag when write_before_prepare_ is disabled (in WriteCommitted/WritePrepared mode). If it is not due to corruption, the WAL must be emptied before changing the WritePolicy."
        else s
      (s, false, found, st)
  | .kTypeEndPrepareXID => (s, true, found, h.markEndPrepare r.xid st)
  | .kTypeCommitXID => (s, true, found, h.markCommit r.xid st)
  | .kTypeRollbackXID => (s, true, found, h.markRollback r.xid st)
  | .kTypeNoop => (s, true, found, h.markNoop emptyBatch st)

/-- The variables of `Iterate` that live from one turn of its loop to the
next. -/
structure IterateState (σ : Type) where
  input : Bytes
  s : Status
  record : WriteBatchRecord
  emptyBatch : Bool
  found : UInt32
  lastWasTryAgain : Bool
  handler : σ

/-- After the loop: a failed status is returned, then the count is checked
unless the handler stopped the iteration. -/
def iterateFinish (count : UInt32) (handlerContinue : Bool) (st : IterateState σ) : Status × σ :=
  if !st.s.ok then (st.s, st.handler)
  else if handlerContinue && st.found != count then
    (Status.Corruption "WriteBatch has wrong count", st.handler)
  else (Status.OK, st.handler)

/-- The `while` loop of `Iterate`.  A turn either reads the next record (and
shortens the input) or retries the last one after a `TryAgain` (at most once in
a row), which the measure accounts for. -/
def iterateLoop (h : WriteBatchHandler σ) (count : UInt32) (st : IterateState σ) : Status × σ :=
  if (st.s.ok && !st.input.isEmpty) || st.s.IsTryAgain then
    if !h.continue_ st.handler then iterateFinish count false st
    else if !st.s.IsTryAgain then
      match hin : st.input with
      -- unreachable: without a pending retry the loop runs only on a non-empty input
      | [] => iterateFinish count true st
      | tag :: rest =>
          match hread : readRecordFromWriteBatch tag rest with
          | .error e => (e, st.handler)
          | .ok (r, rest') =>
              let (s, emptyBatch, found, handler) :=
                dispatchRecord h r Status.OK st.emptyBatch st.found st.handler
              iterateLoop h count ⟨rest', s, r, emptyBatch, found, false, handler⟩
    else if st.lastWasTryAgain then
      (Status.Corruption
        "two consecutive TryAgain in WriteBatch handler; this is either a software bug or data corruption.",
        st.handler)
    else
      let (s, emptyBatch, found, handler) :=
        dispatchRecord h st.record Status.OK st.emptyBatch st.found st.handler
      iterateLoop h count ⟨st.input, s, st.record, emptyBatch, found, true, handler⟩
  else iterateFinish count true st
termination_by 2 * st.input.length + (if st.lastWasTryAgain then 0 else 1)
decreasing_by
  · have := readRecordFromWriteBatch_length hread
    simp only [hin, List.length_cons]
    split <;> omega
  · split <;> simp_all

/-- `WriteBatch::Iterate`: skip the header and run the loop from an `OK`
status. -/
def WriteBatch.iterate (b : WriteBatch) (h : WriteBatchHandler σ) (s0 : σ) : Status × σ :=
  if b.rep.length < kHeader then (Status.Corruption "malformed WriteBatch (too small)", s0)
  else iterateLoop h b.count ⟨b.rep.drop kHeader, Status.OK, { tag := .kTypeDeletion }, true, 0,
    false, s0⟩

/-! ## Content flags computed from the records -/

/-- `BatchContentClassifier`: a handler whose state is the flags of the records
it has seen.  It keeps the defaults of `WriteBatch::Handler` for `LogData`,
`MarkNoop` (whose status `Iterate` drops), `Continue`, `WriteAfterCommit`
(`true`) and `WriteBeforePrepare` (`false`). -/
def BatchContentClassifier : WriteBatchHandler UInt32 where
  putCF _ _ _ flags := (Status.OK, flags ||| ContentFlags.HAS_PUT)
  deleteCF _ _ flags := (Status.OK, flags ||| ContentFlags.HAS_DELETE)
  singleDeleteCF _ _ flags := (Status.OK, flags ||| ContentFlags.HAS_SINGLE_DELETE)
  deleteRangeCF _ _ _ flags := (Status.OK, flags ||| ContentFlags.HAS_DELETE_RANGE)
  mergeCF _ _ _ flags := (Status.OK, flags ||| ContentFlags.HAS_MERGE)
  logData _ flags := flags
  markBeginPrepare unprepare flags :=
    let flags := flags ||| ContentFlags.HAS_BEGIN_PREPARE
    if unprepare then flags ||| ContentFlags.HAS_BEGIN_UNPREPARE else flags
  markEndPrepare _ flags := flags ||| ContentFlags.HAS_END_PREPARE
  markNoop _ flags := flags
  markRollback _ flags := flags ||| ContentFlags.HAS_ROLLBACK
  markCommit _ flags := flags ||| ContentFlags.HAS_COMMIT
  continue_ _ := true
  writeAfterCommit _ := true
  writeBeforePrepare _ := false

namespace WriteBatch

/-- `WriteBatch::ComputeContentFlags`: deferred flags are computed by iterating
the batch with a `BatchContentClassifier`, whatever status `Iterate` returns,
and stored in the batch. -/
def ComputeContentFlags (b : WriteBatch) : UInt32 × WriteBatch :=
  let rv := b.contentFlags
  if rv &&& ContentFlags.DEFERRED != 0 then
    let rv := (b.iterate BatchContentClassifier 0).2
    (rv, { b with contentFlags := rv })
  else (rv, b)

/-- The `Has*` accessors: whether the content flags hold `flag`. -/
def hasContentFlag (b : WriteBatch) (flag : UInt32) : Bool :=
  b.ComputeContentFlags.1 &&& flag != 0

def HasPut (b : WriteBatch) : Bool := b.hasContentFlag ContentFlags.HAS_PUT
def HasDelete (b : WriteBatch) : Bool := b.hasContentFlag ContentFlags.HAS_DELETE
def HasSingleDelete (b : WriteBatch) : Bool := b.hasContentFlag ContentFlags.HAS_SINGLE_DELETE
def HasDeleteRange (b : WriteBatch) : Bool := b.hasContentFlag ContentFlags.HAS_DELETE_RANGE
def HasMerge (b : WriteBatch) : Bool := b.hasContentFlag ContentFlags.HAS_MERGE
def HasBeginPrepare (b : WriteBatch) : Bool := b.hasContentFlag ContentFlags.HAS_BEGIN_PREPARE
def HasEndPrepare (b : WriteBatch) : Bool := b.hasContentFlag ContentFlags.HAS_END_PREPARE
def HasCommit (b : WriteBatch) : Bool := b.hasContentFlag ContentFlags.HAS_COMMIT
def HasRollback (b : WriteBatch) : Bool := b.hasContentFlag ContentFlags.HAS_ROLLBACK

end WriteBatch

end HapDB
