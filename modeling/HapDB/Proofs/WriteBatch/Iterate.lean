import HapDB.Db.WriteBatch

/-!
# Iterating a batch replays the operations that built it

Build a batch from an empty one by a sequence of successful `Put`, `Delete`,
`SingleDelete`, `DeleteRange`, `Merge` and `PutLogData` calls, with keys, values
and blobs whose lengths fit a `uint32_t`.  Then `Iterate`, with any handler
whose callbacks succeed and which does not stop the iteration, calls exactly
one callback per operation, in order, with the operation's column family, key,
value, begin and end key or blob, and returns `OK`.

"Exactly one callback per operation, in order" is stated for every handler at
once: the handler's final state is its start state with the callbacks of the
operations applied one after the other (`WriteBatchOp.replay`).  Since the
handler is arbitrary, a handler that records its calls sees exactly the list of
operations.

## Strategy

* `applyOps_rep`: a successful run leaves `rep_` as the header, with the count
  of the counted operations, followed by the records of the operations
  (`WriteBatchOp.record`).  One step is `apply_rep`: every writer appends its
  record behind the count it has just bumped.
* `readRecordFromWriteBatch_record`: the reader takes one record off the front
  of any input and returns the fields the operation was written with.
* `iterateLoop_records`: the loop, run over the records of a list of
  operations, dispatches them in order; by induction on the list, one turn of
  the loop per operation.
-/

namespace HapDB

/-- The operations of the batch API that the round trip is about. -/
inductive WriteBatchOp where
  | put (columnFamilyId : UInt32) (key value : Bytes)
  | delete (columnFamilyId : UInt32) (key : Bytes)
  | singleDelete (columnFamilyId : UInt32) (key : Bytes)
  | deleteRange (columnFamilyId : UInt32) (beginKey endKey : Bytes)
  | merge (columnFamilyId : UInt32) (key value : Bytes)
  | putLogData (blob : Bytes)
  deriving DecidableEq, Repr

namespace WriteBatchOp

/-- The API call. -/
def apply : WriteBatchOp → WriteBatch → Status × WriteBatch
  | put cf key value, b => WriteBatchInternal.put b cf key value
  | delete cf key, b => WriteBatchInternal.delete b cf key
  | singleDelete cf key, b => WriteBatchInternal.singleDelete b cf key
  | deleteRange cf beginKey endKey, b => WriteBatchInternal.deleteRange b cf beginKey endKey
  | merge cf key value, b => WriteBatchInternal.merge b cf key value
  | putLogData blob, b => b.putLogData blob

/-- Every slice of the operation has a length that fits a `uint32_t`. -/
def Fits : WriteBatchOp → Prop
  | put _ key value => key.length < 2 ^ 32 ∧ value.length < 2 ^ 32
  | delete _ key => key.length < 2 ^ 32
  | singleDelete _ key => key.length < 2 ^ 32
  | deleteRange _ beginKey endKey => beginKey.length < 2 ^ 32 ∧ endKey.length < 2 ^ 32
  | merge _ key value => key.length < 2 ^ 32 ∧ value.length < 2 ^ 32
  | putLogData blob => blob.length < 2 ^ 32

instance (op : WriteBatchOp) : Decidable op.Fits := by
  cases op <;> unfold Fits <;> infer_instance

/-- The operations the header counts: all but `PutLogData`. -/
def IsCounted : WriteBatchOp → Bool
  | putLogData _ => false
  | _ => true

/-- The callback `Iterate` owes the operation. -/
def replay {σ : Type} (h : WriteBatchHandler σ) : WriteBatchOp → σ → σ
  | put cf key value, st => (h.putCF cf key value st).2
  | delete cf key, st => (h.deleteCF cf key st).2
  | singleDelete cf key, st => (h.singleDeleteCF cf key st).2
  | deleteRange cf beginKey endKey, st => (h.deleteRangeCF cf beginKey endKey st).2
  | merge cf key value, st => (h.mergeCF cf key value st).2
  | putLogData blob, st => h.logData blob st

/-- A length-prefixed slice. -/
def slice (value : Bytes) : Bytes := encodeVarint32 (UInt32.ofNat value.length) ++ value

/-- The tag of a counted record, with the column family id when it is not the
default one. -/
def cfPrefix (tag cfTag : ValueType) (columnFamilyId : UInt32) : Bytes :=
  if columnFamilyId = 0 then [tag.toByte] else cfTag.toByte :: encodeVarint32 columnFamilyId

/-- The bytes the API call appends. -/
def record : WriteBatchOp → Bytes
  | put cf key value => cfPrefix .kTypeValue .kTypeColumnFamilyValue cf ++ slice key ++ slice value
  | delete cf key => cfPrefix .kTypeDeletion .kTypeColumnFamilyDeletion cf ++ slice key
  | singleDelete cf key =>
      cfPrefix .kTypeSingleDeletion .kTypeColumnFamilySingleDeletion cf ++ slice key
  | deleteRange cf beginKey endKey =>
      cfPrefix .kTypeRangeDeletion .kTypeColumnFamilyRangeDeletion cf ++ slice beginKey ++
        slice endKey
  | merge cf key value => cfPrefix .kTypeMerge .kTypeColumnFamilyMerge cf ++ slice key ++ slice value
  | putLogData blob => ValueType.kTypeLogData.toByte :: slice blob

end WriteBatchOp

/-- Apply operations in order while they succeed: the first failing status, or
`OK` and the batch after all of them. -/
def applyOps : List WriteBatchOp → WriteBatch → Status × WriteBatch
  | [], b => (Status.OK, b)
  | op :: ops, b =>
      let r := op.apply b
      if r.1.ok then applyOps ops r.2 else r

/-- A handler whose callbacks succeed and which never stops the iteration. -/
structure WriteBatchHandler.WellBehaved {σ : Type} (h : WriteBatchHandler σ) : Prop where
  putCF_ok : ∀ cf key value st, (h.putCF cf key value st).1.ok = true
  deleteCF_ok : ∀ cf key st, (h.deleteCF cf key st).1.ok = true
  singleDeleteCF_ok : ∀ cf key st, (h.singleDeleteCF cf key st).1.ok = true
  deleteRangeCF_ok : ∀ cf beginKey endKey st, (h.deleteRangeCF cf beginKey endKey st).1.ok = true
  mergeCF_ok : ∀ cf key value st, (h.mergeCF cf key value st).1.ok = true
  continue_true : ∀ st, h.continue_ st = true

/-- The handler of the batch tests: every callback appends its operation to
the list it keeps, and the transaction markers are ignored. -/
def WriteBatchHandler.recorder : WriteBatchHandler (List WriteBatchOp) where
  putCF cf key value ops := (Status.OK, ops ++ [.put cf key value])
  deleteCF cf key ops := (Status.OK, ops ++ [.delete cf key])
  singleDeleteCF cf key ops := (Status.OK, ops ++ [.singleDelete cf key])
  deleteRangeCF cf beginKey endKey ops := (Status.OK, ops ++ [.deleteRange cf beginKey endKey])
  mergeCF cf key value ops := (Status.OK, ops ++ [.merge cf key value])
  logData blob ops := ops ++ [.putLogData blob]
  markBeginPrepare _ ops := ops
  markEndPrepare _ ops := ops
  markNoop _ ops := ops
  markRollback _ ops := ops
  markCommit _ ops := ops
  continue_ _ := true
  writeAfterCommit _ := true
  writeBeforePrepare _ := false

theorem WriteBatchHandler.recorder_wellBehaved : WriteBatchHandler.recorder.WellBehaved :=
  ⟨fun _ _ _ _ => rfl, fun _ _ _ => rfl, fun _ _ _ => rfl, fun _ _ _ _ => rfl,
    fun _ _ _ _ => rfl, fun _ => rfl⟩

/-- Replaying operations on the recorder appends them. -/
theorem WriteBatchHandler.foldl_replay_recorder (ops acc : List WriteBatchOp) :
    ops.foldl (fun st op => op.replay recorder st) acc = acc ++ ops := by
  induction ops generalizing acc with
  | nil => simp
  | cons op ops ih =>
      rw [List.foldl_cons, ih]
      cases op <;> simp [WriteBatchOp.replay, recorder]

end HapDB

namespace HapDB

/-! ## The writers append their record behind the count -/

namespace WriteBatch

variable {b : WriteBatch} {seq : Bytes} {n : UInt32} {records : Bytes}

theorem count_of_rep (hseq : seq.length = 8) (hrep : b.rep = seq ++ encodeFixed32 n ++ records) :
    b.count = n := by
  rw [count, hrep, List.append_assoc, List.drop_append_of_le_length (by omega),
    List.drop_eq_nil_of_le (by omega), List.nil_append, decodeFixed32_encodeFixed32]

theorem rep_setCount (hseq : seq.length = 8) (hrep : b.rep = seq ++ encodeFixed32 n ++ records)
    (m : UInt32) : (b.setCount m).rep = seq ++ encodeFixed32 m ++ records := by
  have htake : b.rep.take 8 = seq := by
    rw [hrep, List.append_assoc, List.take_append_of_le_length (by omega), ← hseq,
      List.take_length]
  have hdrop : b.rep.drop 12 = records := by
    rw [hrep, List.drop_append_of_le_length (by simp [hseq])]
    simp [hseq]
  simp only [setCount, htake, hdrop]

/-- A commit that succeeds keeps the batch as written. -/
theorem commit_of_ok {save : SavePoint} (hok : (commit save b).1.ok = true) :
    commit save b = (Status.OK, b) := by
  unfold commit at hok ⊢
  split at hok
  · simp at hok
  · rw [if_neg (by assumption)]

end WriteBatch

/-- Writing slices one after another appends their length-prefixed forms. -/
theorem foldl_putLengthPrefixedSlice (slices : List Bytes) (rep : Bytes) :
    slices.foldl putLengthPrefixedSlice rep = rep ++ (slices.map WriteBatchOp.slice).flatten := by
  induction slices generalizing rep with
  | nil => simp
  | cons value slices ih =>
      rw [List.foldl_cons, ih]
      simp [WriteBatchOp.slice]

namespace WriteBatchInternal

variable {b : WriteBatch} {seq : Bytes} {n : UInt32} {records : Bytes}

/-- **The shared writer.**  A counted record that commits bumps the count and
appends the tag (with the family id) and the slices. -/
theorem appendCountedRecord_rep (hseq : seq.length = 8)
    (hrep : b.rep = seq ++ encodeFixed32 n ++ records) {tag cfTag : ValueType} {cf : UInt32}
    {slices : List Bytes} {flag : UInt32}
    (hok : (appendCountedRecord b tag cfTag cf slices flag).1.ok = true) :
    (appendCountedRecord b tag cfTag cf slices flag).1 = Status.OK ∧
      (appendCountedRecord b tag cfTag cf slices flag).2.rep =
        seq ++ encodeFixed32 (n + 1) ++
          (records ++ WriteBatchOp.cfPrefix tag cfTag cf ++ (slices.map WriteBatchOp.slice).flatten) ∧
      (appendCountedRecord b tag cfTag cf slices flag).2.maxBytes = b.maxBytes := by
  unfold appendCountedRecord at hok ⊢
  rw [WriteBatch.commit_of_ok hok]
  have hcount : b.count = n := WriteBatch.count_of_rep hseq hrep
  have hset := WriteBatch.rep_setCount hseq hrep (n + 1)
  refine ⟨rfl, ?_, rfl⟩
  simp only [hcount, foldl_putLengthPrefixedSlice, hset, WriteBatchOp.cfPrefix]
  split <;> simp

end WriteBatchInternal

/-- **One writer.**  An operation that succeeds appends its record and bumps
the count if it is a counted one. -/
theorem WriteBatchOp.apply_rep {op : WriteBatchOp} {b : WriteBatch} {seq records : Bytes}
    {n : UInt32} (hseq : seq.length = 8) (hrep : b.rep = seq ++ encodeFixed32 n ++ records)
    (hok : (op.apply b).1.ok = true) :
    (op.apply b).1 = Status.OK ∧
      (op.apply b).2.rep =
        seq ++ encodeFixed32 (if op.IsCounted then n + 1 else n) ++ (records ++ op.record) ∧
      (op.apply b).2.maxBytes = b.maxBytes := by
  cases op with
  | put cf key value =>
      simp only [apply, WriteBatchInternal.put] at hok ⊢
      -- the length checks of `Put` pass, or the call would have failed
      by_cases hk : kMaxUint32 < key.length
      · simp [hk, Status.InvalidArgument, Status.ok] at hok
      by_cases hv : kMaxUint32 < value.length
      · simp [hk, hv, Status.InvalidArgument, Status.ok] at hok
      rw [if_neg hk, if_neg hv] at hok ⊢
      obtain ⟨hs, hr, hm⟩ := WriteBatchInternal.appendCountedRecord_rep hseq hrep hok
      refine ⟨hs, ?_, hm⟩
      simp [hr, record, IsCounted]
  | delete cf key =>
      obtain ⟨hs, hr, hm⟩ := WriteBatchInternal.appendCountedRecord_rep hseq hrep hok
      refine ⟨hs, ?_, hm⟩
      simp [apply, WriteBatchInternal.delete, hr, record, IsCounted]
  | singleDelete cf key =>
      obtain ⟨hs, hr, hm⟩ := WriteBatchInternal.appendCountedRecord_rep hseq hrep hok
      refine ⟨hs, ?_, hm⟩
      simp [apply, WriteBatchInternal.singleDelete, hr, record, IsCounted]
  | deleteRange cf beginKey endKey =>
      obtain ⟨hs, hr, hm⟩ := WriteBatchInternal.appendCountedRecord_rep hseq hrep hok
      refine ⟨hs, ?_, hm⟩
      simp [apply, WriteBatchInternal.deleteRange, hr, record, IsCounted]
  | merge cf key value =>
      simp only [apply, WriteBatchInternal.merge] at hok ⊢
      -- the length checks of `Merge` pass, or the call would have failed
      by_cases hk : kMaxUint32 < key.length
      · simp [hk, Status.InvalidArgument, Status.ok] at hok
      by_cases hv : kMaxUint32 < value.length
      · simp [hk, hv, Status.InvalidArgument, Status.ok] at hok
      rw [if_neg hk, if_neg hv] at hok ⊢
      obtain ⟨hs, hr, hm⟩ := WriteBatchInternal.appendCountedRecord_rep hseq hrep hok
      refine ⟨hs, ?_, hm⟩
      simp [hr, record, IsCounted]
  | putLogData blob =>
      simp only [apply, WriteBatch.putLogData] at hok ⊢
      rw [WriteBatch.commit_of_ok hok]
      refine ⟨rfl, ?_, rfl⟩
      simp [hrep, record, IsCounted, slice]

/-- **A run of writers.**  After a successful run the records of the
operations follow the header, whose count went up by the counted ones. -/
theorem applyOps_rep (ops : List WriteBatchOp) {b b' : WriteBatch} {seq records : Bytes}
    {n : UInt32} (hseq : seq.length = 8) (hrep : b.rep = seq ++ encodeFixed32 n ++ records)
    (hrun : applyOps ops b = (Status.OK, b')) :
    b'.rep = seq ++ encodeFixed32 (n + UInt32.ofNat (ops.countP WriteBatchOp.IsCounted)) ++
      (records ++ (ops.map WriteBatchOp.record).flatten) := by
  induction ops generalizing b n records with
  | nil =>
      simp only [applyOps, Prod.mk.injEq] at hrun
      obtain ⟨-, rfl⟩ := hrun
      simp [hrep]
  | cons op ops ih =>
      simp only [applyOps] at hrun
      split at hrun
      · rename_i hok
        obtain ⟨-, hr, -⟩ := WriteBatchOp.apply_rep hseq hrep hok
        have hcount : (if op.IsCounted then n + 1 else n) +
            UInt32.ofNat (ops.countP WriteBatchOp.IsCounted) =
            n + UInt32.ofNat ((op :: ops).countP WriteBatchOp.IsCounted) := by
          rw [List.countP_cons]
          split
          · simp [*, UInt32.ofNat_add]
            ac_rfl
          · simp [*]
        rw [ih hr hrun, hcount]
        simp
      · rename_i hfail
        rw [hrun] at hfail
        simp at hfail

/-- The header of an empty batch: a zero sequence and a zero count. -/
theorem rep_empty (maxBytes : ℕ) :
    (WriteBatch.empty maxBytes).rep = List.replicate 8 0 ++ encodeFixed32 0 ++ [] := by
  rfl

/-! ## The reader takes the records back -/

theorem readSlice_slice (value rest : Bytes) (msg : String) (hlen : value.length < 2 ^ 32) :
    readSlice (WriteBatchOp.slice value ++ rest) msg = .ok (value, rest) := by
  have h := getLengthPrefixedSlice_encode value rest hlen
  simp only [putLengthPrefixedSlice_eq, List.nil_append, List.append_assoc] at h
  simp only [readSlice, WriteBatchOp.slice, List.append_assoc, h]

theorem readColumnFamily_encode (cf : UInt32) (rest : Bytes) (msg : String) :
    readColumnFamily (encodeVarint32 cf ++ rest) msg = .ok (cf, rest) := by
  simp [readColumnFamily, getVarint32_encodeVarint32]

theorem readTwoSlices_slices (first second rest : Bytes) (msg : String)
    (h1 : first.length < 2 ^ 32) (h2 : second.length < 2 ^ 32) :
    readTwoSlices (WriteBatchOp.slice first ++ (WriteBatchOp.slice second ++ rest)) msg =
      .ok (first, second, rest) := by
  simp only [readTwoSlices, readSlice_slice _ _ _ h1, Except.bind_ok, readSlice_slice _ _ _ h2]
  rfl

namespace WriteBatchOp

/-- The record `ReadRecordFromWriteBatch` returns for the operation. -/
def decoded : WriteBatchOp → WriteBatchRecord
  | put cf key value =>
      { tag := if cf = 0 then .kTypeValue else .kTypeColumnFamilyValue, columnFamily := cf, key,
        value }
  | delete cf key =>
      { tag := if cf = 0 then .kTypeDeletion else .kTypeColumnFamilyDeletion, columnFamily := cf,
        key }
  | singleDelete cf key =>
      { tag := if cf = 0 then .kTypeSingleDeletion else .kTypeColumnFamilySingleDeletion,
        columnFamily := cf, key }
  | deleteRange cf beginKey endKey =>
      { tag := if cf = 0 then .kTypeRangeDeletion else .kTypeColumnFamilyRangeDeletion,
        columnFamily := cf, key := beginKey, value := endKey }
  | merge cf key value =>
      { tag := if cf = 0 then .kTypeMerge else .kTypeColumnFamilyMerge, columnFamily := cf, key,
        value }
  | putLogData blob => { tag := .kTypeLogData, blob }

/-- A counted record starts with its tag byte, followed by the family id when
it is not the default one. -/
theorem cfPrefix_append (tag cfTag : ValueType) (cf : UInt32) (rest : Bytes) :
    cfPrefix tag cfTag cf ++ rest =
      (if cf = 0 then tag else cfTag).toByte :: (if cf = 0 then rest else encodeVarint32 cf ++ rest) := by
  unfold cfPrefix
  split <;> simp

end WriteBatchOp

/-- **The reader inverts the writers.**  In front of any input, the record of an
operation is a tag byte and a body from which `ReadRecordFromWriteBatch` takes
back the operation's fields, leaving the input behind the record. -/
theorem readRecordFromWriteBatch_record (op : WriteBatchOp) (hfit : op.Fits) (rest : Bytes) :
    ∃ tag body, op.record ++ rest = tag :: body ∧
      readRecordFromWriteBatch tag body = .ok (op.decoded, rest) := by
  cases op with
  | put cf key value =>
      obtain ⟨hk, hv⟩ := hfit
      simp only [WriteBatchOp.record, List.append_assoc, WriteBatchOp.cfPrefix_append]
      refine ⟨_, _, rfl, ?_⟩
      by_cases hcf : cf = 0 <;>
        simp [hcf, readRecordFromWriteBatch, readColumnFamily_encode,
          readTwoSlices_slices _ _ _ _ hk hv, WriteBatchOp.decoded]
  | delete cf key =>
      simp only [WriteBatchOp.record, WriteBatchOp.cfPrefix_append]
      refine ⟨_, _, rfl, ?_⟩
      by_cases hcf : cf = 0 <;>
        simp [hcf, readRecordFromWriteBatch, readColumnFamily_encode, readSlice_slice _ _ _ hfit,
          WriteBatchOp.decoded]
  | singleDelete cf key =>
      simp only [WriteBatchOp.record, WriteBatchOp.cfPrefix_append]
      refine ⟨_, _, rfl, ?_⟩
      by_cases hcf : cf = 0 <;>
        simp [hcf, readRecordFromWriteBatch, readColumnFamily_encode, readSlice_slice _ _ _ hfit,
          WriteBatchOp.decoded]
  | deleteRange cf beginKey endKey =>
      obtain ⟨hb, he⟩ := hfit
      simp only [WriteBatchOp.record, List.append_assoc, WriteBatchOp.cfPrefix_append]
      refine ⟨_, _, rfl, ?_⟩
      by_cases hcf : cf = 0 <;>
        simp [hcf, readRecordFromWriteBatch, readColumnFamily_encode,
          readTwoSlices_slices _ _ _ _ hb he, WriteBatchOp.decoded]
  | merge cf key value =>
      obtain ⟨hk, hv⟩ := hfit
      simp only [WriteBatchOp.record, List.append_assoc, WriteBatchOp.cfPrefix_append]
      refine ⟨_, _, rfl, ?_⟩
      by_cases hcf : cf = 0 <;>
        simp [hcf, readRecordFromWriteBatch, readColumnFamily_encode,
          readTwoSlices_slices _ _ _ _ hk hv, WriteBatchOp.decoded]
  | putLogData blob =>
      refine ⟨_, _, rfl, ?_⟩
      simp [readRecordFromWriteBatch, readSlice_slice _ _ _ hfit, WriteBatchOp.decoded]

/-! ## The loop dispatches the records in order -/

theorem Status.IsTryAgain_eq_false {s : Status} (hs : s.ok = true) : s.IsTryAgain = false := by
  rw [Status.ok_iff] at hs
  simp [Status.IsTryAgain, hs]

variable {σ : Type}

/-- **One dispatch.**  Handed the record of an operation, a well-behaved
handler makes the operation's callback, the status stays ok, the batch is no
longer empty, and `found` counts the record if the header counts it. -/
theorem dispatchRecord_decoded {h : WriteBatchHandler σ} (hh : h.WellBehaved) (op : WriteBatchOp)
    (emptyBatch : Bool) (found : UInt32) (st : σ) :
    ∃ s, s.ok = true ∧ dispatchRecord h op.decoded Status.OK emptyBatch found st =
      (s, false, found + (if op.IsCounted then 1 else 0), op.replay h st) := by
  cases op with
  | put cf key value =>
      refine ⟨_, hh.putCF_ok cf key value st, ?_⟩
      by_cases hcf : cf = 0 <;>
        simp [hcf, dispatchRecord, WriteBatchOp.decoded, afterCounted, hh.putCF_ok,
          WriteBatchOp.IsCounted, WriteBatchOp.replay]
  | delete cf key =>
      refine ⟨_, hh.deleteCF_ok cf key st, ?_⟩
      by_cases hcf : cf = 0 <;>
        simp [hcf, dispatchRecord, WriteBatchOp.decoded, afterCounted, hh.deleteCF_ok,
          WriteBatchOp.IsCounted, WriteBatchOp.replay]
  | singleDelete cf key =>
      refine ⟨_, hh.singleDeleteCF_ok cf key st, ?_⟩
      by_cases hcf : cf = 0 <;>
        simp [hcf, dispatchRecord, WriteBatchOp.decoded, afterCounted, hh.singleDeleteCF_ok,
          WriteBatchOp.IsCounted, WriteBatchOp.replay]
  | deleteRange cf beginKey endKey =>
      refine ⟨_, hh.deleteRangeCF_ok cf beginKey endKey st, ?_⟩
      by_cases hcf : cf = 0 <;>
        simp [hcf, dispatchRecord, WriteBatchOp.decoded, afterCounted, hh.deleteRangeCF_ok,
          WriteBatchOp.IsCounted, WriteBatchOp.replay]
  | merge cf key value =>
      refine ⟨_, hh.mergeCF_ok cf key value st, ?_⟩
      by_cases hcf : cf = 0 <;>
        simp [hcf, dispatchRecord, WriteBatchOp.decoded, afterCounted, hh.mergeCF_ok,
          WriteBatchOp.IsCounted, WriteBatchOp.replay]
  | putLogData blob =>
      exact ⟨_, Status.ok_OK, by simp [dispatchRecord, WriteBatchOp.decoded, WriteBatchOp.IsCounted,
        WriteBatchOp.replay]⟩

/-- **One turn of the loop.**  With an ok status and a handler that goes on,
the loop reads the next record, dispatches it and goes round again on the rest
of the input. -/
theorem iterateLoop_read {h : WriteBatchHandler σ} {count : UInt32} {st : IterateState σ}
    {tag : UInt8} {body rest : Bytes} {r : WriteBatchRecord}
    (hs : st.s.ok = true) (hcont : h.continue_ st.handler = true)
    (hin : st.input = tag :: body) (hread : readRecordFromWriteBatch tag body = .ok (r, rest)) :
    iterateLoop h count st =
      let (s, emptyBatch, found, handler) :=
        dispatchRecord h r Status.OK st.emptyBatch st.found st.handler
      iterateLoop h count ⟨rest, s, r, emptyBatch, found, false, handler⟩ := by
  obtain ⟨input, s, record, emptyBatch, found, last, handler⟩ := st
  dsimp only at hs hcont hin ⊢
  subst hin
  have hretry := Status.IsTryAgain_eq_false hs
  rw [iterateLoop, if_pos (by simp [hs]), if_neg (by simp [hcont]), if_pos (by simp [hretry])]
  dsimp only
  split
  · rename_i e heq
    rw [hread] at heq
    cases heq
  · rename_i r' rest' heq
    rw [hread] at heq
    cases heq
    rfl

/-- The loop ends on an empty input with the count check of `iterateFinish`. -/
theorem iterateLoop_empty {h : WriteBatchHandler σ} {count : UInt32} {st : IterateState σ}
    (hs : st.s.ok = true) (hin : st.input = []) :
    iterateLoop h count st =
      (if st.found = count then Status.OK else Status.Corruption "WriteBatch has wrong count",
        st.handler) := by
  rw [iterateLoop, if_neg (by simp [hin, Status.IsTryAgain_eq_false hs])]
  by_cases hf : st.found = count <;> simp [iterateFinish, hs, hf]

/-- **The run.**  Over the records of a list of operations, the loop makes
their callbacks in order and ends on the count check, with `found` raised by
the counted operations.  By induction on the list: one turn per operation. -/
theorem iterateLoop_records {h : WriteBatchHandler σ} (hh : h.WellBehaved) (count : UInt32)
    (ops : List WriteBatchOp) (hfit : ∀ op ∈ ops, op.Fits) (st : IterateState σ)
    (hs : st.s.ok = true) (hin : st.input = (ops.map WriteBatchOp.record).flatten) :
    iterateLoop h count st =
      (if st.found + UInt32.ofNat (ops.countP WriteBatchOp.IsCounted) = count then Status.OK
        else Status.Corruption "WriteBatch has wrong count",
        ops.foldl (fun acc op => op.replay h acc) st.handler) := by
  induction ops generalizing st with
  | nil =>
      simp only [List.map_nil, List.flatten_nil] at hin
      simp [iterateLoop_empty hs hin]
  | cons op ops ih =>
      obtain ⟨tag, body, hcons, hread⟩ :=
        readRecordFromWriteBatch_record op (hfit op List.mem_cons_self)
          (ops.map WriteBatchOp.record).flatten
      obtain ⟨s', hs', hdispatch⟩ :=
        dispatchRecord_decoded hh op st.emptyBatch st.found st.handler
      rw [List.map_cons, List.flatten_cons, hcons] at hin
      rw [iterateLoop_read hs (hh.continue_true _) hin hread, hdispatch]
      dsimp only
      -- the next turn starts on the records of the remaining operations
      rw [ih (fun op hop => hfit op (List.mem_cons_of_mem _ hop))
        ⟨_, s', op.decoded, false, _, false, _⟩ hs' rfl]
      have hcount : st.found + (if op.IsCounted then 1 else 0) +
          UInt32.ofNat (ops.countP WriteBatchOp.IsCounted) =
          st.found + UInt32.ofNat ((op :: ops).countP WriteBatchOp.IsCounted) := by
        rw [List.countP_cons]
        split
        · simp [*, UInt32.ofNat_add]
          ac_rfl
        · simp [*]
      simp only [hcount, List.foldl_cons]

/-! ## The round trip -/

/-- A batch whose records are those of a list of operations, behind a header
that counts them, iterates to the operations' callbacks made in order. -/
theorem iterate_of_rep {b : WriteBatch} {seq : Bytes} (hseq : seq.length = 8)
    (ops : List WriteBatchOp) (hfit : ∀ op ∈ ops, op.Fits)
    (hrep : b.rep = seq ++ encodeFixed32 (UInt32.ofNat (ops.countP WriteBatchOp.IsCounted)) ++
      (ops.map WriteBatchOp.record).flatten)
    (h : WriteBatchHandler σ) (hh : h.WellBehaved) (s0 : σ) :
    b.iterate h s0 = (Status.OK, ops.foldl (fun st op => op.replay h st) s0) := by
  have hcount := WriteBatch.count_of_rep hseq hrep
  -- the loop starts right after the twelve header bytes, on the records
  have hbody : b.rep.drop kHeader = (ops.map WriteBatchOp.record).flatten := by
    rw [hrep]
    exact List.drop_left' (by simp [hseq, kHeader])
  have hlen : ¬ b.rep.length < kHeader := by
    simp only [hrep, List.length_append, length_encodeFixed32, hseq, kHeader]
    omega
  rw [WriteBatch.iterate, if_neg hlen,
    iterateLoop_records hh _ ops hfit _ Status.ok_OK hbody]
  simp [hcount]

/-- **Round trip.**  A batch built from an empty one by successful writes
iterates, with any well-behaved handler, to `OK` and the handler state of the
writes' callbacks made in order; its header counts the counted writes. -/
theorem iterate_replays_batch_operations (ops : List WriteBatchOp) (maxBytes : ℕ)
    (b : WriteBatch) (hfit : ∀ op ∈ ops, op.Fits)
    (hrun : applyOps ops (WriteBatch.empty maxBytes) = (Status.OK, b))
    (h : WriteBatchHandler σ) (hh : h.WellBehaved) (s0 : σ) :
    b.iterate h s0 = (Status.OK, ops.foldl (fun st op => op.replay h st) s0) ∧
      b.count = UInt32.ofNat (ops.countP WriteBatchOp.IsCounted) := by
  have hrep := applyOps_rep ops (by simp) (rep_empty maxBytes) hrun
  rw [zero_add, List.nil_append] at hrep
  exact ⟨iterate_of_rep (by simp) ops hfit hrep h hh s0, WriteBatch.count_of_rep (by simp) hrep⟩

theorem iterate_replays_put_and_log_data :
    let ops := [WriteBatchOp.put 1 [7] [8, 9], .delete 0 [7], .putLogData [5]]
    let b := (applyOps ops (WriteBatch.empty 0)).2
    b.iterate WriteBatchHandler.recorder [] =
        (Status.OK, ops.foldl (fun st op => op.replay WriteBatchHandler.recorder st) []) ∧
      b.count = UInt32.ofNat (ops.countP WriteBatchOp.IsCounted) :=
  iterate_replays_batch_operations _ 0 _ (by decide) rfl WriteBatchHandler.recorder
    WriteBatchHandler.recorder_wellBehaved []

end HapDB
