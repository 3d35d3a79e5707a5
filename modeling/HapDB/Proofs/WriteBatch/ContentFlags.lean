import HapDB.Proofs.WriteBatch.Iterate

/-!
# Content flags computed from the bytes of a batch

A `WriteBatch` keeps its content flags eagerly: every writer ORs its flag in
(`HAS_PUT`, ..., `HAS_BEGIN_PREPARE`).  A batch rebuilt from bytes,
`WriteBatch(rep)`, starts `DEFERRED`, and its first `Has*` call replays the
bytes through `Iterate` with a `BatchContentClassifier`.  The two answers are
compared here.

* `hasContentFlag_ofRep_of_applyOps`: for batches of the plain API (`Put`,
  `Delete`, `SingleDelete`, `DeleteRange`, `Merge`, `PutLogData`) they agree.
  The replay lemma of `Proofs/WriteBatch/Iterate` gives the classifier's
  flags as a fold over the writers (`WriteBatchOp.replay_classifier`), and
  `applyOps_contentFlags` gives the eager flags as the same fold.
* `ComputeContentFlags_ofRep_persisted_prepare`: they do not agree once
  `MarkEndPrepare` has run with `write_after_commit = false`.  The begin
  marker is then `kTypeBeginPersistedPrepareXID`.  The classifier keeps the
  handler's default `WriteAfterCommit() = true`, so `Iterate` stops at that
  marker with `NotSupported`, and `ComputeContentFlags` keeps the flags seen
  so far, whatever status comes back: `HAS_BEGIN_PREPARE` alone.
  `contentFlags_lost_after_persisted_prepare` shows it on a batch with one
  `Put`.
-/

namespace HapDB

/-! ## The flag of each writer -/

namespace WriteBatchOp

/-- The content flag a writer sets; `PutLogData` sets none. -/
def flag : WriteBatchOp → UInt32
  | put .. => ContentFlags.HAS_PUT
  | delete .. => ContentFlags.HAS_DELETE
  | singleDelete .. => ContentFlags.HAS_SINGLE_DELETE
  | deleteRange .. => ContentFlags.HAS_DELETE_RANGE
  | merge .. => ContentFlags.HAS_MERGE
  | putLogData _ => 0

theorem flag_and_DEFERRED (op : WriteBatchOp) : op.flag &&& ContentFlags.DEFERRED = 0 := by
  cases op <;> simp only [flag] <;> decide

/-- A writer that succeeds adds its flag. -/
theorem contentFlags_apply {op : WriteBatchOp} {b : WriteBatch} (hok : (op.apply b).1.ok = true) :
    (op.apply b).2.contentFlags = b.contentFlags ||| op.flag := by
  cases op with
  | put cf key value =>
      simp only [apply, WriteBatchInternal.put] at hok ⊢
      split_ifs at hok ⊢
      · simp [Status.InvalidArgument, Status.ok] at hok
      · simp [Status.InvalidArgument, Status.ok] at hok
      · unfold WriteBatchInternal.appendCountedRecord at hok ⊢
        rw [WriteBatch.commit_of_ok hok]
        rfl
  | delete cf key =>
      simp only [apply, WriteBatchInternal.delete, WriteBatchInternal.appendCountedRecord] at hok ⊢
      rw [WriteBatch.commit_of_ok hok]
      rfl
  | singleDelete cf key =>
      simp only [apply, WriteBatchInternal.singleDelete, WriteBatchInternal.appendCountedRecord] at hok ⊢
      rw [WriteBatch.commit_of_ok hok]
      rfl
  | deleteRange cf beginKey endKey =>
      simp only [apply, WriteBatchInternal.deleteRange, WriteBatchInternal.appendCountedRecord] at hok ⊢
      rw [WriteBatch.commit_of_ok hok]
      rfl
  | merge cf key value =>
      simp only [apply, WriteBatchInternal.merge] at hok ⊢
      split_ifs at hok ⊢
      · simp [Status.InvalidArgument, Status.ok] at hok
      · simp [Status.InvalidArgument, Status.ok] at hok
      · unfold WriteBatchInternal.appendCountedRecord at hok ⊢
        rw [WriteBatch.commit_of_ok hok]
        rfl
  | putLogData blob =>
      simp only [apply, WriteBatch.putLogData] at hok ⊢
      rw [WriteBatch.commit_of_ok hok, flag, UInt32.or_zero]

/-- The classifier's callback for a writer's record adds the writer's flag. -/
theorem replay_classifier (op : WriteBatchOp) (flags : UInt32) :
    op.replay BatchContentClassifier flags = flags ||| op.flag := by
  cases op <;> simp [replay, BatchContentClassifier, flag]

end WriteBatchOp

theorem BatchContentClassifier_wellBehaved : BatchContentClassifier.WellBehaved :=
  ⟨fun _ _ _ _ => rfl, fun _ _ _ => rfl, fun _ _ _ => rfl, fun _ _ _ _ => rfl,
    fun _ _ _ _ => rfl, fun _ => rfl⟩

/-- After a successful run of writers the content flags are those of the
writers, added to the flags the batch had. -/
theorem applyOps_contentFlags (ops : List WriteBatchOp) {b b' : WriteBatch}
    (hrun : applyOps ops b = (Status.OK, b')) :
    b'.contentFlags = ops.foldl (fun flags op => flags ||| op.flag) b.contentFlags := by
  induction ops generalizing b with
  | nil =>
      simp only [applyOps, Prod.mk.injEq] at hrun
      rw [← hrun.2]
      rfl
  | cons op ops ih =>
      simp only [applyOps] at hrun
      split at hrun
      · rename_i hok
        rw [ih hrun, WriteBatchOp.contentFlags_apply hok, List.foldl_cons]
      · rename_i hfail
        rw [hrun] at hfail
        simp at hfail

/-- Flags added by writers never hold `DEFERRED`. -/
theorem foldl_flag_and_DEFERRED (ops : List WriteBatchOp) {flags : UInt32}
    (h : flags &&& ContentFlags.DEFERRED = 0) :
    ops.foldl (fun flags op => flags ||| op.flag) flags &&& ContentFlags.DEFERRED = 0 := by
  induction ops generalizing flags with
  | nil => exact h
  | cons op ops ih =>
      apply ih
      have hdist : (flags ||| op.flag) &&& ContentFlags.DEFERRED =
          (flags &&& ContentFlags.DEFERRED) ||| (op.flag &&& ContentFlags.DEFERRED) := by
        apply UInt32.toBitVec_inj.mp
        simp only [UInt32.toBitVec_and, UInt32.toBitVec_or, BitVec.and_or_distrib_right]
      rw [hdist, h, op.flag_and_DEFERRED, UInt32.or_zero]

namespace WriteBatch

/-- `Iterate` reads the bytes of the batch only. -/
theorem iterate_congr {b c : WriteBatch} (hrep : b.rep = c.rep) {σ : Type}
    (h : WriteBatchHandler σ) (s0 : σ) : b.iterate h s0 = c.iterate h s0 := by
  simp only [WriteBatch.iterate, count, hrep]

/-- Flags without `DEFERRED` are the answer of `ComputeContentFlags`. -/
theorem ComputeContentFlags_of_not_deferred {b : WriteBatch}
    (h : b.contentFlags &&& ContentFlags.DEFERRED = 0) : b.ComputeContentFlags.1 = b.contentFlags := by
  simp [ComputeContentFlags, h]

end WriteBatch

/-- **The plain API agrees.**  A batch built from an empty one by successful
`Put`, `Delete`, `SingleDelete`, `DeleteRange`, `Merge` and `PutLogData` calls
answers every `Has*` question as the batch `WriteBatch(rep)` over its bytes:
the classifier sees each writer's record and adds the writer's flag. -/
theorem hasContentFlag_ofRep_of_applyOps (ops : List WriteBatchOp) (maxBytes : ℕ) (b : WriteBatch)
    (hfit : ∀ op ∈ ops, op.Fits) (hrun : applyOps ops (WriteBatch.empty maxBytes) = (Status.OK, b))
    (flag : UInt32) :
    (WriteBatch.ofRep b.rep).hasContentFlag flag = b.hasContentFlag flag := by
  have heager : b.contentFlags = ops.foldl (fun flags op => flags ||| op.flag) 0 :=
    applyOps_contentFlags ops hrun
  have hnot : b.contentFlags &&& ContentFlags.DEFERRED = 0 := by
    rw [heager]
    exact foldl_flag_and_DEFERRED ops (by decide)
  -- the deferred batch iterates the same bytes with the classifier
  have hlazy : (WriteBatch.ofRep b.rep).ComputeContentFlags.1 =
      ops.foldl (fun flags op => flags ||| op.flag) 0 := by
    have hiter := (iterate_replays_batch_operations ops maxBytes b hfit hrun BatchContentClassifier
      BatchContentClassifier_wellBehaved 0).1
    have hdeferred : (ContentFlags.DEFERRED &&& ContentFlags.DEFERRED != 0) = true := by decide
    simp only [WriteBatch.ComputeContentFlags, WriteBatch.ofRep, hdeferred, if_true]
    have hsame : (WriteBatch.ofRep b.rep).iterate BatchContentClassifier 0 =
        b.iterate BatchContentClassifier 0 := WriteBatch.iterate_congr rfl _ _
    simp only [WriteBatch.ofRep] at hsame
    rw [hsame, hiter]
    simp only [WriteBatchOp.replay_classifier]
  simp only [WriteBatch.hasContentFlag, hlazy, WriteBatch.ComputeContentFlags_of_not_deferred hnot,
    heager]

/-- `Iterate` stops at a failed status that asks for no retry. -/
theorem iterateLoop_of_not_ok {σ : Type} {h : WriteBatchHandler σ} {count : UInt32}
    {st : IterateState σ} (hs : st.s.ok = false) (hretry : st.s.IsTryAgain = false) :
    iterateLoop h count st = (st.s, st.handler) := by
  rw [iterateLoop, if_neg (by simp [hs, hretry])]
  simp [iterateFinish, hs]

/-- **Where the flags are lost.**  A deferred batch whose first record is the
begin marker of a write-prepared transaction: the classifier keeps the
default `WriteAfterCommit() = true`, so `Iterate` stops at the marker with
`NotSupported`, and the flags are the marker's alone, whatever follows it. -/
theorem ComputeContentFlags_ofRep_persisted_prepare (header rest : Bytes)
    (hheader : header.length = kHeader) :
    (WriteBatch.ofRep (header ++ ValueType.kTypeBeginPersistedPrepareXID.toByte :: rest)).ComputeContentFlags.1 =
      ContentFlags.HAS_BEGIN_PREPARE := by
  have hdeferred : (ContentFlags.DEFERRED &&& ContentFlags.DEFERRED != 0) = true := by decide
  have hlen : ¬(header ++ ValueType.kTypeBeginPersistedPrepareXID.toByte :: rest).length < kHeader := by
    simp [hheader]
  have hbody : (header ++ ValueType.kTypeBeginPersistedPrepareXID.toByte :: rest).drop kHeader =
      ValueType.kTypeBeginPersistedPrepareXID.toByte :: rest := by
    rw [← hheader, List.drop_left]
  have hread : readRecordFromWriteBatch ValueType.kTypeBeginPersistedPrepareXID.toByte rest =
      .ok ({ tag := .kTypeBeginPersistedPrepareXID }, rest) := by
    simp [readRecordFromWriteBatch, pure, Except.pure]
  simp only [WriteBatch.ComputeContentFlags, WriteBatch.ofRep, hdeferred, if_true,
    WriteBatch.iterate, hlen, if_false]
  rw [iterateLoop_read Status.ok_OK rfl hbody hread]
  -- the marker's callback, then `NotSupported`: the loop is over
  simp only [dispatchRecord, BatchContentClassifier]
  rw [iterateLoop_of_not_ok rfl rfl]
  exact UInt32.zero_or

/-- The batch that `WriteBatch(rep)` rebuilds from the bytes of such a batch
answers every `Has*` by the begin marker alone. -/
theorem hasContentFlag_ofRep_persisted_prepare (header rest : Bytes)
    (hheader : header.length = kHeader) (flag : UInt32) :
    (WriteBatch.ofRep (header ++ ValueType.kTypeBeginPersistedPrepareXID.toByte :: rest)).hasContentFlag flag =
      (ContentFlags.HAS_BEGIN_PREPARE &&& flag != 0) := by
  rw [WriteBatch.hasContentFlag, ComputeContentFlags_ofRep_persisted_prepare header rest hheader]

/-- A prepared batch of a write-prepared transaction: a noop, one `Put`, then
`MarkEndPrepare` with `write_after_commit = false`. -/
def persistedPrepareBatch : WriteBatch :=
  (WriteBatchInternal.markEndPrepare
    (WriteBatchInternal.put (WriteBatchInternal.insertNoop (WriteBatch.empty 0)).2 0 [1] [2]).2
      [9] false false).2

/-- The prepared batch has a `Put` and an end marker; the batch rebuilt from
its bytes has neither. -/
theorem contentFlags_lost_after_persisted_prepare :
    persistedPrepareBatch.HasPut = true ∧
      (WriteBatch.ofRep persistedPrepareBatch.rep).HasPut = false ∧
      persistedPrepareBatch.HasEndPrepare = true ∧
      (WriteBatch.ofRep persistedPrepareBatch.rep).HasEndPrepare = false := by
  -- the noop at offset 12 has become the persisted-prepare marker
  have hrep : persistedPrepareBatch.rep = persistedPrepareBatch.rep.take kHeader ++
      ValueType.kTypeBeginPersistedPrepareXID.toByte :: persistedPrepareBatch.rep.drop 13 := by
    rfl
  have hheader : (persistedPrepareBatch.rep.take kHeader).length = kHeader := by rfl
  refine ⟨by decide, ?_, by decide, ?_⟩
  · rw [WriteBatch.HasPut, hrep, hasContentFlag_ofRep_persisted_prepare _ _ hheader]
    decide
  · rw [WriteBatch.HasEndPrepare, hrep, hasContentFlag_ofRep_persisted_prepare _ _ hheader]
    decide

end HapDB
