import HapDB.Db.Builder

/-!
# What a partitioned flush reports

`finish_output_blob_sst` keeps the outcome of finishing, syncing and closing a
blob file in a `status` of its own, and returns the flush's status `s`.  Its
two callers take what it returns: the rollover in `trans_to_separate_partition`
as the separation's status, the final loop over the writers as the new `s`.
So a blob file's failure reaches neither, and the flush's status comes from
creating files, from the compaction iterator and from the key SST alone.

* `finishOutputBlobSst_fst`: the lambda returns `s`; no stage changes `s`
  (`s_finishOutputBlobSst`, `s_openOutputBlob`, `s_finishWriters`, ...).
* `addEntries_of_ok`: when every file is created, the output loop ends with OK.
* `BuildPartitionTable_ok_of_files_ok`: a flush whose file creations and key
  SST succeed returns OK, whatever its blob files' `Finish`, `Sync` and `Close`
  returned; `blob_sync_failures_flush_ok` is such a flush.
-/

namespace HapDB

namespace BuildPartitionTable

open FlushState

variable (env : FlushEnv)

theorem finishOutputBlobSst_fst (st : FlushState) (w : ℕ) :
    (finishOutputBlobSst env st w).1 = st.s := by
  unfold finishOutputBlobSst
  split
  · rfl
  · dsimp only
    split <;> rfl

@[simp] theorem s_finishOutputBlobSst (st : FlushState) (w : ℕ) :
    (finishOutputBlobSst env st w).2.s = st.s := by
  unfold finishOutputBlobSst
  split
  · rfl
  · dsimp only
    split <;> rfl

@[simp] theorem s_writerSlot (st : FlushState) (k : KeyType) : (st.writerSlot k).2.s = st.s := by
  unfold writerSlot
  split
  · rfl
  · rfl
  · dsimp only
    split <;> rfl
  · rfl

theorem rollOver_of_ok {st : FlushState} (hs : st.s = Status.OK) (w : ℕ) :
    (rollOver env st w).1 = Status.OK ∧ (rollOver env st w).2.s = Status.OK := by
  unfold rollOver
  split
  · split
    · exact ⟨(finishOutputBlobSst_fst env st w).trans hs, (s_finishOutputBlobSst env st w).trans hs⟩
    · exact ⟨rfl, hs⟩
  · exact ⟨rfl, hs⟩

@[simp] theorem s_openOutputBlob (st : FlushState) (w : ℕ) (pathId : UInt32) :
    (openOutputBlob env st w pathId).2.s = st.s := by
  unfold openOutputBlob
  dsimp only
  split <;> rfl

theorem openOutputBlob_fst (st : FlushState) (w : ℕ) (pathId : UInt32) :
    (openOutputBlob env st w pathId).1 = env.newWritableFile st.nextFileNumber := by
  unfold openOutputBlob
  dsimp only
  split <;> rfl

theorem addToBlob_fst (st : FlushState) (w : ℕ) (key value : Bytes) (status : Status) :
    (addToBlob st w key value status).1 = status := by
  unfold addToBlob
  split
  · split <;> rfl
  · rfl

@[simp] theorem s_addToBlob (st : FlushState) (w : ℕ) (key value : Bytes) (status : Status) :
    (addToBlob st w key value status).2.2.s = st.s := by
  unfold addToBlob
  split
  · split <;> rfl
  · rfl

theorem transToSeparatePartition_of_ok (hfile : ∀ n, env.newWritableFile n = Status.OK)
    {st : FlushState} (hs : st.s = Status.OK) (pathId : UInt32) (key value : Bytes) :
    (transToSeparatePartition env st pathId key value).1 = Status.OK ∧
      (transToSeparatePartition env st pathId key value).2.2.s = Status.OK := by
  unfold transToSeparatePartition
  dsimp only
  -- the writer's slot, then the state after the writer has rolled over
  have hs₁ := (s_writerSlot st (CalculateKeyType env key)).trans hs
  obtain ⟨hroll, hs₂⟩ := rollOver_of_ok env hs₁ (st.writerSlot (CalculateKeyType env key)).1
  split
  · rw [addToBlob_fst, openOutputBlob_fst, hfile, s_addToBlob, s_openOutputBlob, hs₂]
    exact ⟨rfl, rfl⟩
  · rw [addToBlob_fst, s_addToBlob]
    exact ⟨hroll, hs₂⟩

theorem prepareOutput_of_ok (hfile : ∀ n, env.newWritableFile n = Status.OK)
    {st : FlushState} (hs : st.s = Status.OK) (pathId : UInt32) (key value : Bytes) :
    (prepareOutput env pathId st key value).1 = Status.OK ∧
      (prepareOutput env pathId st key value).2.2.2.s = Status.OK := by
  unfold prepareOutput
  dsimp only
  obtain ⟨hstatus, hs'⟩ := transToSeparatePartition_of_ok env hfile hs pathId key value
  split
  · rw [hstatus, if_pos Status.ok_OK]
    exact ⟨rfl, hs'⟩
  · exact ⟨rfl, hs⟩

/-- With every file created, the output loop ends with OK and leaves `s` at OK. -/
theorem addEntries_of_ok (hfile : ∀ n, env.newWritableFile n = Status.OK) (pathId : UInt32) :
    ∀ (entries : List (Bytes × Bytes)) {st : FlushState}, st.s = Status.OK →
      (addEntries env pathId st entries).1 = Status.OK ∧
        (addEntries env pathId st entries).2.s = Status.OK
  | [], _, hs => ⟨rfl, hs⟩
  | (key, value) :: rest, st, hs => by
      obtain ⟨hstatus, hs'⟩ := prepareOutput_of_ok env hfile hs pathId key value
      rw [addEntries, hs, if_neg (by decide)]
      dsimp only
      rw [hstatus, if_neg (by decide)]
      exact addEntries_of_ok hfile pathId rest hs'

@[simp] theorem s_finishWriter (empty : Bool) (st : FlushState) (w : ℕ) :
    (finishWriter env empty st w).s = st.s := by
  unfold finishWriter
  dsimp only
  -- marking an access past the array keeps `s`
  generalize hst : (if w ≥ 2 + kPartitionWriters then { st with outOfBounds := true } else st) = st'
  have hs : st'.s = st.s := by
    rw [← hst]
    split <;> rfl
  split
  · exact hs
  · split
    · exact hs
    · exact (finishOutputBlobSst_fst env st' w).trans hs

/-- The final loop over the writers leaves `s` as it was: each finished file
gives back `s`. -/
@[simp] theorem s_finishWriters (empty : Bool) (st : FlushState) :
    (finishWriters env empty st).s = st.s := by
  unfold finishWriters
  generalize [0, 1] ++ (List.range env.partitionNum.toNat).map (2 + ·) = slots
  induction slots generalizing st with
  | nil => rfl
  | cons w slots ih => rw [List.foldl_cons, ih, s_finishWriter]

/-- The key SST's end returns OK when the flush has not failed and the key
SST's own file operations succeed. -/
theorem finishKeySst_of_ok (hio : env.keySstIO = ⟨Status.OK, Status.OK, Status.OK⟩)
    (empty : Bool) {st : FlushState} (hs : st.s = Status.OK) :
    (finishKeySst env empty st).1 = Status.OK := by
  unfold finishKeySst
  split
  · exact hs
  · simp [hio]

/-- A flush in which creating every file and every step of writing the key SST
succeed returns OK, whatever finishing, syncing and closing its blob files
returned. -/
theorem BuildPartitionTable_ok_of_files_ok (hkey : env.keySstFile = Status.OK)
    (hfile : ∀ n, env.newWritableFile n = Status.OK)
    (hio : env.keySstIO = ⟨Status.OK, Status.OK, Status.OK⟩) (sstMeta : FileMetaData)
    (nextFileNumber : UInt64) (entries : List (Bytes × Bytes)) (numRangeDeletions : ℕ) :
    (BuildPartitionTable env sstMeta nextFileNumber entries numRangeDeletions).1 = Status.OK := by
  unfold BuildPartitionTable
  split
  · rfl
  · rw [hkey, if_neg (by decide)]
    dsimp only
    obtain ⟨hstatus, hs⟩ := @addEntries_of_ok env hfile sstMeta.fd.getPathId entries
      ((FlushState.init sstMeta nextFileNumber).reserve 64) rfl
    generalize addEntries env sstMeta.fd.getPathId _ entries = r at hstatus hs ⊢
    apply finishKeySst_of_ok env hio
    rw [s_finishWriters, if_pos (by rw [hs]; rfl), hstatus]

/-! ## Two blob files that fail to sync -/

/-- An internal key of user key `[u]`, sequence number 1, type `kTypeValue`. -/
def valueKey (u : UInt8) : Bytes := [u, 1, 1, 0, 0, 0, 0, 0, 0]

/-- A file whose `Finish`, `Sync` and `Close` succeed. -/
def okIO : TableIO := ⟨Status.OK, Status.OK, Status.OK⟩

/-- Every value separated into the hot writer, a file rolled over once it holds
a value, and every blob file's `Sync` failing. -/
def syncFailure : FlushEnv :=
  { blobSize := some 1, largeKeyRatioLsh16 := 2 ^ 20, targetBlobFileSize := 0
    fileSize := List.length, partitionNum := 4, probe := fun _ => .hot, hash := fun _ => 0
    newWritableFile := fun _ => Status.OK
    blobIO := fun _ => ⟨Status.OK, Status.IOError "sync", Status.OK⟩
    keySstFile := Status.OK, keySstIO := okIO }

/-- The key SST of the flush: file `10`. -/
def keySstMeta : FileMetaData := { fd := FileDescriptor.make3 10 0 0 }

/-- A flush of two values into the hot writer: blob file `11` is rolled over
before the second value, blob file `12` is finished at the end; both fail to
sync, the key SST points at both, and the flush returns OK. -/
theorem blob_sync_failures_flush_ok :
    (BuildPartitionTable syncFailure keySstMeta 11 [(valueKey 0, [42]), (valueKey 1, [42])] 0
      ).2.blobFiles.map (fun b => (b.number, b.status)) =
        [(11, some (Status.IOError "sync")), (12, some (Status.IOError "sync"))] ∧
    (BuildPartitionTable syncFailure keySstMeta 11 [(valueKey 0, [42]), (valueKey 1, [42])] 0
      ).2.keySst.map (·.2) = [EncodeFileNumber 11, EncodeFileNumber 12] ∧
    (BuildPartitionTable syncFailure keySstMeta 11 [(valueKey 0, [42]), (valueKey 1, [42])] 0
      ).1 = Status.OK :=
  ⟨by decide +kernel, by decide +kernel,
    BuildPartitionTable_ok_of_files_ok syncFailure rfl (fun _ => rfl) rfl _ _ _ _⟩

end BuildPartitionTable

end HapDB
