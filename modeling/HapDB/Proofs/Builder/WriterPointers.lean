import HapDB.Proofs.Builder.FlushStatus
import HapDB.Lib.Fold

/-!
# The writers' pointers into `meta_vec`

A writer keeps `meta` and `curr_props`, pointers to the last elements of
`meta_vec` and `table_properties_vec` as they were when it started its file.
Both vectors are `reserve(64)`-ed first, and each new blob file appends to
both, so the 64th blob file of a flush (`meta_vec` going from 64 to 65
elements) moves both vectors while every other writer with an open file still
points into the old blocks.  From then on, what those writers write through
their pointers (the boundaries of each value they add, the entry count, size
and raw sizes when their file is finished) goes to freed storage, and the
dependence list of the key SST is built from the moved `meta_vec`, which never
sees it.

* `Reserved`: the writers' pointers are live, the vectors keep the reserved
  room and one element per file each; `Keeps a b`: from `a` to `b` `meta_vec`
  only grows, and `Reserved` and the count of stale accesses carry from `a` to
  `b` when `meta_vec` ends within the reserve.  `Keeps` is reflexive and
  transitive, so each stage of the flush is one lemma (`keeps_addOutput`,
  `keeps_finishOutputBlobSst`, ...) and the loops are runs of them.
* `BuildPartitionTable_no_stale_access`: a flush whose `meta_vec` ends with at
  most 64 elements accesses no stale pointer.
* `two_writers_flush_uses_stale_pointers`: with 64 blob files and two writers
  it does; `two_writers_flush_loses_blob_metadata`: what the stale writes
  carried is missing from `meta_vec` and the key SST's dependence list.
-/

namespace HapDB

namespace FlushState

open GrowVec

/-- The writers' pointers name elements of the two vectors themselves. -/
def PointersLive (st : FlushState) : Prop :=
  ∀ w ob, st.writers w = some ob →
    st.metaVec.live ob.metaPtr = true ∧ st.propsVec.live ob.propsPtr = true

/-- What keeps the writers' pointers good while blob files are added: they are
live, both vectors have the room `reserve(64)` gave them, and the two hold one
element per file each. -/
structure Reserved (st : FlushState) : Prop where
  live : st.PointersLive
  metaCapacity : 64 ≤ st.metaVec.capacity
  propsCapacity : 64 ≤ st.propsVec.capacity
  sameLength : st.propsVec.current.length = st.metaVec.current.length

/-- A stretch of the flush from `a` to `b` that is safe within the reserve:
`meta_vec` only grows, and from a state that keeps the pointers good, when
`meta_vec` ends with at most 64 elements, `b` keeps them good and no access
went through a stale one. -/
def Keeps (a b : FlushState) : Prop :=
  a.metaVec.current.length ≤ b.metaVec.current.length ∧
    (a.Reserved → b.metaVec.current.length ≤ 64 →
      b.Reserved ∧ b.staleAccesses = a.staleAccesses)

theorem Keeps.refl (a : FlushState) : Keeps a a :=
  ⟨Nat.le_refl _, fun hres _ => ⟨hres, rfl⟩⟩

theorem Keeps.trans {a b c : FlushState} (hab : Keeps a b) (hbc : Keeps b c) : Keeps a c := by
  refine ⟨hab.1.trans hbc.1, fun hres hlen => ?_⟩
  obtain ⟨hresb, hstaleb⟩ := hab.2 hres (hbc.1.trans hlen)
  obtain ⟨hresc, hstalec⟩ := hbc.2 hresb hlen
  exact ⟨hresc, hstalec.trans hstaleb⟩

/-- A step that leaves both vectors' shapes, keeps or drops each writer's
pointers, and counts no stale access from a state that keeps them good. -/
theorem keeps_of_shape {a b : FlushState} (hmeta : b.metaVec.shape = a.metaVec.shape)
    (hprops : b.propsVec.shape = a.propsVec.shape)
    (hwriters : ∀ w ob, b.writers w = some ob → ∃ ob', a.writers w = some ob' ∧
      ob'.metaPtr = ob.metaPtr ∧ ob'.propsPtr = ob.propsPtr)
    (hstale : a.Reserved → b.staleAccesses = a.staleAccesses) : Keeps a b := by
  have hlen := length_eq_of_shape_eq hmeta
  refine ⟨hlen.ge, fun hres _ => ⟨⟨fun w ob hw => ?_, ?_, ?_, ?_⟩, hstale hres⟩⟩
  · obtain ⟨ob', hw', hmp, hpp⟩ := hwriters w ob hw
    obtain ⟨hml, hpl⟩ := hres.live w ob' hw'
    rw [live_eq_of_shape_eq hmeta, live_eq_of_shape_eq hprops, ← hmp, ← hpp]
    exact ⟨hml, hpl⟩
  · rw [capacity_eq_of_shape_eq hmeta]
    exact hres.metaCapacity
  · rw [capacity_eq_of_shape_eq hprops]
    exact hres.propsCapacity
  · rw [length_eq_of_shape_eq hprops, hlen]
    exact hres.sameLength

@[simp] theorem metaVec_writeMeta (st : FlushState) (p : Ptr) (f : FileMetaData → FileMetaData) :
    (st.writeMeta p f).metaVec = st.metaVec.write p f := rfl

@[simp] theorem propsVec_writeMeta (st : FlushState) (p : Ptr) (f : FileMetaData → FileMetaData) :
    (st.writeMeta p f).propsVec = st.propsVec := rfl

@[simp] theorem writers_writeMeta (st : FlushState) (p : Ptr) (f : FileMetaData → FileMetaData) :
    (st.writeMeta p f).writers = st.writers := rfl

theorem staleAccesses_writeMeta_of_live {st : FlushState} {p : Ptr} (hp : st.metaVec.live p = true)
    (f : FileMetaData → FileMetaData) : (st.writeMeta p f).staleAccesses = st.staleAccesses := by
  simp [writeMeta, hp]

@[simp] theorem metaVec_writeProps (st : FlushState) (p : Ptr) (tp : TableProperties) :
    (st.writeProps p tp).metaVec = st.metaVec := rfl

@[simp] theorem propsVec_writeProps (st : FlushState) (p : Ptr) (tp : TableProperties) :
    (st.writeProps p tp).propsVec = st.propsVec.write p fun _ => tp := rfl

@[simp] theorem writers_writeProps (st : FlushState) (p : Ptr) (tp : TableProperties) :
    (st.writeProps p tp).writers = st.writers := rfl

theorem staleAccesses_writeProps_of_live {st : FlushState} {p : Ptr}
    (hp : st.propsVec.live p = true) (tp : TableProperties) :
    (st.writeProps p tp).staleAccesses = st.staleAccesses := by
  simp [writeProps, hp]

theorem readMetaNumber_snd_of_live {st : FlushState} {p : Ptr} (hp : st.metaVec.live p = true) :
    (st.readMetaNumber p).2 = st := by
  simp [readMetaNumber, hp]

theorem keeps_writerSlot (st : FlushState) (k : KeyType) : Keeps st (st.writerSlot k).2 := by
  unfold writerSlot
  split
  · exact Keeps.refl st
  · exact Keeps.refl st
  · dsimp only
    split
    · exact Keeps.refl st
    · exact keeps_of_shape rfl rfl (fun w ob hw => ⟨ob, hw, rfl, rfl⟩) fun _ => rfl
  · exact Keeps.refl st

end FlushState

namespace BuildPartitionTable

open FlushState GrowVec

/-- Finishing a file writes through the writer's own pointers, which are live
in a state that keeps them good, and releases the writer. -/
theorem keeps_finishOutputBlobSst (env : FlushEnv) (st : FlushState) (w : ℕ) :
    Keeps st (finishOutputBlobSst env st w).2 := by
  unfold finishOutputBlobSst
  split
  · exact Keeps.refl st
  · rename_i ob hw
    dsimp only
    apply keeps_of_shape
    · split <;> simp
    · split <;> simp
    · intro w' ob' hw'
      by_cases hww : w' = w
      · simp [hww] at hw'
      · refine ⟨ob', ?_, rfl, rfl⟩
        dsimp only at hw'
        rw [Function.update_of_ne hww] at hw'
        split at hw' <;> simpa using hw'
    · intro hres
      obtain ⟨hml, hpl⟩ := hres.live w ob hw
      split
      · simp [staleAccesses_writeMeta_of_live, staleAccesses_writeProps_of_live, live_write, hml, hpl]
      · simp [staleAccesses_writeMeta_of_live, hml]

/-- A new file takes one element of each vector; from a state that keeps the
pointers good, with `meta_vec` still within its reserve after it, both were
appended in place, so every pointer stays live. -/
theorem keeps_addOutput (st : FlushState) (pathId : UInt32) : Keeps st (addOutput st pathId) := by
  refine ⟨by simp [addOutput], fun hres hlen => ?_⟩
  have hlen' : st.metaVec.current.length < 64 := by
    simp only [addOutput, length_current_write, current_emplaceBack, List.length_append,
      List.length_singleton] at hlen
    omega
  have hroom : st.metaVec.current.length < st.metaVec.capacity :=
    lt_of_lt_of_le hlen' hres.metaCapacity
  have hproom : st.propsVec.current.length < st.propsVec.capacity := by
    rw [hres.sameLength]
    exact lt_of_lt_of_le hlen' hres.propsCapacity
  refine ⟨⟨fun w ob hw => ?_, ?_, ?_, ?_⟩, rfl⟩
  · obtain ⟨hml, hpl⟩ := hres.live w ob hw
    simp only [addOutput, live_write]
    exact ⟨live_emplaceBack_of_lt hml hroom _, live_emplaceBack_of_lt hpl hproom _⟩
  · simp [addOutput, capacity_emplaceBack_of_lt hroom, hres.metaCapacity]
  · simp [addOutput, capacity_emplaceBack_of_lt hproom, hres.propsCapacity]
  · simp [addOutput, hres.sameLength]

/-- The new elements are the vectors' last ones, which are live. -/
theorem live_back_addOutput (st : FlushState) (pathId : UInt32) :
    (addOutput st pathId).metaVec.live (addOutput st pathId).metaVec.back = true ∧
      (addOutput st pathId).propsVec.live (addOutput st pathId).propsVec.back = true := by
  simp [addOutput, back, live]

theorem keeps_openOutputBlob (env : FlushEnv) (st : FlushState) (w : ℕ) (pathId : UInt32) :
    Keeps st (openOutputBlob env st w pathId).2 := by
  unfold openOutputBlob
  dsimp only
  have hadd := keeps_addOutput st pathId
  split
  · -- the writer in slot `w` now points at the two new elements
    refine hadd.trans ⟨Nat.le_refl _, fun hres _ => ⟨⟨fun w' ob hw => ?_, hres.metaCapacity,
      hres.propsCapacity, hres.sameLength⟩, rfl⟩⟩
    dsimp only at hw
    by_cases hww : w' = w
    · subst hww
      simp only [Function.update_self, Option.some.injEq] at hw
      subst hw
      exact live_back_addOutput st pathId
    · rw [Function.update_of_ne hww] at hw
      exact hres.live w' ob hw
  · exact hadd

/-- Adding a value writes the boundaries and reads the number through the
writer's `meta` pointer, and keeps the writer's pointers. -/
theorem keeps_addToBlob (st : FlushState) (w : ℕ) (key value : Bytes) (status : Status) :
    Keeps st (addToBlob st w key value status).2.2 := by
  unfold addToBlob
  split
  · rename_i ob hw
    split
    · dsimp only
      apply keeps_of_shape
      · simp [readMetaNumber]
      · simp [readMetaNumber]
      · intro w' ob' hw'
        by_cases hww : w' = w
        · subst hww
          simp only [readMetaNumber, writers_writeMeta, Function.update_self,
            Option.some.injEq] at hw'
          exact ⟨ob, hw, by rw [← hw'], by rw [← hw']⟩
        · simp only [readMetaNumber, writers_writeMeta, Function.update_of_ne hww] at hw'
          exact ⟨ob', hw', rfl, rfl⟩
      · intro hres
        obtain ⟨hml, -⟩ := hres.live w ob hw
        simp [readMetaNumber, writeMeta, hml, live_write]
    · exact Keeps.refl st
  · exact Keeps.refl st

theorem keeps_rollOver (env : FlushEnv) (st : FlushState) (w : ℕ) :
    Keeps st (rollOver env st w).2 := by
  unfold rollOver
  split
  · split
    · exact keeps_finishOutputBlobSst env st w
    · exact Keeps.refl st
  · exact Keeps.refl st

theorem keeps_transToSeparatePartition (env : FlushEnv) (st : FlushState) (pathId : UInt32)
    (key value : Bytes) : Keeps st (transToSeparatePartition env st pathId key value).2.2 := by
  unfold transToSeparatePartition
  dsimp only
  -- the slot, the rollover, the new file when there is none, the value
  have hslot := keeps_writerSlot st (CalculateKeyType env key)
  generalize st.writerSlot (CalculateKeyType env key) = slot at hslot ⊢
  have hroll := hslot.trans (keeps_rollOver env slot.2 slot.1)
  generalize rollOver env slot.2 slot.1 = rolled at hroll ⊢
  split
  · exact (hroll.trans (keeps_openOutputBlob env _ _ pathId)).trans (keeps_addToBlob _ _ key value _)
  · exact hroll.trans (keeps_addToBlob _ _ key value _)

theorem keeps_prepareOutput (env : FlushEnv) (pathId : UInt32) (st : FlushState)
    (key value : Bytes) : Keeps st (prepareOutput env pathId st key value).2.2.2 := by
  unfold prepareOutput
  dsimp only
  have htts := keeps_transToSeparatePartition env st pathId key value
  split
  · split
    · exact htts
    · split <;> exact htts
  · exact Keeps.refl st

/-- The output loop keeps the pointers good within the reserve: each value
goes through `prepareOutput`, and the key SST's boundaries are written in
`meta_vec[0]`, which no writer's pointer names. -/
theorem keeps_addEntries (env : FlushEnv) (pathId : UInt32) :
    ∀ (entries : List (Bytes × Bytes)) (st : FlushState),
      Keeps st (addEntries env pathId st entries).2
  | [], st => Keeps.refl st
  | (key, value) :: rest, st => by
      rw [addEntries]
      split
      · exact Keeps.refl st
      · dsimp only
        have hprep := keeps_prepareOutput env pathId st key value
        split
        · exact hprep
        · refine hprep.trans (Keeps.trans ?_ (keeps_addEntries env pathId rest _))
          exact keeps_of_shape (by simp) rfl (fun w ob hw => ⟨ob, hw, rfl, rfl⟩) fun _ => rfl

theorem keeps_finishWriter (env : FlushEnv) (empty : Bool) (st : FlushState) (w : ℕ) :
    Keeps st (finishWriter env empty st w) := by
  unfold finishWriter
  dsimp only
  -- marking an access past the array changes nothing else
  have hmark : Keeps st (if w ≥ 2 + kPartitionWriters then { st with outOfBounds := true } else st) := by
    split
    · exact keeps_of_shape rfl rfl (fun w ob hw => ⟨ob, hw, rfl, rfl⟩) fun _ => rfl
    · exact Keeps.refl st
  generalize (if w ≥ 2 + kPartitionWriters then { st with outOfBounds := true } else st) = st'
    at hmark ⊢
  refine hmark.trans ?_
  split
  · exact Keeps.refl _
  · split
    · -- the file is abandoned and the writer released
      refine keeps_of_shape rfl rfl (fun w' ob' hw' => ?_) fun _ => rfl
      by_cases hww : w' = w
      · subst hww
        simp at hw'
      · dsimp only at hw'
        rw [Function.update_of_ne hww] at hw'
        exact ⟨ob', hw', rfl, rfl⟩
    · exact (keeps_finishOutputBlobSst env st' w).trans
        (keeps_of_shape rfl rfl (fun w ob hw => ⟨ob, hw, rfl, rfl⟩) fun _ => rfl)

theorem keeps_finishWriters (env : FlushEnv) (empty : Bool) (st : FlushState) :
    Keeps st (finishWriters env empty st) :=
  Fold.foldl_of_step Keeps.refl (fun hab hbc => hab.trans hbc) (keeps_finishWriter env empty) _ st

theorem keeps_finishKeySst (env : FlushEnv) (empty : Bool) (st : FlushState) :
    Keeps st (finishKeySst env empty st).2 := by
  unfold finishKeySst
  split
  · exact Keeps.refl st
  · exact keeps_of_shape (by simp) rfl (fun w ob hw => ⟨ob, hw, rfl, rfl⟩) fun _ => rfl

/-- `meta_vec` and `table_properties_vec` after `reserve(64)`: room for 64
elements each, one element each, no writer. -/
theorem reserved_init (sstMeta : FileMetaData) (nextFileNumber : UInt64) :
    ((FlushState.init sstMeta nextFileNumber).reserve 64).Reserved :=
  ⟨fun _ _ hw => by simp [FlushState.init, FlushState.reserve] at hw, le_of_eq rfl, le_of_eq rfl, rfl⟩

/-- A flush whose `meta_vec` ends with at most 64 elements, the key SST's and at
most 63 blob files', never accesses a stale pointer: the reserve holds every
blob file's elements, so no writer's pointer is ever moved from under it. -/
theorem BuildPartitionTable_no_stale_access (env : FlushEnv) (sstMeta : FileMetaData)
    (nextFileNumber : UInt64) (entries : List (Bytes × Bytes)) (numRangeDeletions : ℕ)
    (hlen : (BuildPartitionTable env sstMeta nextFileNumber entries numRangeDeletions
      ).2.metaVec.current.length ≤ 64) :
    (BuildPartitionTable env sstMeta nextFileNumber entries numRangeDeletions).2.staleAccesses = 0 := by
  unfold BuildPartitionTable at hlen ⊢
  dsimp only at hlen ⊢
  by_cases hnothing : (entries.isEmpty && decide (numRangeDeletions = 0)) = true
  · rw [if_pos hnothing]
    rfl
  rw [if_neg hnothing] at hlen ⊢
  by_cases hkey : (!env.keySstFile.ok) = true
  · rw [if_pos hkey]
    rfl
  rw [if_neg hkey] at hlen ⊢
  -- the stages after `reserve(64)`, chained from the reserved state
  have hadd := keeps_addEntries env sstMeta.fd.getPathId entries
    ((FlushState.init sstMeta nextFileNumber).reserve 64)
  generalize addEntries env sstMeta.fd.getPathId
    ((FlushState.init sstMeta nextFileNumber).reserve 64) entries = r at hadd hlen ⊢
  have hstatus : Keeps r.2 (if r.2.s.ok then { r.2 with s := r.1 } else r.2) := by
    split
    · exact keeps_of_shape rfl rfl (fun w ob hw => ⟨ob, hw, rfl, rfl⟩) fun _ => rfl
    · exact Keeps.refl _
  generalize (if r.2.s.ok then { r.2 with s := r.1 } else r.2) = st₁ at hstatus hlen ⊢
  generalize (r.2.keySst.isEmpty && decide (numRangeDeletions = 0)) = empty at hlen ⊢
  have hrun := hadd.trans (hstatus.trans
    ((keeps_finishWriters env empty st₁).trans (keeps_finishKeySst env empty _)))
  exact (hrun.2 (reserved_init sstMeta nextFileNumber) hlen).2

/-! ## Sixty-five values over two writers -/

/-- The keys `[0]` and `[64]` hot, every other key to the one hash partition;
a blob file is rolled over once its values are more than one byte long. -/
def twoWriters : FlushEnv :=
  { blobSize := some 1, largeKeyRatioLsh16 := 2 ^ 20, targetBlobFileSize := 1
    fileSize := fun records => (records.map (·.2.length)).sum, partitionNum := 1
    probe := fun userKey => if userKey = [0] ∨ userKey = [64] then .hot else .noType
    hash := fun _ => 0, newWritableFile := fun _ => Status.OK, blobIO := fun _ => okIO
    keySstFile := Status.OK, keySstIO := okIO }

/-- The values of keys `[0]` to `[64]`: one byte for the two hot keys, two for
the others, so that the partition writer starts a file for each of its values
and the hot writer puts both of its values in one. -/
def sixtyFiveValues : List (Bytes × Bytes) :=
  (List.range 65).map fun i => (valueKey i.toUInt8, if i = 0 ∨ i = 64 then [42] else [42, 42])

/-- The flush: blob file `11` is the hot writer's, opened for key `[0]`; the
partition writer's 63 files, one per key `[1]` to `[63]`, make the 64th blob
file, and key `[64]` is added to file `11` through the old block. -/
def twoWritersFlush : Status × FlushState :=
  BuildPartitionTable twoWriters keySstMeta 11 sixtyFiveValues 0

/-- Thirty-three hash partitions, and every key hashed into the last. -/
def thirtyThreePartitions : FlushEnv :=
  { twoWriters with partitionNum := 33, probe := fun _ => .noType, hash := fun _ => 32 }

set_option maxRecDepth 100000 in
/-- The flush succeeds after writing through pointers into a block that
`meta_vec` has left; and with 33 partitions, a key of partition 32 is routed
past the end of `partition_writer`. -/
theorem two_writers_flush_uses_stale_pointers :
    twoWritersFlush.1 = Status.OK ∧ 64 < twoWritersFlush.2.metaVec.current.length ∧
      0 < twoWritersFlush.2.staleAccesses ∧
    (BuildPartitionTable thirtyThreePartitions keySstMeta 11 [(valueKey 0, [42, 42])] 0
      ).2.outOfBounds = true := by
  decide +kernel

set_option maxRecDepth 100000 in
/-- Blob file `11` holds the values of keys `[0]` and `[64]`, and the key SST
points at it for both; its element of `meta_vec`, which the dependence list is
built from, has no entries and ends at key `[0]`. -/
theorem two_writers_flush_loses_blob_metadata :
    twoWritersFlush.1 = Status.OK ∧
    (twoWritersFlush.2.blobFiles.find? (·.number = 11)).map (·.records.map (·.1)) =
      some [valueKey 0, valueKey 64] ∧
    (twoWritersFlush.2.keySst.filter (·.2 = EncodeFileNumber 11)).length = 2 ∧
    twoWritersFlush.2.metaVec.current[1]?.map
        (fun m => (m.fd.getNumber, m.prop.numEntries, m.largest.rep)) =
      some (11, 0, valueKey 0) ∧
    twoWritersFlush.2.metaVec.current.head?.map (·.prop.dependence.head?) =
      some (some ⟨11, 0⟩) := by
  decide +kernel

end BuildPartitionTable

end HapDB
