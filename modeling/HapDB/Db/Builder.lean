import HapDB.Db.FileMap
import HapDB.Lib.GrowVec

/-!
# `db/builder.cc`: `BuildPartitionTable`, the flush with separated values

A flush writes one key SST and, for the values the compaction iterator
separates, blob files.  Each separated value goes to a writer chosen by its
key: the hot writer, the warm writer, or one of `partition_num` hash
partitions (`CalculateKeyType`).  A writer builds one blob file at a time and,
before adding a value to a file that has grown past the target blob size,
finishes it and starts another.  The key SST gets the key with the type
`kTypeValueIndex` (or `kTypeMergeIndex`) and, as its value, the number of the
blob file that holds the value.

The metadata of every blob file is appended to `meta_vec` (whose first
element is the key SST's) and its properties to `table_properties_vec`, and a
writer keeps pointers to both (`Writer::meta`, `Writer::curr_props`).  The two
vectors are `reserve(64)`-ed before the first value, so the pointers stay good
as long as the vectors do not move: the vectors are modelled by `GrowVec`,
which keeps the blocks a vector leaves behind, and every access through a
writer's pointer that no longer names the vector's block is counted in
`staleAccesses`.  `partition_writer` is an array of 32 writers; an access past
it is recorded in `outOfBounds`.

What the flush is given is the compaction iterator's output (`entries`): the
iterator's choice of which entries survive is not modelled here, only its
`PrepareOutput` step, which decides whether a value is separated and hands it
to the writers.  The outcome of the file operations is an input: creating a
blob file (`newWritableFile`), finishing, syncing and closing it (`blobIO`),
and the same for the key SST (`keySstIO`).  The size a table builder reports is
a function of what it was given (`fileSize`), the hotness oracle and the
murmur hash are functions of the key (`probe`, `hash`).  Range tombstones are
counted (they decide whether the key SST is empty) but not written; the value
meta extractor is taken to be absent, its default; the statistics, listeners
and the verification of the finished tables are left out.
-/

namespace HapDB

/-- `KeyType`: where a value is placed. -/
inductive KeyType where
  | noType
  | hot
  | warm
  | cold
  | partition (id : UInt32)
  deriving DecidableEq, Repr

/-- `kEssenceSst`, the purpose of a data table. -/
def kEssenceSst : UInt8 := 0

/-- `TablePropertyCache::kNoRangeDeletions`. -/
def kNoRangeDeletions : UInt8 := 4

/-- `SeparateHelper::EncodeFileNumber`: the file number, eight bytes little
endian. -/
def EncodeFileNumber (fileNumber : UInt64) : Bytes := encodeFixed64 fileNumber

/-- `SeparateHelper::DecodeFileNumber`. -/
def DecodeFileNumber (value : Bytes) : UInt64 := decodeFixed64 value

/-- `GetInternalKeySeqno`. -/
def GetInternalKeySeqno (key : Bytes) : UInt64 := decodeFixed64 (key.drop (key.length - 8)) >>> 8

/-- `UpdateInternalKey(seq, t)`: the footer replaced by `(seq << 8) | t`. -/
def UpdateInternalKey (key : Bytes) (seq : UInt64) (t : ValueType) : Bytes :=
  key.take (key.length - 8) ++ encodeFixed64 ((seq <<< 8) ||| t.toByte.toUInt64)

/-- `FileMetaData::UpdateBoundaries(key, seqno)`. -/
def FileMetaData.UpdateBoundaries (f : FileMetaData) (key : Bytes) (seqno : UInt64) :
    FileMetaData :=
  { f with
    smallest := if f.smallest.rep.isEmpty then ⟨key⟩ else f.smallest
    largest := ⟨key⟩
    fd := { f.fd with smallestSeqno := min f.fd.smallestSeqno seqno
                      largestSeqno := max f.fd.largestSeqno seqno } }

/-- The `TableProperties` a table builder reports, as far as the flush copies
them: the entries and their raw sizes. -/
structure TableProperties where
  numEntries : UInt64 := 0
  rawKeySize : UInt64 := 0
  rawValueSize : UInt64 := 0
  deriving DecidableEq, Repr

/-- `GetTableProperties()` of a builder given `records`. -/
def TableProperties.ofRecords (records : List (Bytes × Bytes)) : TableProperties :=
  ⟨records.length.toUInt64, (records.map fun (r : Bytes × Bytes) => r.1.length).sum.toUInt64,
   (records.map fun (r : Bytes × Bytes) => r.2.length).sum.toUInt64⟩

/-- The outcomes of `Finish`, `Sync` and `Close` of one table file. -/
structure TableIO where
  finish : Status
  sync : Status
  close : Status

/-- What the flush reads besides its input: options, the oracle, and the outcome
of the file operations. -/
structure FlushEnv where
  /-- `blob_config.blob_size`; `none` for `size_t(-1)`, no separation. -/
  blobSize : Option ℕ
  largeKeyRatioLsh16 : ℕ
  /-- `MaxBlobSize(...)`. -/
  targetBlobFileSize : ℕ
  /-- `TableBuilder::FileSize()` of a builder given these records. -/
  fileSize : List (Bytes × Bytes) → ℕ
  partitionNum : UInt32
  /-- `oracle->ProbeKeyType(user_key, 0)`. -/
  probe : Bytes → KeyType
  /-- `murmur_hash()(key)`. -/
  hash : Bytes → UInt64
  newWritableFile : UInt64 → Status
  blobIO : UInt64 → TableIO
  keySstFile : Status
  keySstIO : TableIO

/-- The blob file a writer is building: its number (`Writer::fname`), what its
table builder has been given, and the writer's pointers into `meta_vec` and
`table_properties_vec`. -/
structure OpenBlob where
  number : UInt64
  records : List (Bytes × Bytes)
  metaPtr : GrowVec.Ptr
  propsPtr : GrowVec.Ptr

/-- A blob file once its writer is done with it: finished with the status its
finishing reached, or abandoned. -/
structure BlobFile where
  number : UInt64
  records : List (Bytes × Bytes)
  status : Option Status

/-- The state of `BuildPartitionTable` while it runs: the status `s`, the two
vectors, the writers by slot (0 hot, 1 warm, `2 + i` partition `i`), the next
file number of the version set, what the key SST has been given, the blob files
done with, and the invalid accesses seen. -/
structure FlushState where
  s : Status
  metaVec : GrowVec FileMetaData
  propsVec : GrowVec TableProperties
  writers : ℕ → Option OpenBlob
  nextFileNumber : UInt64
  keySst : List (Bytes × Bytes)
  blobFiles : List BlobFile
  staleAccesses : ℕ
  outOfBounds : Bool

namespace FlushState

/-- The number of `partition_writer`'s elements. -/
def kPartitionWriters : ℕ := 32

/-- `blob_meta->...`: a change through a writer's `meta` pointer. -/
def writeMeta (st : FlushState) (p : GrowVec.Ptr) (f : FileMetaData → FileMetaData) :
    FlushState :=
  { st with metaVec := st.metaVec.write p f
            staleAccesses := st.staleAccesses + if st.metaVec.live p then 0 else 1 }

/-- `*writer->curr_props = ...`. -/
def writeProps (st : FlushState) (p : GrowVec.Ptr) (tp : TableProperties) : FlushState :=
  { st with propsVec := st.propsVec.write p fun _ => tp
            staleAccesses := st.staleAccesses + if st.propsVec.live p then 0 else 1 }

/-- `blob_meta->fd.GetNumber()` through a writer's `meta` pointer. -/
def readMetaNumber (st : FlushState) (p : GrowVec.Ptr) : UInt64 × FlushState :=
  (((st.metaVec.read p).map (·.fd.getNumber)).getD 0,
   { st with staleAccesses := st.staleAccesses + if st.metaVec.live p then 0 else 1 })

/-- `&psh.partition_writer[i]`, or the hot or warm writer: its slot, with an
access past the array recorded. -/
def writerSlot (st : FlushState) : KeyType → ℕ × FlushState
  | .hot => (0, st)
  | .warm => (1, st)
  | .partition i => (2 + i.toNat, if i.toNat < kPartitionWriters then st else { st with outOfBounds := true })
  -- a cold or unknown type is only asserted not to happen in a flush
  | _ => (0, st)

end FlushState

namespace BuildPartitionTable

open FlushState

/-- `PartitionTableBuilderSeparateHelper::CalculateKeyType`: the oracle's hot
or warm, else the hash partition (`enable_hot_separation` is always on). -/
def CalculateKeyType (env : FlushEnv) (key : Bytes) : KeyType :=
  let userKey := ((parseInternalKey key).map (·.userKey)).getD []
  match env.probe userKey with
  | .hot => .hot
  | .warm => .warm
  | _ => .partition (env.hash key % env.partitionNum.toUInt64).toUInt32

/-- The `finish_output_blob_sst` lambda on the writer in slot `w`: the counts
and flags through `meta`, `Finish`, then the size and properties and `Sync`,
then `Close`; the builder is released.  It returns the flush's status `s`, not
the status it computed. -/
def finishOutputBlobSst (env : FlushEnv) (st : FlushState) (w : ℕ) : Status × FlushState :=
  match st.writers w with
  | none => (st.s, st)
  | some ob =>
      let io := env.blobIO ob.number
      let st := st.writeMeta ob.metaPtr fun m =>
        { m with prop := { m.prop with numEntries := ob.records.length.toUInt64, numDeletions := 0,
                                        purpose := kEssenceSst,
                                        flags := m.prop.flags ||| kNoRangeDeletions } }
      let status := io.finish
      let tp := TableProperties.ofRecords ob.records
      let st := if status.ok then
          let st := st.writeMeta ob.metaPtr fun m =>
            { m with fd := { m.fd with fileSize := (env.fileSize ob.records).toUInt64 } }
          let st := st.writeProps ob.propsPtr tp
          st.writeMeta ob.metaPtr fun m =>
            { m with prop := { m.prop with rawKeySize := tp.rawKeySize,
                                            rawValueSize := tp.rawValueSize } }
        else st
      let status := if status.ok then io.sync else status
      let status := if status.ok then io.close else status
      (st.s, { st with writers := Function.update st.writers w none
                       blobFiles := st.blobFiles ++ [⟨ob.number, ob.records, some status⟩] })

/-- `output_meta->emplace_back()` and `prop->emplace_back()` for a new blob
file: the new element of `meta_vec` gets the file's descriptor, with the next
file number. -/
def addOutput (st : FlushState) (pathId : UInt32) : FlushState :=
  let metaVec := st.metaVec.emplaceBack {}
  let metaVec := metaVec.write metaVec.back fun m =>
    { m with fd := FileDescriptor.make3 st.nextFileNumber pathId 0 }
  { st with metaVec := metaVec, propsVec := st.propsVec.emplaceBack {}
            nextFileNumber := st.nextFileNumber + 1 }

/-- A new blob file for the writer in slot `w`: the two new elements, the
writer pointing at them, and `NewWritableFile` for the file. -/
def openOutputBlob (env : FlushEnv) (st : FlushState) (w : ℕ) (pathId : UInt32) :
    Status × FlushState :=
  let number := st.nextFileNumber
  let st := addOutput st pathId
  let status := env.newWritableFile number
  if status.ok then
    let writer : OpenBlob := ⟨number, [], st.metaVec.back, st.propsVec.back⟩
    (status, { st with writers := Function.update st.writers w (some writer) })
  else (status, st)

/-- The first part of `trans_to_separate_partition` for the writer in slot `w`:
its file finished when it has grown past the target size. -/
def rollOver (env : FlushEnv) (st : FlushState) (w : ℕ) : Status × FlushState :=
  match st.writers w with
  | some ob =>
      if env.fileSize ob.records > env.targetBlobFileSize then finishOutputBlobSst env st w
      else (Status.OK, st)
  | none => (Status.OK, st)

/-- The last part of `trans_to_separate_partition`: the value added to the
writer's file, the file's boundaries updated through `meta`, and the value
replaced by the file's number, read through `meta`. -/
def addToBlob (st : FlushState) (w : ℕ) (key value : Bytes) (status : Status) :
    Status × Bytes × FlushState :=
  match st.writers w with
  | some ob =>
      if status.ok then
        let writer := { ob with records := ob.records ++ [(key, value)] }
        let st := { st with writers := Function.update st.writers w (some writer) }
        let st := st.writeMeta ob.metaPtr fun m => m.UpdateBoundaries key (GetInternalKeySeqno key)
        let (number, st) := st.readMetaNumber ob.metaPtr
        (status, EncodeFileNumber number, st)
      else (status, value, st)
  | none => (status, value, st)

/-- The `trans_to_separate_partition` lambda: the writer for the key, a new
file when it has none or its file is past the target size, then the value
added.  The status, and the value for the key SST. -/
def transToSeparatePartition (env : FlushEnv) (st : FlushState) (pathId : UInt32)
    (key value : Bytes) : Status × Bytes × FlushState :=
  let (w, st) := st.writerSlot (CalculateKeyType env key)
  let (status, st) := rollOver env st w
  let (status, st) :=
    if status.ok && (st.writers w).isNone then openOutputBlob env st w pathId else (status, st)
  addToBlob st w key value status

/-- `PrepareOutput` for a value of the flush: whether it is separated, the
value kept in the key SST when it is too small or its key too large. -/
def separates (env : FlushEnv) (ikey : ParsedInternalKey) (value : Bytes) : Bool :=
  (ikey.type == .kTypeValue || ikey.type == .kTypeMerge) &&
    match env.blobSize with
    | none => false
    | some blobSize =>
        !(value.length < blobSize ||
          ikey.userKey.length * 2 ^ 16 > value.length * env.largeKeyRatioLsh16)

/-- `PrepareOutput` on one entry: a value that `separates` goes to the
writers, and the entry comes out with the index type and the file's number; a
separation that fails with `NotSupported` leaves the entry as it was.  The
status, the key and the value that come out, and the state. -/
def prepareOutput (env : FlushEnv) (pathId : UInt32) (st : FlushState) (key value : Bytes) :
    Status × Bytes × Bytes × FlushState :=
  let ikey := (parseInternalKey key).getD ⟨[], 0, .kTypeDeletion⟩
  if separates env ikey value then
    let (status, value', st) := transToSeparatePartition env st pathId key value
    if status.ok then
      let t := if ikey.type == .kTypeValue then ValueType.kTypeValueIndex
        else ValueType.kTypeMergeIndex
      (status, UpdateInternalKey key ikey.sequence t, value', st)
    else if status.code == .kNotSupported then (Status.OK, key, value, st)
    else (status, key, value, st)
  else (Status.OK, key, value, st)

/-- The compaction iterator's output loop: each entry, separated or not, into
the key SST, with `UpdateBoundaries` of the key SST's metadata; a separation
that fails with anything but `NotSupported` ends the iterator with its status. -/
def addEntries (env : FlushEnv) (pathId : UInt32) :
    FlushState → List (Bytes × Bytes) → Status × FlushState
  | st, [] => (Status.OK, st)
  | st, (key, value) :: rest =>
      if !st.s.ok then (Status.OK, st)
      else
        let seq := ((parseInternalKey key).getD ⟨[], 0, .kTypeDeletion⟩).sequence
        let (status, key, value, st) := prepareOutput env pathId st key value
        if !status.ok then (status, st)
        else
          let st := { st with keySst := st.keySst ++ [(key, value)]
                              metaVec := st.metaVec.write ⟨st.metaVec.epoch, 0⟩
                                fun m => m.UpdateBoundaries key seq }
          addEntries env pathId st rest

/-- One round of the loop over `GetAllWriters()`, for the writer in slot `w`:
with an open file, it abandons it when the flush failed or wrote nothing, and
finishes it otherwise, `s` taking what the lambda returns. -/
def finishWriter (env : FlushEnv) (empty : Bool) (st : FlushState) (w : ℕ) : FlushState :=
  let st := if w ≥ 2 + kPartitionWriters then { st with outOfBounds := true } else st
  match st.writers w with
  | none => st
  | some ob =>
      if !st.s.ok || empty then
        { st with writers := Function.update st.writers w none
                  blobFiles := st.blobFiles ++ [⟨ob.number, ob.records, none⟩] }
      else
        let (s, st) := finishOutputBlobSst env st w
        { st with s := s }

/-- The loop over `GetAllWriters()`: the hot and warm writers, then the
`partition_num` partition writers. -/
def finishWriters (env : FlushEnv) (empty : Bool) (st : FlushState) : FlushState :=
  (([0, 1] ++ (List.range env.partitionNum.toNat).map (2 + ·))).foldl (finishWriter env empty) st

/-- `prop.dependence` of the key SST: every blob file of `meta_vec`, in order,
with its entry count. -/
def blobDependence (metas : List FileMetaData) : List Dependence :=
  metas.drop 1 |>.map fun blob => ⟨blob.fd.getNumber, blob.prop.numEntries⟩

/-- The end of the flush once the writers are done: unless it failed or wrote
nothing, the key SST's `prop.dependence` gets the blob files of `meta_vec`, and
the key SST is finished, synced and closed. -/
def finishKeySst (env : FlushEnv) (empty : Bool) (st : FlushState) : Status × FlushState :=
  if !st.s.ok || empty then (st.s, st)
  else
    let deps := blobDependence st.metaVec.current
    let st := { st with metaVec := st.metaVec.write ⟨st.metaVec.epoch, 0⟩ fun m =>
      { m with prop := { m.prop with dependence := m.prop.dependence ++ deps } } }
    let s := env.keySstIO.finish
    let s := if s.ok then env.keySstIO.sync else s
    let s := if s.ok then env.keySstIO.close else s
    (s, { st with s := s })

end BuildPartitionTable

namespace FlushState

/-- The state `BuildPartitionTable` starts in: `meta_vec` holds the key SST's
metadata and `table_properties_vec` one empty element. -/
def init (sstMeta : FileMetaData) (nextFileNumber : UInt64) : FlushState :=
  { s := Status.OK, metaVec := GrowVec.ofList [sstMeta]
    propsVec := (GrowVec.ofList []).emplaceBack {}, writers := fun _ => none
    nextFileNumber := nextFileNumber, keySst := [], blobFiles := [], staleAccesses := 0
    outOfBounds := false }

/-- `meta_vec->reserve(n)` and `table_properties_vec->reserve(n)`. -/
def reserve (st : FlushState) (n : ℕ) : FlushState :=
  { st with metaVec := st.metaVec.reserve n, propsVec := st.propsVec.reserve n }

end FlushState

open BuildPartitionTable in
/-- `BuildPartitionTable`: the key SST's metadata `sstMeta` (`meta_vec[0]`),
the compaction iterator's output and the number of range tombstones; the
status and the final state, whose `metaVec` is `meta_vec`. -/
def BuildPartitionTable (env : FlushEnv) (sstMeta : FileMetaData) (nextFileNumber : UInt64)
    (entries : List (Bytes × Bytes)) (numRangeDeletions : ℕ) : Status × FlushState :=
  let st := FlushState.init sstMeta nextFileNumber
  if entries.isEmpty && numRangeDeletions = 0 then (Status.OK, st)
  else if !env.keySstFile.ok then (env.keySstFile, st)
  else
    let st := st.reserve 64
    let (cIterStatus, st) := addEntries env sstMeta.fd.getPathId st entries
    let empty := st.keySst.isEmpty && numRangeDeletions = 0
    let st := if st.s.ok then { st with s := cIterStatus } else st
    finishKeySst env empty (finishWriters env empty st)

end HapDB
