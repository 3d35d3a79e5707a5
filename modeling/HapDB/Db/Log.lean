import HapDB.Util.Coding

/-!
# `db/log_format.h`, `db/log_writer.cc`, `db/log_reader.cc`: the WAL framing

A log file is a sequence of 32 KiB blocks.  `Writer::AddRecord` cuts a record
into fragments, each written as a physical record (a header and the fragment)
that lies inside one block:

```text
header := crc: fixed32  length: uint8 uint8  type: uint8  [log number: fixed32]
```

The log number is there only in the recyclable types (5 to 8), which the
writer uses when `recycle_log_files` is set; it lets a reader of a reused file
tell this file's records from an older file's.  A block tail too short for a
header is filled with zeros and the writer goes on in the next block.

`Reader::ReadRecord` puts the fragments back together.  It pulls physical
records from `ReadPhysicalRecord`, which parses the header at the front of its
buffer of the current block and refills the buffer one block at a time
(`ReadMore`), and returns either a record type or one of the codes `kEof`,
`kBadRecord`, ... that follow the record types.

The CRC32C functions are parameters (`Crc32c`); the facts about them that the
format relies on are `Crc32c.Lawful`.  Appends and reads of the file never fail
here: the file is the list of bytes the writer appended, and the reader keeps
the part of it not read yet.

Neither loop of the reader has to end: with `retry_after_eof` a reader at the
end of the file keeps polling it, and a record the reader takes for an old one
is not consumed.  Both loops therefore run on fuel and return `none` when it
runs out.
-/

namespace HapDB

/-- `enum class WALRecoveryMode` (`include/rocksdb/options.h`). -/
inductive WALRecoveryMode where
  | kTolerateCorruptedTailRecords
  | kAbsoluteConsistency
  | kPointInTimeRecovery
  | kSkipAnyCorruptedRecords
  deriving DecidableEq, Repr

namespace Log

/-! ## `log_format.h` -/

/-- `enum RecordType`. -/
inductive RecordType where
  | kZeroType
  | kFullType
  | kFirstType
  | kMiddleType
  | kLastType
  | kRecyclableFullType
  | kRecyclableFirstType
  | kRecyclableMiddleType
  | kRecyclableLastType
  deriving DecidableEq, Repr

/-- The value of each record type, the byte of the header. -/
def RecordType.toNat : RecordType → ℕ
  | kZeroType => 0
  | kFullType => 1
  | kFirstType => 2
  | kMiddleType => 3
  | kLastType => 4
  | kRecyclableFullType => 5
  | kRecyclableFirstType => 6
  | kRecyclableMiddleType => 7
  | kRecyclableLastType => 8

def kMaxRecordType : ℕ := 8

def kBlockSize : ℕ := 32768

/-- Checksum, length and type. -/
def kHeaderSize : ℕ := 4 + 2 + 1

/-- Checksum, length, type and log number. -/
def kRecyclableHeaderSize : ℕ := 4 + 2 + 1 + 4

/-- The CRC32C functions of `util/crc32c.h` that the log uses: the checksum of
a byte string, its extension by more bytes, and the masking of a stored
checksum. -/
structure Crc32c where
  value : Bytes → UInt32
  extend : UInt32 → Bytes → UInt32
  mask : UInt32 → UInt32
  unmask : UInt32 → UInt32

/-- What the format needs of the checksum: extending the checksum of `a` by `b`
gives the checksum of `a ++ b`, and unmasking undoes masking. -/
structure Crc32c.Lawful (crc : Crc32c) : Prop where
  extend_value : ∀ a b, crc.extend (crc.value a) b = crc.value (a ++ b)
  unmask_mask : ∀ x, crc.unmask (crc.mask x) = x

/-! ## `log::Writer` -/

/-- The state of a `log::Writer`: the bytes appended to its file so far,
`block_offset_`, `log_number_` and `recycle_log_files_`. -/
structure Writer where
  dest : Bytes
  blockOffset : ℕ
  logNumber : UInt64
  recycleLogFiles : Bool
  deriving DecidableEq, Repr

namespace Writer

/-- A writer on an empty file. -/
def new (logNumber : UInt64) (recycleLogFiles : Bool) : Writer := ⟨[], 0, logNumber, recycleLogFiles⟩

/-- The header size of the writer's record types. -/
def headerSize (w : Writer) : ℕ := if w.recycleLogFiles then kRecyclableHeaderSize else kHeaderSize

/-- `EmitPhysicalRecord`: the header, whose checksum covers the type byte, the
low 32 bits of the log number for a recyclable type, and the payload; then the
payload. -/
def emitPhysicalRecord (crc : Crc32c) (w : Writer) (t : RecordType) (payload : Bytes) : Writer :=
  let n := payload.length
  let typeByte := UInt8.ofNat t.toNat
  -- `buf[7..10]`: only the low 32 bits of `log_number_`
  let logNumberBytes :=
    if t.toNat < RecordType.kRecyclableFullType.toNat then [] else encodeFixed32 w.logNumber.toUInt32
  let headerSize :=
    if t.toNat < RecordType.kRecyclableFullType.toNat then kHeaderSize else kRecyclableHeaderSize
  let c := crc.mask (crc.extend (crc.extend (crc.value [typeByte]) logNumberBytes) payload)
  { w with
    dest := w.dest ++ (encodeFixed32 c ++ [UInt8.ofNat n, UInt8.ofNat (n >>> 8), typeByte] ++
      logNumberBytes) ++ payload
    blockOffset := w.blockOffset + headerSize + n }

/-- The start of a turn of `AddRecord`: a block tail too short for a header is
filled with zeros and the writer moves to the next block. -/
def switchBlock (w : Writer) : Writer :=
  if kBlockSize - w.blockOffset < w.headerSize then
    { w with dest := w.dest ++ List.replicate (kBlockSize - w.blockOffset) 0, blockOffset := 0 }
  else w

/-- The type of a fragment, from whether it is the first and the last of its
record. -/
def fragmentType (recycle begin end_ : Bool) : RecordType :=
  if begin && end_ then (if recycle then .kRecyclableFullType else .kFullType)
  else if begin then (if recycle then .kRecyclableFirstType else .kFirstType)
  else if end_ then (if recycle then .kRecyclableLastType else .kLastType)
  else (if recycle then .kRecyclableMiddleType else .kMiddleType)

/-- The length of the next fragment: what is left, or as much as the block
holds behind a header. -/
def fragmentLength (w : Writer) (left : Bytes) : ℕ :=
  min left.length (kBlockSize - w.switchBlock.blockOffset - w.headerSize)

@[simp] theorem headerSize_emitPhysicalRecord (crc : Crc32c) (w : Writer) (t : RecordType)
    (payload : Bytes) : (w.emitPhysicalRecord crc t payload).headerSize = w.headerSize := rfl

@[simp] theorem headerSize_switchBlock (w : Writer) : w.switchBlock.headerSize = w.headerSize := by
  unfold switchBlock
  split <;> rfl

/-- A fragment's header has the writer's header size. -/
theorem blockOffset_emitPhysicalRecord (crc : Crc32c) (w : Writer) (begin end_ : Bool)
    (payload : Bytes) :
    (w.emitPhysicalRecord crc (fragmentType w.recycleLogFiles begin end_) payload).blockOffset =
      w.blockOffset + w.headerSize + payload.length := by
  simp only [emitPhysicalRecord, headerSize, fragmentType]
  cases w.recycleLogFiles <;> cases begin <;> cases end_ <;> rfl

theorem blockOffset_switchBlock (w : Writer) :
    w.switchBlock.blockOffset =
      if kBlockSize - w.blockOffset < w.headerSize then 0 else w.blockOffset := by
  unfold switchBlock
  split <;> rfl

theorem headerSize_bounds (w : Writer) : 0 < w.headerSize ∧ w.headerSize ≤ kRecyclableHeaderSize := by
  unfold headerSize kHeaderSize kRecyclableHeaderSize
  split <;> omega

/-- The measure of the loop of `AddRecord` goes down: a turn emits a byte, or
emits nothing and fills its block, after which the next turn starts a block. -/
theorem addRecordLoop_decreasing (crc : Crc32c) (w : Writer) (begin : Bool) (left : Bytes)
    (hmore : 0 < left.length - w.fragmentLength left) :
    2 * (left.drop (w.fragmentLength left)).length +
        (if (w.switchBlock.emitPhysicalRecord crc
            (fragmentType w.switchBlock.recycleLogFiles begin (left.length == w.fragmentLength left))
            (left.take (w.fragmentLength left))).blockOffset + w.headerSize = kBlockSize
          then 1 else 0) <
      2 * left.length + (if w.blockOffset + w.headerSize = kBlockSize then 1 else 0) := by
  have hpos := headerSize_bounds w
  unfold kRecyclableHeaderSize at hpos
  rw [blockOffset_emitPhysicalRecord, blockOffset_switchBlock, headerSize_switchBlock]
  simp only [fragmentLength, blockOffset_switchBlock, List.length_drop, List.length_take] at hmore ⊢
  unfold kBlockSize at *
  split_ifs at hmore ⊢ <;> omega

/-- The loop of `AddRecord`: emit the next fragment, as much of what is left
as fits the block, and go on while bytes are left. -/
def addRecordLoop (crc : Crc32c) (w : Writer) (begin : Bool) (left : Bytes) : Writer :=
  let w' := w.switchBlock.emitPhysicalRecord crc
    (fragmentType w.switchBlock.recycleLogFiles begin (left.length == w.fragmentLength left))
    (left.take (w.fragmentLength left))
  if 0 < left.length - w.fragmentLength left then
    addRecordLoop crc w' false (left.drop (w.fragmentLength left))
  else w'
termination_by 2 * left.length + (if w.blockOffset + w.headerSize = kBlockSize then 1 else 0)
decreasing_by
  simp only [headerSize_emitPhysicalRecord, headerSize_switchBlock]
  exact addRecordLoop_decreasing crc w begin left (by assumption)

/-- `AddRecord`: fragment the record and emit it; an empty record is one
empty fragment. -/
def addRecord (crc : Crc32c) (w : Writer) (slice : Bytes) : Writer := w.addRecordLoop crc true slice

end Writer

/-! ## `log::Reader` -/

/-- The codes `ReadPhysicalRecord` returns besides the record types. -/
def kEof : ℕ := kMaxRecordType + 1
def kBadRecord : ℕ := kMaxRecordType + 2
def kBadHeader : ℕ := kMaxRecordType + 3
def kOldRecord : ℕ := kMaxRecordType + 4
def kBadRecordLen : ℕ := kMaxRecordType + 5
def kBadRecordChecksum : ℕ := kMaxRecordType + 6

/-- `const unsigned int type = header[6]`: the header is read through a
(signed) `char`, so a byte from 128 up is sign-extended. -/
def headerType (b : UInt8) : ℕ := if b.toNat < 128 then b.toNat else 2 ^ 32 - 256 + b.toNat

/-- The state of a `log::Reader`: the part of the file not read yet and the
members the reading functions use. -/
structure Reader where
  file : Bytes
  checksum : Bool
  buffer : Bytes
  eof : Bool
  eofOffset : ℕ
  lastRecordOffset : ℕ
  endOfBufferOffset : ℕ
  logNumber : UInt64
  recycled : Bool
  retryAfterEof : Bool
  /-- What the reporter was told, oldest first: the bytes dropped and the
  reason of the corruption. -/
  reports : List (ℕ × String)
  deriving DecidableEq, Repr

/-- What `ReadPhysicalRecord` returns: a record type or a code, `*result` and
`*drop_size`.  A code leaves `*result` unset; `ReadRecord` reads the fragment
only after a record type, so it is empty then. -/
structure PhysicalRecord where
  type : ℕ
  fragment : Bytes
  dropSize : ℕ
  deriving DecidableEq, Repr

/-- What `ReadMore` did: refilled the buffer (the caller goes round again), or
failed with an error code and a drop size. -/
inductive ReadMoreResult where
  | refilled
  | failed (error dropSize : ℕ)
  deriving DecidableEq, Repr

namespace Reader

/-- A reader at the start of `file`. -/
def new (file : Bytes) (checksum : Bool) (logNumber : UInt64) (retryAfterEof : Bool) : Reader :=
  ⟨file, checksum, [], false, 0, 0, 0, logNumber, false, retryAfterEof, []⟩

/-- `ReportCorruption`. -/
def reportCorruption (r : Reader) (bytes : ℕ) (reason : String) : Reader :=
  { r with reports := r.reports ++ [(bytes, reason)] }

/-- `UnmarkEOF`: read the rest of a block that ended the file, behind what is
left in the buffer. -/
def unmarkEOF (r : Reader) : Reader :=
  let r := { r with eof := false }
  if !r.retryAfterEof && r.eofOffset == 0 then r
  else
    let remaining := kBlockSize - r.eofOffset
    let readBuffer := r.file.take remaining
    let added := readBuffer.length
    let r := { r with
      file := r.file.drop remaining
      endOfBufferOffset := r.endOfBufferOffset + added
      buffer := r.buffer ++ readBuffer }
    if added < remaining then { r with eof := true, eofOffset := r.eofOffset + added }
    else { r with eofOffset := 0 }

/-- `ReadMore`: read the next block (dropping a trailer left in the buffer);
at the end of the file retry when asked to, or fail with `kBadHeader` when bytes
are left and `kEof` when none are. -/
def readMore (r : Reader) : ReadMoreResult × Reader :=
  if !r.eof then
    let buffer := r.file.take kBlockSize
    let r := { r with
      buffer
      file := r.file.drop kBlockSize
      endOfBufferOffset := r.endOfBufferOffset + buffer.length }
    if buffer.length < kBlockSize then (.refilled, { r with eof := true, eofOffset := buffer.length })
    else (.refilled, r)
  else if r.retryAfterEof then (.refilled, r.unmarkEOF)
  else if r.buffer.length ≠ 0 then (.failed kBadHeader r.buffer.length, { r with buffer := [] })
  else (.failed kEof 0, { r with buffer := [] })

/-- `ReadPhysicalRecord`: parse the header at the front of the buffer and
return the physical record behind it, refilling the buffer when it is too short
for the header or (with `retry_after_eof`) for the payload. -/
def readPhysicalRecord (crc : Crc32c) : ℕ → Reader → Option (PhysicalRecord × Reader)
  | 0, _ => none
  | fuel + 1, r =>
      if r.buffer.length < kHeaderSize then
        match r.readMore with
        | (.failed e d, r) => some (⟨e, [], d⟩, r)
        | (.refilled, r) => readPhysicalRecord crc fuel r
      else
        let header := r.buffer
        let length := (header.getD 4 0).toNat + (header.getD 5 0).toNat * 256
        let type := headerType (header.getD 6 0)
        let recyclable := RecordType.kRecyclableFullType.toNat ≤ type &&
          type ≤ RecordType.kRecyclableLastType.toNat
        -- a recyclable record at the start of the file marks the file as recycled
        let r := if recyclable && r.endOfBufferOffset - r.buffer.length == 0 then
          { r with recycled := true } else r
        let headerSize := if recyclable then kRecyclableHeaderSize else kHeaderSize
        if recyclable && r.buffer.length < kRecyclableHeaderSize then
          match r.readMore with
          | (.failed e d, r) => some (⟨e, [], d⟩, r)
          | (.refilled, r) => readPhysicalRecord crc fuel r
        -- `log_num != log_number_`: a `uint32_t` against the `uint64_t` member
        else if recyclable && (decodeFixed32 (header.drop 7)).toUInt64 != r.logNumber then
          some (⟨kOldRecord, [], 0⟩, r)
        else if r.buffer.length < headerSize + length then
          if !r.retryAfterEof then
            let dropSize := r.buffer.length
            let r := { r with buffer := [] }
            if !r.eof then some (⟨kBadRecordLen, [], dropSize⟩, r)
            else if dropSize ≠ 0 then some (⟨kBadHeader, [], dropSize⟩, r)
            else some (⟨kEof, [], dropSize⟩, r)
          else
            match r.readMore with
            | (.failed e d, r) => some (⟨e, [], d⟩, r)
            | (.refilled, r) => readPhysicalRecord crc fuel r
        else if type == RecordType.kZeroType.toNat && length == 0 then
          some (⟨kBadRecord, [], 0⟩, { r with buffer := [] })
        else if r.checksum && crc.unmask (decodeFixed32 header) !=
            crc.value ((header.drop 6).take (length + headerSize - 6)) then
          some (⟨kBadRecordChecksum, [], r.buffer.length⟩, { r with buffer := [] })
        else
          some (⟨type, (header.drop headerSize).take length, 0⟩,
            { r with buffer := r.buffer.drop (headerSize + length) })

/-- The locals of `ReadRecord` that live across the turns of its loop. -/
structure ReadRecordState where
  scratch : Bytes
  inFragmentedRecord : Bool
  prospectiveRecordOffset : ℕ
  deriving DecidableEq, Repr

/-- The loop of `ReadRecord`: `some (some record)` is `true` with the record,
`some none` is `false`. -/
def readRecordLoop (crc : Crc32c) (mode : WALRecoveryMode) :
    ℕ → ReadRecordState → Reader → Option (Option Bytes × Reader)
  | 0, _, _ => none
  | fuel + 1, ls, r =>
      let physicalRecordOffset := r.endOfBufferOffset - r.buffer.length
      match r.readPhysicalRecord crc (fuel + 1) with
      | none => none
      | some (pr, r) =>
          let recordType := pr.type
          let fragment := pr.fragment
          if recordType = RecordType.kFullType.toNat ∨
              recordType = RecordType.kRecyclableFullType.toNat then
            let r := if ls.inFragmentedRecord && !ls.scratch.isEmpty then
              r.reportCorruption ls.scratch.length "partial record without end(1)" else r
            some (some fragment, { r with lastRecordOffset := physicalRecordOffset })
          else if recordType = RecordType.kFirstType.toNat ∨
              recordType = RecordType.kRecyclableFirstType.toNat then
            let r := if ls.inFragmentedRecord && !ls.scratch.isEmpty then
              r.reportCorruption ls.scratch.length "partial record without end(2)" else r
            readRecordLoop crc mode fuel ⟨fragment, true, physicalRecordOffset⟩ r
          else if recordType = RecordType.kMiddleType.toNat ∨
              recordType = RecordType.kRecyclableMiddleType.toNat then
            if !ls.inFragmentedRecord then
              readRecordLoop crc mode fuel ls
                (r.reportCorruption fragment.length "missing start of fragmented record(1)")
            else readRecordLoop crc mode fuel { ls with scratch := ls.scratch ++ fragment } r
          else if recordType = RecordType.kLastType.toNat ∨
              recordType = RecordType.kRecyclableLastType.toNat then
            if !ls.inFragmentedRecord then
              readRecordLoop crc mode fuel ls
                (r.reportCorruption fragment.length "missing start of fragmented record(2)")
            else
              some (some (ls.scratch ++ fragment),
                { r with lastRecordOffset := ls.prospectiveRecordOffset })
          else if recordType = kBadHeader ∨ recordType = kEof then
            let r := if recordType = kBadHeader ∧ mode = .kAbsoluteConsistency then
              r.reportCorruption pr.dropSize "truncated header" else r
            let r := if ls.inFragmentedRecord ∧ mode = .kAbsoluteConsistency then
              r.reportCorruption ls.scratch.length "error reading trailing data" else r
            some (none, r)
          -- an old record is the end of the log, except when skipping corruption
          else if recordType = kOldRecord ∧ mode ≠ .kSkipAnyCorruptedRecords then
            let r := if ls.inFragmentedRecord ∧ mode = .kAbsoluteConsistency then
              r.reportCorruption ls.scratch.length "error reading trailing data" else r
            some (none, r)
          else if recordType = kOldRecord ∨ recordType = kBadRecord then
            if ls.inFragmentedRecord then
              readRecordLoop crc mode fuel { ls with inFragmentedRecord := false, scratch := [] }
                (r.reportCorruption ls.scratch.length "error in middle of record")
            else readRecordLoop crc mode fuel ls r
          else if recordType = kBadRecordLen ∨ recordType = kBadRecordChecksum then
            if r.recycled ∧ mode = .kTolerateCorruptedTailRecords then some (none, r)
            else
              let r := r.reportCorruption pr.dropSize
                (if recordType = kBadRecordLen then "bad record length" else "checksum mismatch")
              if ls.inFragmentedRecord then
                readRecordLoop crc mode fuel { ls with inFragmentedRecord := false, scratch := [] }
                  (r.reportCorruption ls.scratch.length "error in middle of record")
              else readRecordLoop crc mode fuel ls r
          else
            readRecordLoop crc mode fuel { ls with inFragmentedRecord := false, scratch := [] }
              (r.reportCorruption
                (fragment.length + (if ls.inFragmentedRecord then ls.scratch.length else 0))
                ("unknown record type " ++ toString recordType))

/-- `ReadRecord`. -/
def readRecord (crc : Crc32c) (mode : WALRecoveryMode) (fuel : ℕ) (r : Reader) :
    Option (Option Bytes × Reader) :=
  r.readRecordLoop crc mode fuel ⟨[], false, 0⟩

/-- The consumer's loop over a log (`repair.cc`:
`while (reader.ReadRecord(&record, &scratch))`): the records `ReadRecord`
returns until it returns `false`, in at most `n` calls. -/
def readRecords (crc : Crc32c) (mode : WALRecoveryMode) (fuel : ℕ) : ℕ → Reader → Option (List Bytes × Reader)
  | 0, _ => none
  | n + 1, r =>
    match r.readRecord crc mode fuel with
    | none => none
    | some (none, r) => some ([], r)
    | some (some record, r) => (readRecords crc mode fuel n r).map fun (records, r) => (record :: records, r)

end Reader

end Log

end HapDB
