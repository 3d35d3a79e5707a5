import HapDB.Db.DbFormat
import HapDB.Lib.ExceptBind
import HapDB.Lib.SortedList
import HapDB.Util.Status

/-!
# `db/version_edit.h`, `db/version_edit.cc`: manifest records

A `VersionEdit` is one change to the set of live files: files deleted from a
level, new files added to a level (the blob files at level `-1`), and the
counters of the store (log numbers, the next file number, the last sequence).
`EncodeTo` writes it as one manifest record, a stream of tagged entries;
`DecodeFrom` reads such a record back into an edit.

```text
record := entry*
entry  := kComparator varstring | kLogNumber varint64 | ...
        | kDeletedFile level:varint32 number:varint64
        | kNewFile4 level:varint32 number:varint64 size:varint64
                    smallest:varstring largest:varstring
                    smallest_seqno:varint64 largest_seqno:varint64
                    (custom_tag:varint32 field:varstring)* kTerminate
```

The custom fields of `kNewFile4` are the one part of the format that an older
reader may skip: a field whose tag has bit 6 clear is ignored when it is not
known.  They carry the path id, the compaction mark (bit-reversed), the table
properties cached in the manifest, and, in the first new file of an edit, the
minimum log number to keep.

Two members of the edit take no part in the format: `new_blobs_` and
`blob_dependence_`, the blob lineage a garbage collection records for the file
map.  `Clear` does not reset them either.

`DecodeFrom` leaves the edit partly decoded when it fails; every caller drops
the edit then, so here it returns the error alone.
-/

namespace HapDB

/-! ## File descriptors and metadata -/

/-- `kFileNumberMask`: the low 62 bits of a packed file number hold the
number, the top two bits the path id. -/
def kFileNumberMask : UInt64 := 0x3FFFFFFFFFFFFFFF

/-- `port::kMaxUint64`. -/
def kMaxUint64 : UInt64 := 0xFFFFFFFFFFFFFFFF

/-- `PackFileNumberAndPathId`. -/
def packFileNumberAndPathId (number pathId : UInt64) : UInt64 :=
  number ||| pathId * (kFileNumberMask + 1)

/-- The fields of `FileDescriptor` other than the table reader. -/
structure FileDescriptor where
  packedNumberAndPathId : UInt64
  fileSize : UInt64
  smallestSeqno : UInt64
  largestSeqno : UInt64
  deriving DecidableEq, Repr

namespace FileDescriptor

/-- `FileDescriptor(number, path_id, file_size, smallest_seqno, largest_seqno)`. -/
def make (number : UInt64) (pathId : UInt32) (fileSize smallestSeqno largestSeqno : UInt64) :
    FileDescriptor :=
  ⟨packFileNumberAndPathId number pathId.toUInt64, fileSize, smallestSeqno, largestSeqno⟩

/-- `FileDescriptor(number, path_id, file_size)`: no sequence number seen yet. -/
def make3 (number : UInt64) (pathId : UInt32) (fileSize : UInt64) : FileDescriptor :=
  make number pathId fileSize kMaxSequenceNumber 0

/-- `GetNumber`. -/
def getNumber (fd : FileDescriptor) : UInt64 := fd.packedNumberAndPathId &&& kFileNumberMask

/-- `GetPathId`. -/
def getPathId (fd : FileDescriptor) : UInt32 :=
  (fd.packedNumberAndPathId / (kFileNumberMask + 1)).toUInt32

end FileDescriptor

/-- `Dependence` (`include/rocksdb/types.h`): a file this one hides, with the
number of its entries that it covers. -/
structure Dependence where
  fileNumber : UInt64
  entryCount : UInt64
  deriving DecidableEq, Repr

/-- `TablePropertyCache`: the table properties kept in the manifest. -/
structure TablePropertyCache where
  numEntries : UInt64 := 0
  numDeletions : UInt64 := 0
  rawKeySize : UInt64 := 0
  rawValueSize : UInt64 := 0
  flags : UInt8 := 0
  purpose : UInt8 := 0
  maxReadAmp : UInt16 := 1
  readAmp : Float32 := 1
  dependence : List Dependence := []
  inheritance : List UInt64 := []
  earliestTimeBeginCompact : UInt64 := kMaxUint64
  latestTimeEndCompact : UInt64 := kMaxUint64
  deriving Repr

/-- `InternalKey`, by its encoded form. -/
structure InternalKey where
  rep : Bytes
  deriving DecidableEq, Repr

/-- `InternalKey::Valid`. -/
def InternalKey.valid (k : InternalKey) : Bool := internalKeyValid k.rep

/-- The fields of `FileMetaData` that the manifest and the version builder
use. -/
structure FileMetaData where
  fd : FileDescriptor := FileDescriptor.make3 0 0 0
  smallest : InternalKey := ⟨[]⟩
  largest : InternalKey := ⟨[]⟩
  needUpgrade : Bool := false
  markedForCompaction : UInt8 := 0
  prop : TablePropertyCache := {}
  deriving Repr

/-! ## The edit -/

/-- An element of `DeletedFileSet`: the pair (level, file number). -/
structure DeletedFile where
  level : Int32
  number : UInt64
  deriving DecidableEq, Repr

/-- The order of `std::pair<int, uint64_t>`: by level, then by number. -/
def DeletedFile.key (d : DeletedFile) : Lex (ℤ × ℕ) := toLex (d.level.toInt, d.number.toNat)

theorem DeletedFile.key_injective : Function.Injective DeletedFile.key := by
  rintro ⟨l₁, n₁⟩ ⟨l₂, n₂⟩ h
  simp only [DeletedFile.key, toLex_inj, Prod.mk.injEq] at h
  rw [Int32.toInt_inj.mp h.1, UInt64.toNat_inj.mp h.2]

instance : LinearOrder DeletedFile := LinearOrder.lift' DeletedFile.key DeletedFile.key_injective

/-- `VersionEdit`, without its apply callbacks. -/
structure VersionEdit where
  maxLevel : Int32 := 0
  comparator : Bytes := []
  logNumber : UInt64 := 0
  prevLogNumber : UInt64 := 0
  nextFileNumber : UInt64 := 0
  maxColumnFamily : UInt32 := 0
  minLogNumberToKeep : UInt64 := 0
  lastSequence : UInt64 := 0
  hasComparator : Bool := false
  hasLogNumber : Bool := false
  hasPrevLogNumber : Bool := false
  hasNextFileNumber : Bool := false
  hasLastSequence : Bool := false
  hasMaxColumnFamily : Bool := false
  hasMinLogNumberToKeep : Bool := false
  deletedFiles : SortedList DeletedFile := SortedList.empty
  newFiles : List (Int32 × FileMetaData) := []
  newBlobs : List FileMetaData := []
  blobDependence : List (FileMetaData × FileMetaData) := []
  columnFamily : UInt32 := 0
  isColumnFamilyDrop : Bool := false
  isColumnFamilyAdd : Bool := false
  columnFamilyName : Bytes := []
  isOpenDb : Bool := false
  isInAtomicGroup : Bool := false
  remainingEntries : UInt32 := 0

namespace VersionEdit

/-- `Clear`: every member back to its initial value, except `new_blobs_` and
`blob_dependence_`, which `Clear` does not touch. -/
def clear (e : VersionEdit) : VersionEdit :=
  { newBlobs := e.newBlobs, blobDependence := e.blobDependence }

/-- `VersionEdit()`. -/
def new : VersionEdit := {}

def setComparatorName (e : VersionEdit) (name : Bytes) : VersionEdit :=
  { e with hasComparator := true, comparator := name }

def setLogNumber (e : VersionEdit) (num : UInt64) : VersionEdit :=
  { e with hasLogNumber := true, logNumber := num }

def setPrevLogNumber (e : VersionEdit) (num : UInt64) : VersionEdit :=
  { e with hasPrevLogNumber := true, prevLogNumber := num }

def setNextFile (e : VersionEdit) (num : UInt64) : VersionEdit :=
  { e with hasNextFileNumber := true, nextFileNumber := num }

def setLastSequence (e : VersionEdit) (seq : UInt64) : VersionEdit :=
  { e with hasLastSequence := true, lastSequence := seq }

def setMaxColumnFamily (e : VersionEdit) (maxColumnFamily : UInt32) : VersionEdit :=
  { e with hasMaxColumnFamily := true, maxColumnFamily := maxColumnFamily }

def setMinLogNumberToKeep (e : VersionEdit) (num : UInt64) : VersionEdit :=
  { e with hasMinLogNumberToKeep := true, minLogNumberToKeep := num }

/-- `AddFile(level, file, path_id, file_size, smallest, largest, ...)`. -/
def addFile (e : VersionEdit) (level : Int32) (file : UInt64) (filePathId : UInt32)
    (fileSize : UInt64) (smallest largest : InternalKey) (smallestSeqno largestSeqno : UInt64)
    (markedForCompaction : UInt8) (prop : TablePropertyCache) : VersionEdit :=
  { e with newFiles := e.newFiles ++
      [(level, { fd := FileDescriptor.make file filePathId fileSize smallestSeqno largestSeqno,
                 smallest, largest, markedForCompaction, prop })] }

/-- `AddFile(level, f)`. -/
def addFileMeta (e : VersionEdit) (level : Int32) (f : FileMetaData) : VersionEdit :=
  { e with newFiles := e.newFiles ++ [(level, f)] }

/-- `AddNewBlob`. -/
def addNewBlob (e : VersionEdit) (f : FileMetaData) : VersionEdit :=
  { e with newBlobs := e.newBlobs ++ [f] }

/-- `AddBlobDependence(f1, f2)`: `f1` generated `f2` in a garbage collection. -/
def addBlobDependence (e : VersionEdit) (f1 f2 : FileMetaData) : VersionEdit :=
  { e with blobDependence := e.blobDependence ++ [(f1, f2)] }

/-- `DeleteFile`. -/
def deleteFile (e : VersionEdit) (level : Int32) (file : UInt64) : VersionEdit :=
  { e with deletedFiles := e.deletedFiles.insert ⟨level, file⟩ }

def setColumnFamily (e : VersionEdit) (columnFamilyId : UInt32) : VersionEdit :=
  { e with columnFamily := columnFamilyId }

def addColumnFamily (e : VersionEdit) (name : Bytes) : VersionEdit :=
  { e with isColumnFamilyAdd := true, columnFamilyName := name }

def dropColumnFamily (e : VersionEdit) : VersionEdit := { e with isColumnFamilyDrop := true }

def markAtomicGroup (e : VersionEdit) (remainingEntries : UInt32) : VersionEdit :=
  { e with isInAtomicGroup := true, remainingEntries := remainingEntries }

end VersionEdit

/-! ## Tags -/

/-- `enum Tag`: the entries of a manifest record. -/
inductive Tag where
  | kComparator
  | kLogNumber
  | kNextFileNumber
  | kLastSequence
  | kCompactPointer
  | kDeletedFile
  | kNewFile
  | kPrevLogNumber
  | kMinLogNumberToKeep
  | kNewFile2
  | kNewFile3
  | kNewFile4
  | kColumnFamily
  | kColumnFamilyAdd
  | kColumnFamilyDrop
  | kMaxColumnFamily
  | kInAtomicGroup
  deriving DecidableEq, Repr

namespace Tag

/-- The number of each tag, as written. -/
def toUInt32 : Tag → UInt32
  | kComparator => 1
  | kLogNumber => 2
  | kNextFileNumber => 3
  | kLastSequence => 4
  | kCompactPointer => 5
  | kDeletedFile => 6
  | kNewFile => 7
  | kPrevLogNumber => 9
  | kMinLogNumberToKeep => 10
  | kNewFile2 => 100
  | kNewFile3 => 102
  | kNewFile4 => 103
  | kColumnFamily => 200
  | kColumnFamilyAdd => 201
  | kColumnFamilyDrop => 202
  | kMaxColumnFamily => 203
  | kInAtomicGroup => 300

/-- The tag a number names, if any. -/
def ofUInt32? (v : UInt32) : Option Tag :=
  match v.toNat with
  | 1 => some kComparator
  | 2 => some kLogNumber
  | 3 => some kNextFileNumber
  | 4 => some kLastSequence
  | 5 => some kCompactPointer
  | 6 => some kDeletedFile
  | 7 => some kNewFile
  | 9 => some kPrevLogNumber
  | 10 => some kMinLogNumberToKeep
  | 100 => some kNewFile2
  | 102 => some kNewFile3
  | 103 => some kNewFile4
  | 200 => some kColumnFamily
  | 201 => some kColumnFamilyAdd
  | 202 => some kColumnFamilyDrop
  | 203 => some kMaxColumnFamily
  | 300 => some kInAtomicGroup
  | _ => none

@[simp] theorem ofUInt32?_toUInt32 (t : Tag) : ofUInt32? t.toUInt32 = some t := by
  cases t <;> rfl

end Tag

/-- `enum CustomTag`: the fields of a `kNewFile4` entry. -/
inductive CustomTag where
  | kTerminate
  | kNeedCompaction
  | kMinLogNumberToKeepHack
  | kPropertyCache
  | kPathId
  deriving DecidableEq, Repr

namespace CustomTag

def toUInt32 : CustomTag → UInt32
  | kTerminate => 1
  | kNeedCompaction => 2
  | kMinLogNumberToKeepHack => 3
  | kPropertyCache => 64
  | kPathId => 65

def ofUInt32? (v : UInt32) : Option CustomTag :=
  match v.toNat with
  | 1 => some kTerminate
  | 2 => some kNeedCompaction
  | 3 => some kMinLogNumberToKeepHack
  | 64 => some kPropertyCache
  | 65 => some kPathId
  | _ => none

@[simp] theorem ofUInt32?_toUInt32 (t : CustomTag) : ofUInt32? t.toUInt32 = some t := by
  cases t <;> rfl

end CustomTag

/-- `kCustomTagNonSafeIgnoreMask`: a reader must understand a field whose tag
has this bit. -/
def kCustomTagNonSafeIgnoreMask : UInt32 := (1 : UInt32) <<< 6

/-- The lookup table of `reverse_byte`. -/
def reverseByteLookup : List UInt8 := [0x0, 0x8, 0x4, 0xc, 0x2, 0xa, 0x6, 0xe, 0x1, 0x9, 0x5, 0xd,
  0x3, 0xb, 0x7, 0xf]

/-- `reverse_byte`: the bits of a byte in the opposite order. -/
def reverseByte (v : UInt8) : UInt8 :=
  (reverseByteLookup.getD (v &&& 0b1111).toNat 0 <<< 4) ||| reverseByteLookup.getD (v >>> 4).toNat 0

/-- A `char` converted to `uint32_t`: sign-extended from bit 7. -/
def charToUInt32 (c : UInt8) : UInt32 := if c < 128 then c.toUInt32 else c.toUInt32 + 0xFFFFFF00

/-! ## `EncodeTo` -/

namespace VersionEdit

/-- The `kPropertyCache` field: the purpose byte and the dependence, then the
later groups in the order they were added to the format. -/
def encodePropertyCache (p : TablePropertyCache) : Bytes :=
  let s : Bytes := [p.purpose]
  let s := putVarint64 s (UInt64.ofNat p.dependence.length)
  let s := p.dependence.foldl (fun s d => putVarint64 s d.fileNumber) s
  let s := putVarint64 s p.numEntries
  let s := putVarint32Varint64 s p.maxReadAmp.toUInt32 (doubleToU64 p.readAmp.toFloat)
  let s := putVarint64 s (UInt64.ofNat p.inheritance.length)
  let s := p.inheritance.foldl putVarint64 s
  let s := p.dependence.foldl (fun s d => putVarint64 s d.entryCount) s
  let s := putVarint64 s p.numDeletions
  let s := s ++ [p.flags]
  let s := putVarint64Varint64 s p.rawKeySize p.rawValueSize
  let s := putVarint64 s p.earliestTimeBeginCompact
  putVarint64 s p.latestTimeEndCompact

/-- One `kNewFile4` entry; `minLogNumWritten` says whether an earlier file
already carried the minimum log number to keep. -/
def encodeNewFile4 (e : VersionEdit) (minLogNumWritten : Bool) (level : Int32) (f : FileMetaData)
    (dst : Bytes) : Bytes :=
  let dst := putVarint32 dst Tag.kNewFile4.toUInt32
  let dst := putVarint32Varint64 dst level.toUInt32 f.fd.getNumber
  let dst := putVarint64 dst f.fd.fileSize
  let dst := putLengthPrefixedSlice dst f.smallest.rep
  let dst := putLengthPrefixedSlice dst f.largest.rep
  let dst := putVarint64Varint64 dst f.fd.smallestSeqno f.fd.largestSeqno
  let dst := if f.fd.getPathId ≠ 0 then
      putLengthPrefixedSlice (putVarint32 dst CustomTag.kPathId.toUInt32) [f.fd.getPathId.toUInt8]
    else dst
  let dst := if f.markedForCompaction ≠ 0 then
      putLengthPrefixedSlice (putVarint32 dst CustomTag.kNeedCompaction.toUInt32)
        [reverseByte f.markedForCompaction]
    else dst
  -- the minimum log number to keep rides on the first new file
  let dst := if e.hasMinLogNumberToKeep && !minLogNumWritten then
      putLengthPrefixedSlice (putVarint32 dst CustomTag.kMinLogNumberToKeepHack.toUInt32)
        (encodeFixed64 e.minLogNumberToKeep)
    else dst
  let dst := putLengthPrefixedSlice (putVarint32 dst CustomTag.kPropertyCache.toUInt32)
    (encodePropertyCache f.prop)
  putVarint32 dst CustomTag.kTerminate.toUInt32

/-- The loop over `new_files_`: `none` as soon as a file has an invalid key. -/
def encodeNewFiles (e : VersionEdit) : Bool → List (Int32 × FileMetaData) → Bytes → Option Bytes
  | _, [], dst => some dst
  | minLogNumWritten, (level, f) :: rest, dst =>
      if !f.smallest.valid || !f.largest.valid then none
      else
        encodeNewFiles e (minLogNumWritten || e.hasMinLogNumberToKeep) rest
          (e.encodeNewFile4 minLogNumWritten level f dst)

/-- `EncodeTo`: the record, or `none` (`false`) when a new file has an invalid
smallest or largest key. -/
def encodeTo (e : VersionEdit) (dst : Bytes) : Option Bytes := do
  let dst := if e.hasComparator then
      putLengthPrefixedSlice (putVarint32 dst Tag.kComparator.toUInt32) e.comparator else dst
  let dst := if e.hasLogNumber then putVarint32Varint64 dst Tag.kLogNumber.toUInt32 e.logNumber else dst
  let dst := if e.hasPrevLogNumber then
      putVarint32Varint64 dst Tag.kPrevLogNumber.toUInt32 e.prevLogNumber else dst
  let dst := if e.hasNextFileNumber then
      putVarint32Varint64 dst Tag.kNextFileNumber.toUInt32 e.nextFileNumber else dst
  let dst := if e.hasLastSequence then
      putVarint32Varint64 dst Tag.kLastSequence.toUInt32 e.lastSequence else dst
  let dst := if e.hasMaxColumnFamily then
      putVarint32Varint32 dst Tag.kMaxColumnFamily.toUInt32 e.maxColumnFamily else dst
  let dst := e.deletedFiles.1.foldl
    (fun dst d => putVarint32Varint32Varint64 dst Tag.kDeletedFile.toUInt32 d.level.toUInt32 d.number) dst
  let dst ← e.encodeNewFiles false e.newFiles dst
  let dst := if e.columnFamily ≠ 0 then
      putVarint32Varint32 dst Tag.kColumnFamily.toUInt32 e.columnFamily else dst
  let dst := if e.isColumnFamilyAdd then
      putLengthPrefixedSlice (putVarint32 dst Tag.kColumnFamilyAdd.toUInt32) e.columnFamilyName else dst
  let dst := if e.isColumnFamilyDrop then putVarint32 dst Tag.kColumnFamilyDrop.toUInt32 else dst
  let dst := if e.isInAtomicGroup then
      putVarint32 (putVarint32 dst Tag.kInAtomicGroup.toUInt32) e.remainingEntries else dst
  pure dst

end VersionEdit

/-! ## Decoding -/

/-- The error `msg` when a reader fails. -/
def orError {α : Type} (msg : String) : Option α → Except String α
  | some a => .ok a
  | none => .error msg

/-- `n` varint64s in a row (the loops of the property cache over a count read
from the input). -/
def getVarint64s : ℕ → Bytes → Option (List UInt64 × Bytes)
  | 0, input => some ([], input)
  | n + 1, input =>
      match getVarint64 input with
      | none => none
      | some (v, input) =>
          match getVarint64s n input with
          | none => none
          | some (vs, input) => some (v :: vs, input)

/-- `GetInternalKey`: a length-prefixed key, which must be valid. -/
def getInternalKey (input : Bytes) : Option (InternalKey × Bytes) :=
  match getLengthPrefixedSlice input with
  | some (str, input) => if internalKeyValid str then some (⟨str⟩, input) else none
  | none => none

/-- `dependence.entry_count` read one by one for the dependence in order. -/
def setEntryCounts (dependence : List Dependence) (counts : List UInt64) : List Dependence :=
  List.zipWith (fun d c => { d with entryCount := c }) dependence counts

/-- The groups of the `kPropertyCache` field after the dependence numbers, each
read only when bytes are left, so that a field written by an older writer
decodes too. -/
def decodePropertyCacheGroups (p : TablePropertyCache) (field : Bytes) :
    Except String TablePropertyCache := do
  let errorMsg := "prop field"
  let (p, field) ← if field.isEmpty then pure (p, field) else do
    let (numEntries, field) ← orError errorMsg (getVarint64 field)
    pure ({ p with numEntries := numEntries }, field)
  let (p, field) ← if field.isEmpty then pure (p, field) else do
    let (maxReadAmp, field) ← orError errorMsg (getVarint32 field)
    let (readAmp, field) ← orError errorMsg (getVarint64 field)
    let (size, field) ← orError errorMsg (getVarint64 field)
    let (inheritance, field) ← orError errorMsg (getVarint64s size.toNat field)
    pure ({ p with
      maxReadAmp := maxReadAmp.toUInt16
      readAmp := (u64ToDouble readAmp).toFloat32
      inheritance := p.inheritance ++ inheritance }, field)
  let (p, field) ← if field.isEmpty then pure (p, field) else do
    let (counts, field) ← orError errorMsg (getVarint64s p.dependence.length field)
    pure ({ p with dependence := setEntryCounts p.dependence counts }, field)
  let (p, field) ← if field.isEmpty then pure (p, field) else do
    let (numDeletions, field) ← orError errorMsg (getVarint64 field)
    match field with
    | [] => throw errorMsg
    | flags :: field => pure ({ p with numDeletions := numDeletions, flags := flags }, field)
  let (p, field) ← if field.isEmpty then pure (p, field) else do
    let (rawKeySize, field) ← orError errorMsg (getVarint64 field)
    let (rawValueSize, field) ← orError errorMsg (getVarint64 field)
    pure ({ p with rawKeySize := rawKeySize, rawValueSize := rawValueSize }, field)
  if field.isEmpty then pure p else do
    let (earliestTimeBeginCompact, field) ← orError errorMsg (getVarint64 field)
    let (latestTimeEndCompact, _) ← orError errorMsg (getVarint64 field)
    pure { p with
      earliestTimeBeginCompact := earliestTimeBeginCompact
      latestTimeEndCompact := latestTimeEndCompact }

/-- The `kPropertyCache` field, read into the properties `p` of the file; the
dependence and the inheritance are appended to, as `emplace_back` does. -/
def decodePropertyCache (p : TablePropertyCache) (field : Bytes) : Except String TablePropertyCache :=
  match field with
  | [] => .error "prop field wrong size"
  | purpose :: field => do
      let (size, field) ← orError "prop field" (getVarint64 field)
      let (numbers, field) ← orError "prop field" (getVarint64s size.toNat field)
      decodePropertyCacheGroups
        { p with
          purpose := purpose
          dependence := p.dependence ++ numbers.map fun fileNumber => ⟨fileNumber, 0⟩ } field

namespace VersionEdit

/-- `max_level_` raised to `level`. -/
def raiseMaxLevel (e : VersionEdit) (level : Int32) : VersionEdit :=
  if e.maxLevel < level then { e with maxLevel := level } else e

/-- `GetLevel`: a varint32 taken as an `int`; it raises `max_level_`. -/
def getLevel (e : VersionEdit) (input : Bytes) : Option (Int32 × Bytes × VersionEdit) :=
  match getVarint32 input with
  | some (v, input) => some (v.toInt32, input, e.raiseMaxLevel v.toInt32)
  | none => none

/-- One custom field of a `kNewFile4` entry, with its tag and contents; the
path id is kept aside until the descriptor is built. -/
def decodeCustomField (e : VersionEdit) (f : FileMetaData) (pathId : UInt32) (customTag : UInt32)
    (field : Bytes) : Except String (VersionEdit × FileMetaData × UInt32) :=
  match CustomTag.ofUInt32? customTag with
  | some .kPathId =>
      match field with
      | [c] =>
          let pathId := charToUInt32 c
          if pathId > 3 then .error "path_id wrong value" else .ok (e, f, pathId)
      | _ => .error "path_id field wrong size"
  | some .kNeedCompaction =>
      match field with
      | [c] => .ok (e, { f with markedForCompaction := reverseByte c }, pathId)
      | _ => .error "need_compaction field wrong size"
  | some .kMinLogNumberToKeepHack =>
      match getFixed64 field with
      | some (v, _) => .ok (e.setMinLogNumberToKeep v, f, pathId)
      | none => .error "deleted log number malformatted"
  | some .kPropertyCache => do
      let prop ← decodePropertyCache f.prop field
      -- a file with table properties in the manifest needs no upgrade
      let needUpgrade := f.needUpgrade &&
        !(prop.numEntries > 0 || prop.rawKeySize > 0 || prop.rawValueSize > 0)
      pure (e, { f with prop := prop, needUpgrade := needUpgrade }, pathId)
  | _ =>
      if customTag &&& kCustomTagNonSafeIgnoreMask ≠ 0 then
        .error "new-file4 custom field not supported"
      else .ok (e, f, pathId)

/-- The loop over the custom fields of a `kNewFile4` entry, up to `kTerminate`. -/
def decodeCustomFields (e : VersionEdit) (f : FileMetaData) (pathId : UInt32) (input : Bytes) :
    Except String (Bytes × VersionEdit × FileMetaData × UInt32) :=
  match h : getVarint32 input with
  | none => .error "new-file4 custom field"
  | some (customTag, rest) =>
      if customTag = CustomTag.kTerminate.toUInt32 then .ok (rest, e, f, pathId)
      else
        match h' : getLengthPrefixedSlice rest with
        | none => .error "new-file4 custom field lenth prefixed slice error"
        | some (field, rest') =>
            match e.decodeCustomField f pathId customTag field with
            | .error msg => .error msg
            | .ok (e, f, pathId) => decodeCustomFields e f pathId rest'
termination_by input.length
decreasing_by
  have h1 := length_lt_of_getVarint32 h
  have h2 := length_lt_of_getLengthPrefixedSlice h'
  omega

/-- `DecodeNewFile4From`. -/
def decodeNewFile4From (e : VersionEdit) (input : Bytes) : Except String (Bytes × VersionEdit) := do
  let msg := "new-file4 entry"
  let (level, input, e) ← orError msg (e.getLevel input)
  let (number, input) ← orError msg (getVarint64 input)
  let (fileSize, input) ← orError msg (getVarint64 input)
  let (smallest, input) ← orError msg (getInternalKey input)
  let (largest, input) ← orError msg (getInternalKey input)
  let (smallestSeqno, input) ← orError msg (getVarint64 input)
  let (largestSeqno, input) ← orError msg (getVarint64 input)
  let (input, e, f, pathId) ←
    e.decodeCustomFields { smallest := smallest, largest := largest, needUpgrade := true } 0 input
  let fd := FileDescriptor.make number pathId fileSize smallestSeqno largestSeqno
  pure (input, e.addFileMeta level { f with fd := fd })

/-- The legacy new-file entries, `kNewFile`, `kNewFile2` and `kNewFile3`: a
level, a number, a path id (in `kNewFile3`), a size, the two keys, and the
sequence numbers (but in `kNewFile`). -/
def decodeLegacyNewFile (e : VersionEdit) (withPathId withSeqnos : Bool) (msg : String)
    (input : Bytes) : Except String (Bytes × VersionEdit) := do
  let (level, input, e) ← orError msg (e.getLevel input)
  let (number, input) ← orError msg (getVarint64 input)
  let (pathId, input) ← if withPathId then orError msg (getVarint32 input) else pure (0, input)
  let (fileSize, input) ← orError msg (getVarint64 input)
  let (smallest, input) ← orError msg (getInternalKey input)
  let (largest, input) ← orError msg (getInternalKey input)
  let (fd, input) ← if withSeqnos then do
      let (smallestSeqno, input) ← orError msg (getVarint64 input)
      let (largestSeqno, input) ← orError msg (getVarint64 input)
      pure (FileDescriptor.make number pathId fileSize smallestSeqno largestSeqno, input)
    else pure (FileDescriptor.make3 number 0 fileSize, input)
  pure (input, e.addFileMeta level
    { fd := fd, smallest := smallest, largest := largest, needUpgrade := true })

/-- The `switch (tag)` of `DecodeFrom`: one entry, after its tag.  Each entry
sets its members as the setter of the API does. -/
def decodeEntry (e : VersionEdit) (tag : UInt32) (input : Bytes) : Except String (Bytes × VersionEdit) :=
  match Tag.ofUInt32? tag with
  | some .kComparator => do
      let (str, input) ← orError "comparator name" (getLengthPrefixedSlice input)
      pure (input, e.setComparatorName str)
  | some .kLogNumber => do
      let (v, input) ← orError "log number" (getVarint64 input)
      pure (input, e.setLogNumber v)
  | some .kPrevLogNumber => do
      let (v, input) ← orError "previous log number" (getVarint64 input)
      pure (input, e.setPrevLogNumber v)
  | some .kNextFileNumber => do
      let (v, input) ← orError "next file number" (getVarint64 input)
      pure (input, e.setNextFile v)
  | some .kLastSequence => do
      let (v, input) ← orError "last sequence number" (getVarint64 input)
      pure (input, e.setLastSequence v)
  | some .kMaxColumnFamily => do
      let (v, input) ← orError "max column family" (getVarint32 input)
      pure (input, e.setMaxColumnFamily v)
  | some .kMinLogNumberToKeep => do
      let (v, input) ← orError "min log number to kee" (getVarint64 input)
      pure (input, e.setMinLogNumberToKeep v)
  | some .kCompactPointer => do
      -- compaction pointers are no longer used, but still read
      let (_, input, e) ← orError "compaction pointer" (e.getLevel input)
      let (_, input) ← orError "compaction pointer" (getInternalKey input)
      pure (input, e)
  | some .kDeletedFile => do
      let (level, input, e) ← orError "deleted file" (e.getLevel input)
      let (number, input) ← orError "deleted file" (getVarint64 input)
      pure (input, e.deleteFile level number)
  | some .kNewFile => e.decodeLegacyNewFile false false "new-file entry" input
  | some .kNewFile2 => e.decodeLegacyNewFile false true "new-file2 entry" input
  | some .kNewFile3 => e.decodeLegacyNewFile true true "new-file3 entry" input
  | some .kNewFile4 => e.decodeNewFile4From input
  | some .kColumnFamily => do
      let (v, input) ← orError "set column family id" (getVarint32 input)
      pure (input, e.setColumnFamily v)
  | some .kColumnFamilyAdd => do
      let (str, input) ← orError "column family add" (getLengthPrefixedSlice input)
      pure (input, e.addColumnFamily str)
  | some .kColumnFamilyDrop => pure (input, e.dropColumnFamily)
  | some .kInAtomicGroup => do
      let (v, input) ← orError "remaining entries" (getVarint32 input)
      pure (input, e.markAtomicGroup v)
  | none => .error "unknown tag"

/-! ### Readers consume their input -/

@[simp] theorem orError_eq_ok {α : Type} {msg : String} {o : Option α} {a : α} :
    orError msg o = .ok a ↔ o = some a := by
  cases o <;> simp [orError]

@[simp] theorem orError_some {α : Type} (msg : String) (a : α) : orError msg (some a) = .ok a := rfl

@[grind →] theorem getVarint64s_length {n : ℕ} {input rest : Bytes} {vs : List UInt64}
    (h : getVarint64s n input = some (vs, rest)) : rest.length ≤ input.length := by
  induction n generalizing input vs with
  | zero =>
      simp only [getVarint64s, Option.some.injEq, Prod.mk.injEq] at h
      rw [h.2]
  | succ n ih =>
      unfold getVarint64s at h
      split at h
      · cases h
      · rename_i v input' hv
        split at h
        · cases h
        · rename_i vs' rest' hvs
          cases h
          have := ih hvs
          have := length_lt_of_getVarint64 hv
          omega

@[grind →] theorem getInternalKey_length {input rest : Bytes} {k : InternalKey}
    (h : getInternalKey input = some (k, rest)) : rest.length < input.length := by
  unfold getInternalKey at h
  split at h
  · split at h
    · cases h
      exact length_lt_of_getLengthPrefixedSlice (by assumption)
    · cases h
  · cases h

@[grind →] theorem getLevel_length {e e' : VersionEdit} {input rest : Bytes} {level : Int32}
    (h : e.getLevel input = some (level, rest, e')) : rest.length < input.length := by
  unfold getLevel at h
  split at h
  · cases h
    exact length_lt_of_getVarint32 (by assumption)
  · cases h

@[grind →] theorem decodeCustomFields_length {e e' : VersionEdit} {f f' : FileMetaData}
    {pathId pathId' : UInt32} {input rest : Bytes}
    (h : e.decodeCustomFields f pathId input = .ok (rest, e', f', pathId')) :
    rest.length ≤ input.length := by
  rw [decodeCustomFields] at h
  split at h
  · cases h
  · rename_i customTag rest₀ hvar
    have h₀ := length_lt_of_getVarint32 hvar
    split at h
    · cases h
      omega
    · split at h
      · cases h
      · rename_i field rest₁ hslice
        have h₁ := length_lt_of_getLengthPrefixedSlice hslice
        split at h
        · cases h
        · have := decodeCustomFields_length h
          omega
termination_by input.length
decreasing_by
  all_goals
    have h₀ := length_lt_of_getVarint32 (by assumption)
    have h₁ := length_lt_of_getLengthPrefixedSlice (by assumption)
    omega

@[grind →] theorem decodeNewFile4From_length {e e' : VersionEdit} {input rest : Bytes}
    (h : e.decodeNewFile4From input = .ok (rest, e')) : rest.length ≤ input.length := by
  unfold decodeNewFile4From at h
  simp only [Except.bind_eq_ok_iff, orError_eq_ok, Except.pure_eq_ok_iff, Prod.exists,
    Prod.mk.injEq] at h
  grind

@[grind →] theorem decodeLegacyNewFile_length {e e' : VersionEdit} {withPathId withSeqnos : Bool}
    {msg : String} {input rest : Bytes}
    (h : e.decodeLegacyNewFile withPathId withSeqnos msg input = .ok (rest, e')) :
    rest.length ≤ input.length := by
  unfold decodeLegacyNewFile at h
  cases withPathId <;> cases withSeqnos <;>
    simp only [Except.bind_eq_ok_iff, orError_eq_ok, Except.pure_eq_ok_iff, Prod.exists,
      Prod.mk.injEq, Bool.false_eq_true, if_true, if_false] at h <;> grind

/-- Every entry reader leaves a suffix of its input no longer than it. -/
theorem decodeEntry_length {e e' : VersionEdit} {tag : UInt32} {input rest : Bytes}
    (h : e.decodeEntry tag input = .ok (rest, e')) : rest.length ≤ input.length := by
  unfold decodeEntry at h
  -- the new-file entries have their own lemmas; the others are chains of readers
  split at h
  all_goals
    (try simp only [Except.bind_eq_ok_iff, orError_eq_ok, Except.pure_eq_ok_iff, Prod.exists,
      Prod.mk.injEq, reduceCtorEq] at h) <;> grind

/-- The loop of `DecodeFrom`: entries while a tag can be read; input left over
that holds no tag is an error. -/
def decodeLoop (e : VersionEdit) (input : Bytes) : Except String VersionEdit :=
  match h : getVarint32 input with
  | none => if input.isEmpty then .ok e else .error "invalid tag"
  | some (tag, rest) =>
      match h' : e.decodeEntry tag rest with
      | .error msg => .error msg
      | .ok (rest', e') => decodeLoop e' rest'
termination_by input.length
decreasing_by
  have h1 := length_lt_of_getVarint32 h
  have h2 := decodeEntry_length h'
  omega

/-- `DecodeFrom`: clear the edit and read the record into it. -/
def decodeFrom (e : VersionEdit) (src : Bytes) : Except Status VersionEdit :=
  match decodeLoop e.clear src with
  | .ok e => .ok e
  | .error msg => .error (Status.Corruption "VersionEdit" msg)

end VersionEdit

end HapDB
