import HapDB.Util.Coding
import HapDB.Util.Status

/-!
# `table/format.cc`: block handles and the table footer

A `BlockHandle` is a block's offset and size, two varint64s.  The `Footer` is
the fixed-size tail of every table file, read first when a table is opened:

* legacy format (a legacy magic number): the metaindex and index handles,
  zero padding up to `2 * BlockHandle::kMaxEncodedLength` bytes, then the
  magic number as two fixed32 halves, low half first;
* newer versions: one checksum-type byte, the two handles, padding up to
  `kNewVersionsEncodedLength - 12` bytes, the fixed32 version, then the magic
  number the same way.

`Footer::DecodeFrom` reads the magic number from the last eight bytes of its
input, which decides the format, up-converts a legacy magic number to the
current one, and reads the rest from the last 48 or 53 bytes.  The assert that
the input holds at least `kMinEncodedLength` bytes is the `none` of
`Footer.DecodeFrom`; the caller (`ReadFooterFromFile`) checks that first.  The
plain-table magic numbers are those of a build with plain tables (not
`ROCKSDB_LITE`).
-/

namespace HapDB

/-- `BlockHandle`. -/
structure BlockHandle where
  offset : UInt64
  size : UInt64
  deriving DecidableEq, Repr

namespace BlockHandle

/-- `BlockHandle()`: both fields `~0`, not yet set. -/
def uninitialized : BlockHandle := ⟨~~~0, ~~~0⟩

/-- `BlockHandle::kMaxEncodedLength`: two varint64s. -/
def kMaxEncodedLength : ℕ := 10 + 10

/-- `BlockHandle::EncodeTo(dst)`. -/
def EncodeTo (h : BlockHandle) (dst : Bytes) : Bytes := putVarint64Varint64 dst h.offset h.size

/-- `BlockHandle::DecodeFrom(input)`: the handle and what is left of the input.
A failed read resets the handle to `(0, 0)`; the input keeps what the reads
before it consumed. -/
def DecodeFrom (input : Bytes) : Status × BlockHandle × Bytes :=
  match getVarint64 input with
  | none => (Status.Corruption "bad block handle", ⟨0, 0⟩, input)
  | some (offset, input) =>
    match getVarint64 input with
    | none => (Status.Corruption "bad block handle", ⟨0, 0⟩, input)
    | some (size, input) => (Status.OK, ⟨offset, size⟩, input)

end BlockHandle

/-- `enum ChecksumType : char`.  The enumerators are the four constants below;
`Footer::DecodeFrom` casts whatever it reads, so a footer may hold any `char`. -/
abbrev ChecksumType := UInt8

def kNoChecksum : ChecksumType := 0x0
def kCRC32c : ChecksumType := 0x1
def kxxHash : ChecksumType := 0x2
def kxxHash64 : ChecksumType := 0x3

def kBlockBasedTableMagicNumber : UInt64 := 0x88e241b785f4cff7
def kLegacyBlockBasedTableMagicNumber : UInt64 := 0xdb4775248b80fb57
def kPlainTableMagicNumber : UInt64 := 0x8242229663bf9564
def kLegacyPlainTableMagicNumber : UInt64 := 0x4f3418eb7a8f13b8

/-- `kMagicNumberLengthByte`. -/
def kMagicNumberLengthByte : ℕ := 8

/-- `IsLegacyFooterFormat`. -/
def IsLegacyFooterFormat (magicNumber : UInt64) : Bool :=
  magicNumber == kLegacyBlockBasedTableMagicNumber || magicNumber == kLegacyPlainTableMagicNumber

/-- `UpconvertLegacyFooterFormat`; `0` after the failed assert. -/
def UpconvertLegacyFooterFormat (magicNumber : UInt64) : UInt64 :=
  if magicNumber == kLegacyBlockBasedTableMagicNumber then kBlockBasedTableMagicNumber
  else if magicNumber == kLegacyPlainTableMagicNumber then kPlainTableMagicNumber
  else 0

/-- `std::string::resize(n)`: cut to `n` bytes, or pad with zero bytes. -/
def resize (dst : Bytes) (n : ℕ) : Bytes := dst.take n ++ List.replicate (n - dst.length) 0

/-- `Footer`. -/
structure Footer where
  version : UInt32
  checksum : ChecksumType
  tableMagicNumber : UInt64
  metaindexHandle : BlockHandle
  indexHandle : BlockHandle
  deriving DecidableEq, Repr

namespace Footer

/-- `kInvalidTableMagicNumber`. -/
def kInvalidTableMagicNumber : UInt64 := 0

/-- `Footer()`, the footer `DecodeFrom` is called on: no magic number yet,
version 0 and `kCRC32c`. -/
def empty : Footer :=
  ⟨0, kCRC32c, kInvalidTableMagicNumber, BlockHandle.uninitialized, BlockHandle.uninitialized⟩

/-- `kVersion0EncodedLength`. -/
def kVersion0EncodedLength : ℕ := 2 * BlockHandle.kMaxEncodedLength + 8

/-- `kNewVersionsEncodedLength`. -/
def kNewVersionsEncodedLength : ℕ := 1 + 2 * BlockHandle.kMaxEncodedLength + 4 + 8

/-- `kMinEncodedLength`. -/
def kMinEncodedLength : ℕ := kVersion0EncodedLength

/-- The two fixed32 halves of the magic number, low half first. -/
def putMagicNumber (dst : Bytes) (magicNumber : UInt64) : Bytes :=
  putFixed32 (putFixed32 dst (magicNumber &&& 0xffffffff).toUInt32) (magicNumber >>> 32).toUInt32

/-- `Footer::EncodeTo(dst)`. -/
def EncodeTo (f : Footer) (dst : Bytes) : Bytes :=
  let originalSize := dst.length
  if IsLegacyFooterFormat f.tableMagicNumber then
    let dst := f.indexHandle.EncodeTo (f.metaindexHandle.EncodeTo dst)
    let dst := resize dst (originalSize + 2 * BlockHandle.kMaxEncodedLength)
    putMagicNumber dst f.tableMagicNumber
  else
    let dst := dst ++ [f.checksum]
    let dst := f.indexHandle.EncodeTo (f.metaindexHandle.EncodeTo dst)
    let dst := resize dst (originalSize + kNewVersionsEncodedLength - 12)
    putMagicNumber (putFixed32 dst f.version) f.tableMagicNumber

/-- The magic number in the last eight bytes of the input, `magic_lo` first. -/
def readMagicNumber (input : Bytes) : UInt64 :=
  let magicPtr := input.drop (input.length - kMagicNumberLengthByte)
  ((decodeFixed32 (magicPtr.drop 4)).toUInt64 <<< 32) ||| (decodeFixed32 magicPtr).toUInt64

/-- The part of `Footer::DecodeFrom` before the handles: the version and the
checksum type, fixed in the legacy format and read otherwise, and the input
cut to start at the footer's first handle; or the failing status. -/
def decodeHeader (f : Footer) (legacy : Bool) (input : Bytes) :
    Except (Status × Footer × Bytes) (Footer × Bytes) :=
  if legacy then
    .ok ({ f with version := 0, checksum := kCRC32c },
      input.drop (input.length - kVersion0EncodedLength))
  else
    let f := { f with version := decodeFixed32 (input.drop (input.length - 12)) }
    if input.length < kNewVersionsEncodedLength then
      .error (Status.Corruption "input is too short to be an sstable", f, input)
    else
      let input := input.drop (input.length - kNewVersionsEncodedLength)
      match getVarint32 input with
      | none => .error (Status.Corruption "bad checksum type", f, input)
      | some (chksum, input) => .ok ({ f with checksum := chksum.toUInt8 }, input)

/-- The two handles at the end of `Footer::DecodeFrom`.  After both, the padding
is skipped: the input ends where the magic number ends. -/
def decodeHandles (f : Footer) (input : Bytes) : Status × Footer × Bytes :=
  let (result, metaindexHandle, input) := BlockHandle.DecodeFrom input
  let f := { f with metaindexHandle }
  if !result.ok then (result, f, input)
  else
    let (result, indexHandle, input) := BlockHandle.DecodeFrom input
    let f := { f with indexHandle }
    if result.ok then (result, f, []) else (result, f, input)

/-- `Footer::DecodeFrom(input)` on the footer `f`: the status, the footer and
what is left of the input. -/
def DecodeFrom (f : Footer) (input : Bytes) : Option (Status × Footer × Bytes) :=
  if input.length < kMinEncodedLength then none
  else
    let magic := readMagicNumber input
    let legacy := IsLegacyFooterFormat magic
    let f := { f with tableMagicNumber := if legacy then UpconvertLegacyFooterFormat magic else magic }
    match decodeHeader f legacy input with
    | .error r => some r
    | .ok (f, input) => some (decodeHandles f input)

end Footer

end HapDB
