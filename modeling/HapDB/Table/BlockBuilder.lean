import HapDB.Util.Comparator

/-!
# `table/block_builder.cc`: prefix-compressed blocks

A block is a run of entries followed by a trailer.  An entry is

    shared: varint32  non_shared: varint32  value_length: varint32
    key_delta: char[non_shared]  value: char[value_length]

where `shared` is the length of the prefix the key has in common with the key
before it.  Every `block_restart_interval` entries a restart point starts
afresh with `shared = 0`, and without delta encoding every entry does.  The
trailer is the offsets of the restart points as fixed32 words, then a fixed32
footer that packs their number with the index type
(`table/data_block_footer.cc`).

The builder modelled is the one of a data block with the binary-search index
(`kDataBlockBinarySearch`): its hash index builder is not valid, so `Add` feeds
it nothing and `Finish` writes no hash index.  `estimate_`, which only
`CurrentSizeEstimate` and `EstimateSizeAfterKV` read, is left out.
-/

namespace HapDB

/-- `BlockBasedTableOptions::DataBlockIndexType`. -/
inductive DataBlockIndexType where
  | kDataBlockBinarySearch
  | kDataBlockBinaryAndHash
  deriving DecidableEq, Repr

/-- `kDataBlockIndexTypeBitShift`. -/
def kDataBlockIndexTypeBitShift : UInt32 := 31

/-- `kNumRestartsMask`: the low 31 bits. -/
def kNumRestartsMask : UInt32 := (1 <<< kDataBlockIndexTypeBitShift) - 1

/-- `PackIndexTypeAndNumRestarts`: the index type in the top bit. -/
def PackIndexTypeAndNumRestarts (indexType : DataBlockIndexType) (numRestarts : UInt32) :
    UInt32 :=
  match indexType with
  | .kDataBlockBinaryAndHash => numRestarts ||| (1 <<< kDataBlockIndexTypeBitShift)
  | .kDataBlockBinarySearch => numRestarts

/-- `UnPackIndexTypeAndNumRestarts`. -/
def UnPackIndexTypeAndNumRestarts (blockFooter : UInt32) : DataBlockIndexType × UInt32 :=
  (if blockFooter &&& (1 <<< kDataBlockIndexTypeBitShift) ≠ 0 then .kDataBlockBinaryAndHash
    else .kDataBlockBinarySearch,
    blockFooter &&& kNumRestartsMask)

/-- The state of a `BlockBuilder`. -/
structure BlockBuilder where
  blockRestartInterval : ℕ
  useDeltaEncoding : Bool
  useValueDeltaEncoding : Bool
  buffer : Bytes
  restarts : List UInt32
  counter : ℕ
  finished : Bool
  lastKey : Bytes

namespace BlockBuilder

/-- `BlockBuilder(block_restart_interval, use_delta_encoding,
use_value_delta_encoding, kDataBlockBinarySearch)`: the first restart point is
at offset 0. -/
def new (blockRestartInterval : ℕ) (useDeltaEncoding useValueDeltaEncoding : Bool) :
    BlockBuilder :=
  { blockRestartInterval, useDeltaEncoding, useValueDeltaEncoding, buffer := [],
    restarts := [0], counter := 0, finished := false, lastKey := [] }

/-- `BlockBuilder::Add(key, value, delta_value)`. -/
def add (b : BlockBuilder) (key value deltaValue : Bytes) : BlockBuilder :=
  -- the number of bytes shared with the previous key, and the state after it
  let (shared, b) :=
    if b.counter ≥ b.blockRestartInterval then
      -- restart compression
      (0, { b with
              restarts := b.restarts ++ [UInt32.ofNat b.buffer.length]
              counter := 0
              lastKey := if b.useDeltaEncoding then key else b.lastKey })
    else if b.useDeltaEncoding then (differenceOffset key b.lastKey, { b with lastKey := key })
    else (0, b)
  let nonShared := key.length - shared
  let buffer :=
    if b.useValueDeltaEncoding then
      putVarint32Varint32 b.buffer (UInt32.ofNat shared) (UInt32.ofNat nonShared)
    else
      putVarint32Varint32Varint32 b.buffer (UInt32.ofNat shared) (UInt32.ofNat nonShared)
        (UInt32.ofNat value.length)
  let buffer := buffer ++ key.drop shared
  -- a delta value only where the key shares bytes with the previous one
  let buffer := if shared ≠ 0 ∧ b.useValueDeltaEncoding then buffer ++ deltaValue else buffer ++ value
  { b with buffer, counter := b.counter + 1 }

/-- `BlockBuilder::Finish`: the restart array, then the footer. -/
def finish (b : BlockBuilder) : Bytes × BlockBuilder :=
  let buffer := b.restarts.foldl putFixed32 b.buffer
  let numRestarts := UInt32.ofNat b.restarts.length
  let blockFooter := PackIndexTypeAndNumRestarts .kDataBlockBinarySearch numRestarts
  let buffer := putFixed32 buffer blockFooter
  (buffer, { b with buffer, finished := true })

/-- The calls a table builder makes for the entries of one data block: an
`Add` each, with no delta value, then `Finish`. -/
def build (blockRestartInterval : ℕ) (useDeltaEncoding : Bool) (entries : List (Bytes × Bytes)) :
    Bytes :=
  (entries.foldl (fun b e => b.add e.1 e.2 []) (new blockRestartInterval useDeltaEncoding false)).finish.1

end BlockBuilder

end HapDB
