import HapDB.Table.BlockBuilder

/-!
# `table/block.cc`: reading a data block

`Block::Block` finds the restart array from the footer, and `DataBlockIter`
walks the entries.  Every positioning operation ends in `ParseNextDataKey`,
which decodes the entry that starts where the current value ends
(`NextEntryOffset`), rebuilds its key from the `shared` bytes of the key before,
and moves `restart_index_` past the restart points it has crossed.

* `Seek` and `SeekForPrev` binary-search the keys at the restart points
  (`BinarySeek`) and scan forward from the restart point found.
* `SeekToLast` scans from the last restart point to the end.
* `Prev` scans forward from the restart point before the current entry and
  caches the entries it passes (`prev_entries_`), so that the next `Prev` can
  step back through the cache without scanning again.

A `Slice` into the block is an offset and a size, and a pointer into the
block is its offset.  The iterator keeps the fields that the operations read.
Three things are left out: the read-amplification bitmap, the pinning of keys
(`key_pinned_`, and whether a cached key lives in the block or in
`prev_entries_keys_buff_`), and the global sequence number (a block is read
without one, `kDisableGlobalSequenceNumber`).

The scans of the source loop until the entries run out.  Here each takes a
fuel, `restarts_ + 1` passes, which is never used up on a block whose entries
are well formed, since every entry takes at least one byte before the restart
array; `BinarySeek` likewise runs for at most `right - left + 1` passes.
-/

namespace HapDB

/-- `kMaxBlockSizeSupportedByHashIndex`. -/
def kMaxBlockSizeSupportedByHashIndex : ℕ := 2 ^ 16

/-- The fields of a `Block` that `NewIterator` reads; a `size` of `0` is the
error marker. -/
structure Block where
  data : Bytes
  size : ℕ
  restartOffset : UInt32
  numRestarts : UInt32

namespace Block

/-- The last four bytes of the block. -/
def blockFooter (data : Bytes) (size : ℕ) : UInt32 := decodeFixed32 (data.drop (size - 4))

/-- `Block::NumRestarts`: a block over 64KiB cannot have a hash index, so its
footer is the number of restarts as it stands. -/
def NumRestarts (data : Bytes) (size : ℕ) : UInt32 :=
  if size > kMaxBlockSizeSupportedByHashIndex then blockFooter data size
  else (UnPackIndexTypeAndNumRestarts (blockFooter data size)).2

/-- `Block::IndexType`. -/
def IndexType (data : Bytes) (size : ℕ) : DataBlockIndexType :=
  if size > kMaxBlockSizeSupportedByHashIndex then .kDataBlockBinarySearch
  else (UnPackIndexTypeAndNumRestarts (blockFooter data size)).1

/-- `Block::Block(contents)`. -/
def make (contents : Bytes) : Block :=
  let size := contents.length
  if size < 4 then ⟨contents, 0, 0, 0⟩
  else
    let numRestarts := NumRestarts contents size
    match IndexType contents size with
    | .kDataBlockBinarySearch =>
      let restartOffset := UInt32.ofNat size - (1 + numRestarts) * 4
      -- the size is too small for `NumRestarts()` and the offset wrapped around
      if restartOffset.toNat > size - 4 then ⟨contents, 0, restartOffset, numRestarts⟩
      else ⟨contents, size, restartOffset, numRestarts⟩
    | .kDataBlockBinaryAndHash =>
      if size < 4 + 2 then ⟨contents, 0, 0, numRestarts⟩
      else
        -- `DataBlockHashIndex::Initialize` over the bytes before the footer
        let hashSize := UInt16.ofNat (size - 4)
        let numBuckets := decodeFixed16 (contents.drop (hashSize.toNat - 2))
        let mapOffset := hashSize - 2 - numBuckets
        let restartOffset := mapOffset.toUInt32 - numRestarts * 4
        if restartOffset > mapOffset.toUInt32 then ⟨contents, 0, restartOffset, numRestarts⟩
        else ⟨contents, size, restartOffset, numRestarts⟩

end Block

/-- `DataBlockIter::CachedPrevEntry`: where an entry starts, its key, and its
value slice. -/
structure CachedPrevEntry where
  offset : UInt32
  key : Bytes
  valueOffset : ℕ
  valueSize : ℕ
  deriving Inhabited, DecidableEq, Repr

/-- The state of a `DataBlockIter`. -/
structure DataBlockIter where
  comparator : Comparator
  data : Bytes
  /-- `data_ != nullptr`: initialized and not invalidated. -/
  initialized : Bool
  restarts : UInt32
  numRestarts : UInt32
  restartIndex : UInt32
  current : UInt32
  key : Bytes
  /-- `value_`, as its offset in the block and its size. -/
  valueOffset : ℕ
  valueSize : ℕ
  status : Status
  prevEntries : List CachedPrevEntry
  prevEntriesIdx : Int32

/-- `DecodeEntry()(p, limit, &shared, &non_shared, &value_length)`: the three
lengths and the offset of the key delta, or `none` for the `nullptr` of a bad
varint.  The fast path reads three bytes whatever `limit` is; past the end of
the block they read as `0` here, where the source reads out of bounds. -/
def DecodeEntry (data : Bytes) (p limit : ℕ) : Option (UInt32 × UInt32 × UInt32 × ℕ) :=
  let shared := (data.getD p 0).toUInt32
  let nonShared := (data.getD (p + 1) 0).toUInt32
  let valueLength := (data.getD (p + 2) 0).toUInt32
  if (shared ||| nonShared ||| valueLength) < 128 then
    -- fast path: all three values are encoded in one byte each
    some (shared, nonShared, valueLength, p + 3)
  else
    let input := (data.take limit).drop p
    match getVarint32Ptr input with
    | none => none
    | some (shared, rest) =>
      match getVarint32Ptr rest with
      | none => none
      | some (nonShared, rest) =>
        match getVarint32Ptr rest with
        | none => none
        | some (valueLength, rest) =>
          some (shared, nonShared, valueLength, p + (input.length - rest.length))

namespace DataBlockIter

/-- A value-initialized `DataBlockIter()`: every field zero. -/
def empty (comparator : Comparator) : DataBlockIter :=
  { comparator, data := [], initialized := false, restarts := 0, numRestarts := 0,
    restartIndex := 0, current := 0, key := [], valueOffset := 0, valueSize := 0,
    status := Status.OK, prevEntries := [], prevEntriesIdx := -1 }

/-- `DataBlockIter::Initialize` (through `InitializeBase`). -/
def Initialize (it : DataBlockIter) (comparator : Comparator) (data : Bytes)
    (restarts numRestarts : UInt32) : DataBlockIter :=
  { it with
    comparator, data, initialized := true, restarts, numRestarts, current := restarts,
    restartIndex := numRestarts }

/-- `DataBlockIter::Invalidate(s)`: `InvalidateBase` and an empty cache. -/
def Invalidate (it : DataBlockIter) (s : Status) : DataBlockIter :=
  { it with
    initialized := false, current := it.restarts, status := s, prevEntries := [],
    prevEntriesIdx := -1 }

/-- `Valid()`. -/
def Valid (it : DataBlockIter) : Bool := it.current < it.restarts

/-- `value()`: the bytes of `value_`. -/
def value (it : DataBlockIter) : Bytes := (it.data.drop it.valueOffset).take it.valueSize

/-- `NextEntryOffset()`: the offset just past the current value, cast to
`uint32_t`. -/
def NextEntryOffset (it : DataBlockIter) : UInt32 := UInt32.ofNat (it.valueOffset + it.valueSize)

/-- `GetRestartPoint(index)`: the fixed32 word at `restarts_ + 4 * index`. -/
def GetRestartPoint (it : DataBlockIter) (index : UInt32) : UInt32 :=
  decodeFixed32 (it.data.drop (it.restarts.toNat + index.toNat * 4))

/-- `SeekToRestartPoint(index)`: an empty value at the restart point, from
which `ParseNextDataKey` reads the entry there. -/
def SeekToRestartPoint (it : DataBlockIter) (index : UInt32) : DataBlockIter :=
  { it with
    key := [], restartIndex := index, valueOffset := (it.GetRestartPoint index).toNat,
    valueSize := 0 }

/-- `CorruptionError()`; the cleared `value_` is an empty slice at offset `0`. -/
def CorruptionError (it : DataBlockIter) : DataBlockIter :=
  { it with
    current := it.restarts, restartIndex := it.numRestarts,
    status := Status.Corruption "bad entry in block", key := [], valueOffset := 0, valueSize := 0 }

/-- The loop at the end of `ParseNextDataKey`: move `restart_index_` past the
restart points before `current_`. -/
def advanceRestartIndex (it : DataBlockIter) : DataBlockIter :=
  if it.restartIndex + 1 < it.numRestarts ∧ it.GetRestartPoint (it.restartIndex + 1) < it.current then
    advanceRestartIndex { it with restartIndex := it.restartIndex + 1 }
  else it
termination_by it.numRestarts.toNat - (it.restartIndex + 1).toNat
decreasing_by
  -- `restart_index_ + 1 < num_restarts_` keeps `restart_index_ + 2` from wrapping
  rename_i hguard
  have hlt : (it.restartIndex + 1).toNat < it.numRestarts.toNat := UInt32.lt_iff_toNat_lt.mp hguard.1
  have hnum := it.numRestarts.toNat_lt
  simp only [UInt32.toNat_add, UInt32.reduceToNat] at hlt ⊢
  omega

/-- `ParseNextDataKey()`: decode the entry at `NextEntryOffset()`.  `false`
past the last entry, or on a corrupt one. -/
def ParseNextDataKey (it : DataBlockIter) : Bool × DataBlockIter :=
  let it := { it with current := it.NextEntryOffset }
  if it.current ≥ it.restarts then
    -- no more entries to return: mark as invalid
    (false, { it with current := it.restarts, restartIndex := it.numRestarts })
  else
    match DecodeEntry it.data it.current.toNat it.restarts.toNat with
    | none => (false, it.CorruptionError)
    | some (shared, nonShared, valueLength, p) =>
      if it.key.length < shared.toNat then (false, it.CorruptionError)
      else
        let delta := (it.data.drop p).take nonShared.toNat
        -- a key that shares nothing is read from the block; otherwise `TrimAppend`
        let key := if shared = 0 then delta else it.key.take shared.toNat ++ delta
        let it := { it with key, valueOffset := p + nonShared.toNat, valueSize := valueLength.toNat }
        (true, if shared = 0 then it.advanceRestartIndex else it)

/-- `Next()`. -/
def Next (it : DataBlockIter) : DataBlockIter := it.ParseNextDataKey.2

/-- A scan of `ParseNextDataKey` calls that goes on while the entry parsed
satisfies `cond`: the loops of `Seek`, `SeekForPrev` (`cond` is "the key is
below the target") and `SeekToLast` (`cond` is "another entry follows"). -/
def parseWhile (cond : DataBlockIter → Bool) : ℕ → DataBlockIter → DataBlockIter
  | 0, it => it
  | fuel + 1, it =>
    match it.ParseNextDataKey with
    | (false, it) => it
    | (true, it) => if cond it then parseWhile cond fuel it else it

/-- `SeekToFirst()`. -/
def SeekToFirst (it : DataBlockIter) : DataBlockIter :=
  if !it.initialized then it else (it.SeekToRestartPoint 0).ParseNextDataKey.2

/-- `SeekToLast()`: `while (ParseNextDataKey() && NextEntryOffset() < restarts_) {}`
from the last restart point. -/
def SeekToLast (it : DataBlockIter) : DataBlockIter :=
  if !it.initialized then it
  else
    parseWhile (fun it => it.NextEntryOffset < it.restarts) (it.restarts.toNat + 1)
      (it.SeekToRestartPoint (it.numRestarts - 1))

/-- The loop of `BinarySeek`: the restart point of the last key below `target`,
or of a key equal to it.  `none` when a restart entry does not decode, or
shares bytes with the key before it. -/
def binarySeekLoop (target : Bytes) : ℕ → DataBlockIter → UInt32 → UInt32 → Option UInt32 × DataBlockIter
  | 0, it, left, _ => (some left, it)
  | fuel + 1, it, left, right =>
    if left < right then
      let mid := (left + right + 1) / 2
      let regionOffset := it.GetRestartPoint mid
      -- `DecodeKey`: `DecodeEntry` without the value length
      match DecodeEntry it.data regionOffset.toNat it.restarts.toNat with
      | none => (none, it.CorruptionError)
      | some (shared, nonShared, _, keyPtr) =>
        if shared ≠ 0 then (none, it.CorruptionError)
        else
          let midKey := (it.data.drop keyPtr).take nonShared.toNat
          match it.comparator midKey target with
          -- the key at `mid` is below `target`: every restart point before `mid` is too
          | .lt => binarySeekLoop target fuel it mid right
          -- the key at `mid` is above `target`: so is every one from `mid` on
          | .gt => binarySeekLoop target fuel it left (mid - 1)
          | .eq => binarySeekLoop target fuel it mid mid
    else (some left, it)

/-- `BinarySeek<DecodeKey>(target, left, right, &index, comparator_)`. -/
def BinarySeek (it : DataBlockIter) (target : Bytes) (left right : UInt32) :
    Option UInt32 × DataBlockIter :=
  binarySeekLoop target ((right - left).toNat + 1) it left right

/-- `Seek(target)`: the restart point found by `BinarySeek`, then a linear
search for the first key not below `target`. -/
def Seek (it : DataBlockIter) (target : Bytes) : DataBlockIter :=
  if !it.initialized then it
  else
    match it.BinarySeek target 0 (it.numRestarts - 1) with
    | (none, it) => it
    | (some index, it) =>
      parseWhile (fun it => it.comparator it.key target == .lt) (it.restarts.toNat + 1)
        (it.SeekToRestartPoint index)

/-- The first loop of `Prev`: back to a restart point before `original`;
`none` when there is none, that is when `original` is the first entry. -/
def restartBefore (it : DataBlockIter) (original : UInt32) : Option DataBlockIter :=
  if it.GetRestartPoint it.restartIndex ≥ original then
    if it.restartIndex = 0 then none
    else restartBefore { it with restartIndex := it.restartIndex - 1 } original
  else some it
termination_by it.restartIndex.toNat
decreasing_by
  have hne : it.restartIndex.toNat ≠ 0 := fun h => ‹¬it.restartIndex = 0› (UInt32.toNat_inj.mp h)
  rw [UInt32.toNat_sub_of_le _ _ (UInt32.le_iff_toNat_le.mpr (by simp; omega))]
  simp only [UInt32.reduceToNat]
  omega

/-- The cache record of the current entry. -/
def cachedEntry (it : DataBlockIter) : CachedPrevEntry :=
  ⟨it.current, it.key, it.valueOffset, it.valueSize⟩

/-- The second loop of `Prev`: parse from the restart point and cache each
entry, until the entry that ends where `original` starts. -/
def prevScan (original : UInt32) : ℕ → DataBlockIter → DataBlockIter
  | 0, it => it
  | fuel + 1, it =>
    match it.ParseNextDataKey with
    | (false, it) => it
    | (true, it) =>
      let it := { it with prevEntries := it.prevEntries ++ [it.cachedEntry] }
      -- loop until the end of the current entry hits the start of `original`
      if it.NextEntryOffset < original then prevScan original fuel it else it

/-- `Prev()`: from the cache when its entry at `prev_entries_idx_` is the
current one; otherwise a scan from the restart point before the current
entry, which refills the cache. -/
def Prev (it : DataBlockIter) : DataBlockIter :=
  if 0 < it.prevEntriesIdx ∧
      (it.prevEntries[it.prevEntriesIdx.toNatClampNeg]?.map (·.offset)) = some it.current then
    let idx := it.prevEntriesIdx - 1
    let e := it.prevEntries.getD idx.toNatClampNeg default
    { it with
      prevEntriesIdx := idx, current := e.offset, key := e.key, valueOffset := e.valueOffset,
      valueSize := e.valueSize }
  else
    -- clear the cache
    let it := { it with prevEntriesIdx := -1, prevEntries := [] }
    let original := it.current
    match it.restartBefore original with
    | none => { it with current := it.restarts, restartIndex := it.numRestarts }
    | some it =>
      let it := prevScan original (it.restarts.toNat + 1) (it.SeekToRestartPoint it.restartIndex)
      { it with prevEntriesIdx := Int32.ofNat it.prevEntries.length - 1 }

/-- The last loop of `SeekForPrev`: `while (Valid() && Compare(key_, seek_key) > 0) Prev();`. -/
def prevWhileAbove (target : Bytes) : ℕ → DataBlockIter → DataBlockIter
  | 0, it => it
  | fuel + 1, it =>
    if it.Valid ∧ it.comparator it.key target = .gt then prevWhileAbove target fuel it.Prev else it

/-- `SeekForPrev(target)`: the first key not below `target` as in `Seek`, then
back over the keys above it; the last entry when every key is below. -/
def SeekForPrev (it : DataBlockIter) (target : Bytes) : DataBlockIter :=
  if !it.initialized then it
  else
    match it.BinarySeek target 0 (it.numRestarts - 1) with
    | (none, it) => it
    | (some index, it) =>
      let it := parseWhile (fun it => it.comparator it.key target == .lt) (it.restarts.toNat + 1)
        (it.SeekToRestartPoint index)
      if !it.Valid then it.SeekToLast
      else prevWhileAbove target (it.restarts.toNat + 1) it

end DataBlockIter

/-- `Block::NewIterator<DataBlockIter>` on a fresh iterator. -/
def Block.NewIterator (b : Block) (cmp : Comparator) : DataBlockIter :=
  let it := DataBlockIter.empty cmp
  if b.size < 2 * 4 then it.Invalidate (Status.Corruption "bad block contents")
  -- an empty block
  else if b.numRestarts = 0 then it.Invalidate Status.OK
  else it.Initialize cmp b.data b.restartOffset b.numRestarts

end HapDB
