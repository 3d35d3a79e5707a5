import HapDB.Util.Hash
import HapDB.Lib.ByteBits

/-!
# `util/bloom.cc`: the full filter and the block-based Bloom filter

**The full filter.**  `FullFilterBitsBuilder` keeps the `BloomHash` of every
key added, and drops a hash equal to the one before it.  `Finish` works out the
filter's size in `CalculateSpace`.  The bits are a whole number of cache lines
of `CACHE_LINE_SIZE * 8` bits each, and the number of lines is odd.  The
buffer is zeroed, then each hash sets `num_probes_` bits with `AddHash`, all
in one line.  The filter ends with five bytes of metadata: `num_probes_` as a
`char`, then `num_lines` as a fixed32.

`FullFilterBitsReader` reads the metadata back, and its constructor searches
for the log of the cache-line size.  `MayMatch` then probes the same bits with
shifts and masks where the builder used `%` and `*`.

**The block-based filter.**  `BloomFilterPolicy::CreateFilter` appends the
bits of all keys to `dst`, at least 64 of them, followed by one byte holding
`num_probes_`.  `KeyMayMatch` probes them again, taking the number of bits
from the filter's length.

Machine integers keep the widths of the source.  `uint32_t` is `UInt32`,
`size_t` is `UInt64` and `int` is `Int32`, and all of them wrap.  A `char`
read as a count is sign-extended (`charToSizeT`).  The loop over the probes
runs `num_probes_` times.  Its counter is a `uint32_t`, so the C++ loop never
ends when `num_probes_` reaches `2^32`.  That case is outside what is modelled
here: the builder's constructor is given at most 30 probes by every caller,
and the reader gets at most 127 from a `char`.  The reader's search shifts the
`uint32_t` length by the loop counter.  The model shifts the length as a
number, which is the same value while the shift is below 32.  A shift of 32
is undefined in C++, and the model reads zero there, which is the "not a
power of two" branch.  An out-of-range read is undefined in C++; in the model
it reads zero.  `CACHE_LINE_SIZE` is the value of `port/port_posix.h` on
platforms other than s390, powerpc and aarch64.
-/

namespace HapDB

/-- `CACHE_LINE_SIZE`. -/
def CACHE_LINE_SIZE : UInt32 := 64

/-- A `char` converted to `size_t`: sign-extended from bit 7. -/
def charToSizeT (c : UInt8) : UInt64 :=
  if c < 128 then c.toUInt64 else c.toUInt64 + 0xFFFFFFFFFFFFFF00

/-- `EncodeFixed32(data + offset, value)` into a buffer. -/
def encodeFixed32At (data : Bytes) (offset : ℕ) (value : UInt32) : Bytes :=
  data.take offset ++ encodeFixed32 value ++ data.drop (offset + 4)

/-! ## `FullFilterBitsBuilder` -/

/-- `FullFilterBitsBuilder`. -/
structure FullFilterBitsBuilder where
  bitsPerKey : UInt64
  numProbes : UInt64
  hashEntries : List UInt32
  deriving DecidableEq, Repr

namespace FullFilterBitsBuilder

/-- `FullFilterBitsBuilder(bits_per_key, num_probes)`. -/
def new (bitsPerKey numProbes : UInt64) : FullFilterBitsBuilder := ⟨bitsPerKey, numProbes, []⟩

/-- `AddKey(key)`: a hash equal to the last one kept is not kept again. -/
def AddKey (b : FullFilterBitsBuilder) (key : Bytes) : FullFilterBitsBuilder :=
  let hash := BloomHash key
  if b.hashEntries.length == 0 || b.hashEntries.getLast? != some hash then
    { b with hashEntries := b.hashEntries ++ [hash] }
  else b

/-- `GetTotalBitsForLocality(total_bits)`: rounded up to whole cache lines, and
to an odd number of them. -/
def GetTotalBitsForLocality (totalBits : UInt32) : UInt32 :=
  let numLines := (totalBits + CACHE_LINE_SIZE * 8 - 1) / (CACHE_LINE_SIZE * 8)
  let numLines := if numLines % 2 == 0 then numLines + 1 else numLines
  numLines * (CACHE_LINE_SIZE * 8)

/-- `CalculateSpace(num_entry, &total_bits, &num_lines)`: the size of the
filter in bytes, then `total_bits` and `num_lines`. -/
def CalculateSpace (b : FullFilterBitsBuilder) (numEntry : Int32) : UInt32 × UInt32 × UInt32 :=
  let (totalBits, numLines) :=
    if numEntry != 0 then
      let totalBitsTmp := numEntry.toUInt32 * b.bitsPerKey.toUInt32
      let totalBits := GetTotalBitsForLocality totalBitsTmp
      (totalBits, totalBits / (CACHE_LINE_SIZE * 8))
    else
      -- an empty filter: the metadata alone
      (0, 0)
  (totalBits / 8 + 5, totalBits, numLines)

/-- The loop of `CalculateNumEntry`: from `n` down to `low = 1`, the first
count whose filter fits in `space`; `0` when none does. -/
def calculateNumEntryLoop (b : FullFilterBitsBuilder) (space : UInt32) (n : Int32) : Int32 :=
  if h : 1 ≤ n then
    if (b.CalculateSpace n).1 ≤ space then n
    else b.calculateNumEntryLoop space (n - 1)
  else n
termination_by n.toInt.toNat
decreasing_by
  have hsub := Int32.toInt_sub_of_le n 1 (by decide) h
  rw [Int32.le_iff_toInt_le, Int32.toInt_one] at h
  rw [Int32.toInt_one] at hsub
  omega

/-- `CalculateNumEntry(space)`: `space * 8` is a `uint32_t` product, the
division is by the `size_t` field, and the sum is cast to `int`. -/
def CalculateNumEntry (b : FullFilterBitsBuilder) (space : UInt32) : Int32 :=
  let high := Int32.ofNat ((space * 8).toNat / b.bitsPerKey.toNat + 1)
  b.calculateNumEntryLoop space high

/-- The probe loop of `AddHash`: `i` probes left at hash `h`, each setting bit
`b + h % (CACHE_LINE_SIZE * 8)`. -/
def addHashLoop (b delta : UInt32) : ℕ → UInt32 → Bytes → Bytes
  | 0, _, data => data
  | i + 1, h, data =>
    let bitpos := b + h % (CACHE_LINE_SIZE * 8)
    addHashLoop b delta i (h + delta) (ByteBits.setBit data bitpos.toNat)

/-- `AddHash(h, data, num_lines, total_bits)`: the probes of one hash, in the
cache line `h % num_lines`. -/
def AddHash (bld : FullFilterBitsBuilder) (h : UInt32) (data : Bytes) (numLines : UInt32) :
    Bytes :=
  -- rotate right 17 bits
  let delta := (h >>> 17) ||| (h <<< 15)
  let b := (h % numLines) * (CACHE_LINE_SIZE * 8)
  addHashLoop b delta bld.numProbes.toNat h data

/-- `Finish(&buf)`: the filter, and the builder with its hashes cleared.
`ReserveSpace` gives a zeroed buffer of the size `CalculateSpace` returns. -/
def Finish (bld : FullFilterBitsBuilder) : Bytes × FullFilterBitsBuilder :=
  let (sz, totalBits, numLines) := bld.CalculateSpace (Int32.ofNat bld.hashEntries.length)
  let data := List.replicate sz.toNat 0
  let data :=
    if totalBits != 0 && numLines != 0 then
      bld.hashEntries.foldl (fun data h => bld.AddHash h data numLines) data
    else data
  let data := data.set (totalBits / 8).toNat bld.numProbes.toUInt8
  let data := encodeFixed32At data (totalBits / 8 + 1).toNat numLines
  (data.take (totalBits / 8 + 5).toNat, { bld with hashEntries := [] })

end FullFilterBitsBuilder

/-! ## `FullFilterBitsReader` -/

/-- `FullFilterBitsReader`: the filter and what its constructor read. -/
structure FullFilterBitsReader where
  data : Bytes
  dataLen : UInt32
  numProbes : UInt64
  numLines : UInt32
  log2CacheLineSize : ℕ
  deriving DecidableEq, Repr

namespace FullFilterBitsReader

/-- `GetFilterMeta(filter, &num_probes, &num_lines)`: both zero for a filter of
five bytes or fewer. -/
def GetFilterMeta (filter : Bytes) : UInt64 × UInt32 :=
  let len := UInt32.ofNat filter.length
  if len ≤ 5 then (0, 0)
  else (charToSizeT (filter.getD (len - 5).toNat 0), decodeFixed32 (filter.drop (len - 4).toNat))

/-- The constructor's search for `log2_cache_line_size_`, from `l`: the first
shift of `data_len_ - 5` that gives `num_lines_`, and `true`; or the shift at
which it reaches zero, and `false` (the `assert(false)` branch). -/
def findLog2CacheLineSize (dataLen numLines : UInt32) (l : ℕ) : ℕ × Bool :=
  let numLinesAtCurrCacheSize := (dataLen - 5).toNat >>> l
  if h : numLinesAtCurrCacheSize = 0 then (l, false)
  else if numLinesAtCurrCacheSize = numLines.toNat then (l, true)
  else findLog2CacheLineSize dataLen numLines (l + 1)
termination_by 32 - l
decreasing_by
  -- a shift by 32 or more of a 32-bit value is zero
  have hlt : l < 32 := by
    by_contra hge
    apply h
    change (dataLen - 5).toNat >>> l = 0
    rw [Nat.shiftRight_eq_div_pow]
    exact Nat.div_eq_of_lt (lt_of_lt_of_le (UInt32.toNat_lt _)
      (Nat.pow_le_pow_right (by decide) (by omega)))
  omega

/-- `FullFilterBitsReader(contents)`: a filter whose metadata does not fit its
length is disabled by zeroing both counts. -/
def new (contents : Bytes) : FullFilterBitsReader :=
  let dataLen := UInt32.ofNat contents.length
  let (numProbes, numLines) := GetFilterMeta contents
  if numLines != 0 && (dataLen - 5) % numLines != 0 then ⟨contents, dataLen, 0, 0, 0⟩
  else if numLines != 0 then
    match findLog2CacheLineSize dataLen numLines 0 with
    | (l, true) => ⟨contents, dataLen, numProbes, numLines, l⟩
    | (l, false) => ⟨contents, dataLen, 0, 0, l⟩
  else ⟨contents, dataLen, numProbes, numLines, 0⟩

/-- The probe loop of `HashMayMatch`: `i` probes left at hash `h`, each testing
bit `b + (h & ((1 << (log2 + 3)) - 1))`. -/
def hashMayMatchLoop (data : Bytes) (log2 : ℕ) (b delta : UInt32) : ℕ → UInt32 → Bool
  | 0, _ => true
  | i + 1, h =>
    let bitpos := b + (h &&& (((1 : UInt32) <<< (log2 + 3).toUInt32) - 1))
    if ByteBits.getBit data bitpos.toNat then hashMayMatchLoop data log2 b delta i (h + delta)
    else false

/-- `HashMayMatch(hash, filter, num_probes, num_lines)`. -/
def HashMayMatch (r : FullFilterBitsReader) (hash : UInt32) (filter : Bytes) (numProbes : UInt64)
    (numLines : UInt32) : Bool :=
  let len := UInt32.ofNat filter.length
  if len ≤ 5 then false
  else
    let h := hash
    let delta := (h >>> 17) ||| (h <<< 15)
    -- left shift by an extra 3 to convert bytes to bits
    let b := (h % numLines) <<< (r.log2CacheLineSize + 3).toUInt32
    hashMayMatchLoop filter r.log2CacheLineSize b delta numProbes.toNat h

/-- `MayMatch(entry)`: a disabled filter matches everything. -/
def MayMatch (r : FullFilterBitsReader) (entry : Bytes) : Bool :=
  if r.dataLen ≤ 5 then false
  else if r.numProbes == 0 || r.numLines == 0 then true
  else r.HashMayMatch (BloomHash entry) r.data r.numProbes r.numLines

end FullFilterBitsReader

/-! ## `BloomFilterPolicy` -/

/-- `BloomFilterPolicy`.  Its `initialize()` clamps `num_probes_` to `[1, 30]`,
which the structure keeps. -/
structure BloomFilterPolicy where
  bitsPerKey : UInt64
  numProbes : UInt64
  one_le_numProbes : 1 ≤ numProbes
  numProbes_le : numProbes ≤ 30
  useBlockBasedBuilder : Bool

namespace BloomFilterPolicy

/-- `initialize()`: `bits_per_key_ * 0.69` rounded down, then clamped. -/
def initNumProbes (bitsPerKey : UInt64) : UInt64 :=
  let numProbes := (bitsPerKey.toFloat * 0.69).toUInt64
  let numProbes := if numProbes < 1 then 1 else numProbes
  if numProbes > 30 then 30 else numProbes

theorem one_le_initNumProbes (bitsPerKey : UInt64) : 1 ≤ initNumProbes bitsPerKey := by
  dsimp only [initNumProbes]
  generalize (bitsPerKey.toFloat * 0.69).toUInt64 = x
  rw [UInt64.le_iff_toNat_le]
  split_ifs <;> simp_all [UInt64.lt_iff_toNat_lt]
  omega

theorem initNumProbes_le (bitsPerKey : UInt64) : initNumProbes bitsPerKey ≤ 30 := by
  dsimp only [initNumProbes]
  generalize (bitsPerKey.toFloat * 0.69).toUInt64 = x
  rw [UInt64.le_iff_toNat_le]
  split_ifs <;> simp_all [UInt64.lt_iff_toNat_lt]

/-- `BloomFilterPolicy(bits_per_key, use_block_based_builder)`: the `int` is
stored in a `size_t`. -/
def new (bitsPerKey : Int32) (useBlockBasedBuilder : Bool) : BloomFilterPolicy :=
  let bitsPerKey := UInt64.ofInt bitsPerKey.toInt
  ⟨bitsPerKey, initNumProbes bitsPerKey, one_le_initNumProbes bitsPerKey,
    initNumProbes_le bitsPerKey, useBlockBasedBuilder⟩

/-- The probe loop of `CreateFilter` for one key: `j` probes left at hash `h`,
each setting bit `h % bits` of the array that starts at byte `initSize`. -/
def createFilterLoop (initSize : ℕ) (bits : UInt64) (delta : UInt32) :
    ℕ → UInt32 → Bytes → Bytes
  | 0, _, dst => dst
  | j + 1, h, dst =>
    let bitpos := (h.toUInt64 % bits).toUInt32
    createFilterLoop initSize bits delta j (h + delta)
      (ByteBits.setBit dst (initSize * 8 + bitpos.toNat))

/-- `CreateFilter(keys, n, dst)`: the bits of the keys, then the number of
probes, appended to `dst`. -/
def CreateFilter (p : BloomFilterPolicy) (keys : List Bytes) (dst : Bytes) : Bytes :=
  let bits := UInt64.ofNat keys.length * p.bitsPerKey
  -- for small `n` the false-positive rate is high: at least 64 bits
  let bits := if bits < 64 then 64 else bits
  let bytes := (bits + 7) / 8
  let bits := bytes * 8
  let initSize := dst.length
  let dst := dst ++ List.replicate bytes.toNat 0 ++ [p.numProbes.toUInt8]
  keys.foldl (fun dst key =>
    let h := BloomHash key
    let delta := (h >>> 17) ||| (h <<< 15)
    createFilterLoop initSize bits delta p.numProbes.toNat h dst) dst

/-- The probe loop of `KeyMayMatch`: `j` probes left at hash `h`. -/
def keyMayMatchLoop (array : Bytes) (bits : UInt64) (delta : UInt32) : ℕ → UInt32 → Bool
  | 0, _ => true
  | j + 1, h =>
    let bitpos := (h.toUInt64 % bits).toUInt32
    if ByteBits.getBit array bitpos.toNat then keyMayMatchLoop array bits delta j (h + delta)
    else false

/-- `KeyMayMatch(key, bloom_filter)`: the number of probes is the filter's
last byte, and more than 30 is reserved and matches. -/
def KeyMayMatch (_p : BloomFilterPolicy) (key bloomFilter : Bytes) : Bool :=
  let len := bloomFilter.length
  if len < 2 then false
  else
    let bits := UInt64.ofNat (len - 1) * 8
    let k := charToSizeT (bloomFilter.getD (len - 1) 0)
    if k > 30 then true
    else
      let h := BloomHash key
      let delta := (h >>> 17) ||| (h <<< 15)
      keyMayMatchLoop bloomFilter bits delta k.toNat h

end BloomFilterPolicy

end HapDB
