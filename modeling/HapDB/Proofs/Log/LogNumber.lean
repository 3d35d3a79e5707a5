import HapDB.Db.Log

/-!
# Recycled logs with a log number from `2 ^ 32` up

A recyclable record carries the log number of its file so that a reader of a
reused file stops at the first record an older file left behind.  The writer
stores only the low 32 bits of the number (`EncodeFixed32(buf + 7,
static_cast<uint32_t>(log_number_))`), and the reader compares the stored
`uint32_t` with its whole `uint64_t` `log_number_`.  From `2 ^ 32` on, the two
never agree: every record of the file, the first included, is taken for an old
one.

An old record is not consumed by `ReadPhysicalRecord`.  `ReadRecord` returns
`false` on it, except in `kSkipAnyCorruptedRecords`, where it treats it as a bad
record and asks for the next physical record, which is the same one: the loop
never ends (`readRecordLoop_skip_of_oldRecord`).

`readRecord_of_log_number_two_pow_32` puts the two together on the smallest
case, the one-byte record `"a"` written to a recycled log numbered `2 ^ 32`.
-/

namespace HapDB.Log

/-! ## The writer -/

/-- A record that fits the rest of the first block is one full physical
record. -/
theorem Writer.addRecord_of_fits (crc : Crc32c) (w : Writer) (slice : Bytes)
    (hoffset : w.blockOffset = 0) (hfits : slice.length + w.headerSize ≤ kBlockSize) :
    w.addRecord crc slice =
      w.emitPhysicalRecord crc (fragmentType w.recycleLogFiles true true) slice := by
  have hswitch : w.switchBlock = w := by
    unfold Writer.switchBlock
    rw [if_neg (by omega)]
  have hlength : w.fragmentLength slice = slice.length := by
    simp only [Writer.fragmentLength, hswitch, hoffset]
    omega
  rw [Writer.addRecord, Writer.addRecordLoop]
  simp only [hlength, Nat.sub_self, lt_irrefl, if_false, hswitch, beq_self_eq_true, List.take_length]

/-! ## The reader -/

namespace Reader

/-- The first read of a file shorter than a block takes all of it and marks the
end of the file. -/
theorem readMore_of_short (r : Reader) (heof : r.eof = false) (hshort : r.file.length < kBlockSize) :
    r.readMore = (.refilled, { r with
      buffer := r.file, file := [], endOfBufferOffset := r.endOfBufferOffset + r.file.length,
      eof := true, eofOffset := r.file.length }) := by
  simp [readMore, heof, List.take_of_length_le hshort.le, List.drop_eq_nil_of_le hshort.le, hshort]

/-- A recyclable header whose log number differs from the reader's is an old
record; the buffer is left as it is, and a record at the start of the file marks
the file as recycled. -/
theorem readPhysicalRecord_oldRecord (crc : Crc32c) (n : ℕ) (r : Reader)
    (hlen : kRecyclableHeaderSize ≤ r.buffer.length)
    (htype : 5 ≤ (r.buffer.getD 6 0).toNat ∧ (r.buffer.getD 6 0).toNat ≤ 8)
    (hlog : (decodeFixed32 (r.buffer.drop 7)).toUInt64 ≠ r.logNumber) :
    r.readPhysicalRecord crc (n + 1) =
      some (⟨kOldRecord, [], 0⟩,
        if r.endOfBufferOffset - r.buffer.length = 0 then { r with recycled := true } else r) := by
  have htype' : headerType (r.buffer.getD 6 0) = (r.buffer.getD 6 0).toNat := by
    unfold headerType
    rw [if_pos (by omega)]
  unfold kRecyclableHeaderSize at hlen
  simp only [readPhysicalRecord, htype', RecordType.toNat, kHeaderSize, kRecyclableHeaderSize]
  rw [if_neg (by omega)]
  simp only [List.getD_eq_getElem?_getD] at htype htype' ⊢
  by_cases h0 : r.endOfBufferOffset - r.buffer.length = 0 <;>
    simp [htype.1, htype.2, hlog, h0, show ¬ r.buffer.length < 11 by omega]

/-- **No end in `kSkipAnyCorruptedRecords`.**  When the next physical record is
an old one, the loop of `ReadRecord` asks for it again and again: whatever the
fuel, it does not return. -/
theorem readRecordLoop_skip_of_oldRecord (crc : Crc32c) (r : Reader)
    (hold : ∀ n, r.readPhysicalRecord crc (n + 1) = some (⟨kOldRecord, [], 0⟩, r))
    (ls : ReadRecordState) (hls : ls.inFragmentedRecord = false) (fuel : ℕ) :
    r.readRecordLoop crc .kSkipAnyCorruptedRecords fuel ls = none := by
  induction fuel with
  | zero => rfl
  | succ fuel ih =>
      simp only [readRecordLoop, hold]
      simp [kOldRecord, kBadHeader, kEof, kMaxRecordType, RecordType.toNat, hls, ih]

/-- In the other modes an old record ends the log: `ReadRecord` returns
`false`. -/
theorem readRecordLoop_of_oldRecord (crc : Crc32c) (mode : WALRecoveryMode)
    (hmode : mode ≠ .kSkipAnyCorruptedRecords) (r r' : Reader) (n : ℕ)
    (hold : r.readPhysicalRecord crc (n + 1) = some (⟨kOldRecord, [], 0⟩, r'))
    (ls : ReadRecordState) (hls : ls.inFragmentedRecord = false) :
    r.readRecordLoop crc mode (n + 1) ls = some (none, r') := by
  simp only [readRecordLoop, hold]
  simp [kOldRecord, kBadHeader, kEof, kMaxRecordType, RecordType.toNat, hls, hmode]

end Reader

/-! ## The record `"a"` in a log numbered `2 ^ 32` -/

/-- The file: one full recyclable record whose log number field is `0`, the low
32 bits of `2 ^ 32`. -/
theorem addRecord_two_pow_32 (crc : Crc32c) :
    ((Writer.new (2 ^ 32) true).addRecord crc [97]).dest =
      encodeFixed32 (crc.mask (crc.extend (crc.extend (crc.value [5]) (encodeFixed32 0)) [97])) ++
        [1, 0, 5] ++ encodeFixed32 0 ++ [97] := by
  rw [Writer.addRecord_of_fits crc _ _ rfl (by decide)]
  rfl

theorem length_addRecord_two_pow_32 (crc : Crc32c) :
    ((Writer.new (2 ^ 32) true).addRecord crc [97]).dest.length = 12 := by
  simp [addRecord_two_pow_32]

/-- The reader after its first `ReadMore` on that file: the file is in the
buffer, and the record at offset `0` marks the file as recycled. -/
def oldRecordReader (crc : Crc32c) : Reader :=
  { Reader.new ((Writer.new (2 ^ 32) true).addRecord crc [97]).dest true (2 ^ 32) false with
    buffer := ((Writer.new (2 ^ 32) true).addRecord crc [97]).dest, file := [],
    endOfBufferOffset := 12, eof := true, eofOffset := 12, recycled := true }

theorem oldRecordReader_readPhysicalRecord (crc : Crc32c) (n : ℕ) :
    (oldRecordReader crc).readPhysicalRecord crc (n + 1) =
      some (⟨kOldRecord, [], 0⟩, oldRecordReader crc) := by
  rw [Reader.readPhysicalRecord_oldRecord, if_pos (by simp [oldRecordReader, length_addRecord_two_pow_32])]
  · rfl
  · simp [oldRecordReader, length_addRecord_two_pow_32, kRecyclableHeaderSize]
  · simp [oldRecordReader, addRecord_two_pow_32, List.getD_eq_getElem?_getD]
  -- the stored log number is `0`
  · simp [oldRecordReader, Reader.new, addRecord_two_pow_32, decodeFixed32, encodeFixed32,
      Codec.encodeLE, Codec.decodeLE]
    decide

/-- The first physical record of the file is an old record. -/
theorem readPhysicalRecord_two_pow_32 (crc : Crc32c) (n : ℕ) :
    (Reader.new ((Writer.new (2 ^ 32) true).addRecord crc [97]).dest true (2 ^ 32) false).readPhysicalRecord
        crc (n + 2) = some (⟨kOldRecord, [], 0⟩, oldRecordReader crc) := by
  have hlen := length_addRecord_two_pow_32 crc
  rw [Reader.readPhysicalRecord, if_pos (by simp [Reader.new, kHeaderSize]),
    Reader.readMore_of_short _ rfl (by simp [Reader.new, hlen, kBlockSize])]
  simp only [Reader.new, hlen]
  rw [Reader.readPhysicalRecord_oldRecord, if_pos (by simp [hlen])]
  · rfl
  · simp [hlen, kRecyclableHeaderSize]
  · simp [addRecord_two_pow_32, List.getD_eq_getElem?_getD]
  · simp [addRecord_two_pow_32, decodeFixed32, encodeFixed32, Codec.encodeLE, Codec.decodeLE]
    decide

/-- **The record is lost.**  A recycled log numbered `2 ^ 32` holding the
record `"a"` reads as empty: the first `ReadRecord` returns `false`, and in
`kSkipAnyCorruptedRecords` it does not return at all, whatever the checksum
function and however much fuel it is given. -/
theorem readRecord_of_log_number_two_pow_32 (crc : Crc32c) (mode : WALRecoveryMode) (fuel : ℕ) :
    ((Reader.new ((Writer.new (2 ^ 32) true).addRecord crc [97]).dest true (2 ^ 32)
        false).readRecord crc mode (fuel + 2)).map Prod.fst =
      if mode = .kSkipAnyCorruptedRecords then none else some none := by
  by_cases hmode : mode = .kSkipAnyCorruptedRecords
  · subst hmode
    rw [if_pos rfl, Reader.readRecord, Reader.readRecordLoop, readPhysicalRecord_two_pow_32]
    simp only
    simp [kOldRecord, kBadHeader, kEof, kMaxRecordType, RecordType.toNat,
      Reader.readRecordLoop_skip_of_oldRecord crc _ (oldRecordReader_readPhysicalRecord crc)]
  · rw [if_neg hmode, Reader.readRecord,
      Reader.readRecordLoop_of_oldRecord crc mode hmode _ _ _ (readPhysicalRecord_two_pow_32 crc fuel)
        _ rfl]
    rfl

end HapDB.Log
