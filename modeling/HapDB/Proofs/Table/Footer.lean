import HapDB.Table.Format
import HapDB.Proofs.VersionEdit.Fields

/-!
# Block handles and footers read back

A handle is two varints, at most `kMaxEncodedLength = 20` bytes, so the two
handles of a footer always fit the 40 bytes `EncodeTo` pads them to.  Every
field of the footer then sits at a fixed distance from its end, and
`DecodeFrom` finds them there whatever comes before it:

| field | where `DecodeFrom` reads it | lemma |
|---|---|---|
| magic number | last 8 bytes | `readMagicNumber_putMagicNumber` |
| version | 4 bytes before the magic number | `decodeHeader_of_not_legacy` |
| checksum type | 53 bytes from the end, as a varint | `getVarint32_cons_of_lt` |
| handles | 48 or 53 bytes from the end | `decodeHandles_handleBytes` |

The checksum type is written as one raw byte but read as a varint32, so it
reads back when its top bit is clear; the four `ChecksumType` enumerators are
0 to 3.
-/

namespace HapDB

namespace BlockHandle

/-- The bytes of a handle. -/
theorem EncodeTo_eq (h : BlockHandle) (dst : Bytes) :
    h.EncodeTo dst = dst ++ (encodeVarint64 h.offset ++ encodeVarint64 h.size) := by
  simp [EncodeTo]

theorem length_EncodeTo_le (h : BlockHandle) : (h.EncodeTo []).length ≤ kMaxEncodedLength := by
  have := length_encodeVarint64_le h.offset
  have := length_encodeVarint64_le h.size
  simp only [EncodeTo_eq, List.nil_append, List.length_append, kMaxEncodedLength]
  omega

/-- `DecodeFrom` reads back the handle `EncodeTo` wrote and leaves what follows. -/
theorem DecodeFrom_EncodeTo (h : BlockHandle) (rest : Bytes) :
    DecodeFrom (h.EncodeTo [] ++ rest) = (Status.OK, h, rest) := by
  simp only [EncodeTo_eq, List.nil_append, List.append_assoc, DecodeFrom,
    getVarint64_encodeVarint64]

/-- A failed `DecodeFrom` leaves the handle `(0, 0)`. -/
theorem DecodeFrom_reset (input : Bytes) (hfail : (DecodeFrom input).1.ok = false) :
    (DecodeFrom input).2.1 = ⟨0, 0⟩ := by
  unfold DecodeFrom at hfail ⊢
  split
  · rfl
  · split
    · rfl
    · simp_all

end BlockHandle

namespace Footer

/-- The magic number splits into two halves that join back into it. -/
theorem join_halves (m : UInt64) :
    ((m >>> 32).toUInt32.toUInt64 <<< 32) ||| (m &&& 0xffffffff).toUInt32.toUInt64 = m := by
  apply UInt64.toNat_inj.mp
  have hm := m.toNat_lt
  have hlo : (m &&& 0xffffffff).toUInt32.toUInt64.toNat = m.toNat % 2 ^ 32 := by
    rw [UInt32.toNat_toUInt64, UInt64.toNat_toUInt32, UInt64.toNat_and,
      show (0xffffffff : UInt64).toNat = 2 ^ 32 - 1 from rfl, Nat.and_two_pow_sub_one_eq_mod,
      Nat.mod_mod]
  have hhi : ((m >>> 32).toUInt32.toUInt64 <<< 32).toNat = (m.toNat / 2 ^ 32) <<< 32 := by
    rw [UInt64.toNat_shiftLeft, UInt32.toNat_toUInt64, UInt64.toNat_toUInt32,
      UInt64.toNat_shiftRight, show (32 : UInt64).toNat % 64 = 32 from rfl,
      Nat.shiftRight_eq_div_pow, Nat.mod_eq_of_lt (show m.toNat / 2 ^ 32 < 2 ^ 32 by omega),
      Nat.mod_eq_of_lt (by rw [Nat.shiftLeft_eq]; omega)]
  rw [UInt64.toNat_or, hhi, hlo, ← Nat.shiftLeft_add_eq_or_of_lt (Nat.mod_lt _ (by norm_num)),
    Nat.shiftLeft_eq]
  omega

@[simp] theorem length_putMagicNumber (dst : Bytes) (m : UInt64) :
    (putMagicNumber dst m).length = dst.length + 8 := by
  simp [putMagicNumber]

/-- The magic number reads back from the last eight bytes. -/
theorem readMagicNumber_putMagicNumber (dst : Bytes) (m : UInt64) :
    readMagicNumber (putMagicNumber dst m) = m := by
  have hptr : (putMagicNumber dst m).drop ((putMagicNumber dst m).length - kMagicNumberLengthByte) =
      encodeFixed32 (m &&& 0xffffffff).toUInt32 ++ encodeFixed32 (m >>> 32).toUInt32 := by
    simp [putMagicNumber, kMagicNumberLengthByte]
  have hhi : (encodeFixed32 (m &&& 0xffffffff).toUInt32 ++ encodeFixed32 (m >>> 32).toUInt32).drop 4 =
      encodeFixed32 (m >>> 32).toUInt32 ++ [] := by
    simp
  simp only [readMagicNumber, hptr, hhi, decodeFixed32_encodeFixed32]
  exact join_halves m

theorem putMagicNumber_eq (dst : Bytes) (m : UInt64) :
    putMagicNumber dst m = dst ++ putMagicNumber [] m := by
  simp [putMagicNumber]

theorem resize_of_le {dst : Bytes} {n : ℕ} (h : dst.length ≤ n) :
    resize dst n = dst ++ List.replicate (n - dst.length) 0 := by
  rw [resize, List.take_of_length_le h]

/-- The end of a list, found from its length. -/
theorem drop_length_sub (xs ys : Bytes) {n : ℕ} (h : ys.length = n) :
    (xs ++ ys).drop ((xs ++ ys).length - n) = ys := by
  rw [List.length_append, h, Nat.add_sub_cancel, List.drop_left]

/-- The two handles of a footer, as `EncodeTo` writes them. -/
def handleBytes (f : Footer) : Bytes := f.indexHandle.EncodeTo (f.metaindexHandle.EncodeTo [])

theorem handles_EncodeTo (f : Footer) (dst : Bytes) :
    f.indexHandle.EncodeTo (f.metaindexHandle.EncodeTo dst) = dst ++ f.handleBytes := by
  simp [handleBytes, BlockHandle.EncodeTo_eq]

theorem handleBytes_eq (f : Footer) :
    f.handleBytes = f.metaindexHandle.EncodeTo [] ++ f.indexHandle.EncodeTo [] := by
  simp [handleBytes, BlockHandle.EncodeTo_eq]

theorem length_handleBytes_le (f : Footer) :
    f.handleBytes.length ≤ 2 * BlockHandle.kMaxEncodedLength := by
  have hm := f.metaindexHandle.length_EncodeTo_le
  have hi := f.indexHandle.length_EncodeTo_le
  rw [handleBytes_eq, List.length_append]
  omega

/-- The zero bytes `resize` pads the handles with. -/
def padding (f : Footer) : Bytes :=
  List.replicate (2 * BlockHandle.kMaxEncodedLength - f.handleBytes.length) 0

/-- A legacy footer: the handles, the padding and the magic number. -/
theorem EncodeTo_of_legacy {f : Footer} (hl : IsLegacyFooterFormat f.tableMagicNumber = true)
    (dst : Bytes) :
    f.EncodeTo dst = putMagicNumber (dst ++ f.handleBytes ++ f.padding) f.tableMagicNumber := by
  have hlen := length_handleBytes_le f
  -- `resize` pads the handles to 40 bytes
  have hpad : dst.length + 2 * BlockHandle.kMaxEncodedLength - (dst ++ f.handleBytes).length =
      2 * BlockHandle.kMaxEncodedLength - f.handleBytes.length := by
    simp only [List.length_append]
    omega
  simp only [EncodeTo, hl, if_true, handles_EncodeTo]
  rw [resize_of_le (by simp only [List.length_append]; omega), hpad, padding]

/-- A newer footer: the checksum byte, the handles, the padding, the version
and the magic number. -/
theorem EncodeTo_of_not_legacy {f : Footer} (hl : IsLegacyFooterFormat f.tableMagicNumber = false)
    (dst : Bytes) :
    f.EncodeTo dst = putMagicNumber (dst ++ f.checksum :: (f.handleBytes ++ f.padding ++
      encodeFixed32 f.version)) f.tableMagicNumber := by
  have hlen := length_handleBytes_le f
  -- `resize` pads the checksum byte and the handles to 41 bytes
  have hpad : dst.length + kNewVersionsEncodedLength - 12 -
      (dst ++ [f.checksum] ++ f.handleBytes).length =
        2 * BlockHandle.kMaxEncodedLength - f.handleBytes.length := by
    simp only [List.length_append, List.length_singleton, kNewVersionsEncodedLength]
    omega
  simp only [EncodeTo, hl, Bool.false_eq_true, if_false, handles_EncodeTo]
  have hfits : (dst ++ [f.checksum] ++ f.handleBytes).length ≤
      dst.length + kNewVersionsEncodedLength - 12 := by
    simp only [List.length_append, List.length_singleton, kNewVersionsEncodedLength]
    omega
  rw [resize_of_le hfits, hpad, padding]
  simp only [putFixed32_eq, List.append_assoc, List.cons_append,
    List.nil_append]

theorem length_handleBytes_padding (f : Footer) :
    (f.handleBytes ++ f.padding).length = 2 * BlockHandle.kMaxEncodedLength := by
  have := length_handleBytes_le f
  simp only [padding, List.length_append, List.length_replicate]
  omega

/-- `decodeHandles` reads back the two handles, and the input is used up. -/
theorem decodeHandles_handleBytes (f g : Footer) (rest : Bytes) :
    decodeHandles g (f.handleBytes ++ rest) =
      (Status.OK, { g with metaindexHandle := f.metaindexHandle,
                           indexHandle := f.indexHandle }, []) := by
  rw [handleBytes_eq, List.append_assoc]
  simp only [decodeHandles, BlockHandle.DecodeFrom_EncodeTo, Status.ok_OK, Bool.not_true,
    Bool.false_eq_true, if_false, if_true]

/-- A byte below 128 is a one-byte varint. -/
theorem getVarint32_cons_of_lt {c : UInt8} (hc : c.toNat < 128) (rest : Bytes) :
    getVarint32 (c :: rest) = some (c.toUInt32, rest) := by
  have hbit : c &&& 128 = 0 := by
    apply UInt8.toNat_inj.mp
    rw [UInt8.toNat_and, show (128 : UInt8).toNat = 2 ^ 7 from rfl, Nat.and_two_pow,
      Nat.testBit_lt_two_pow hc]
    rfl
  simp only [getVarint32, getVarint32Ptr, hbit, if_true]

/-- The header of a newer footer: the version before the magic number, and the
checksum byte 53 bytes from the end. -/
theorem decodeHeader_of_not_legacy (g : Footer) (pre body : Bytes) {c : UInt8} (hc : c.toNat < 128)
    (hbody : body.length = 2 * BlockHandle.kMaxEncodedLength) (v : UInt32) (m : UInt64) :
    decodeHeader g false (putMagicNumber (pre ++ c :: (body ++ encodeFixed32 v)) m) =
      .ok ({ g with version := v, checksum := c }, body ++ encodeFixed32 v ++ putMagicNumber [] m) := by
  have htail : (c :: (body ++ encodeFixed32 v ++ putMagicNumber [] m)).length =
      kNewVersionsEncodedLength := by
    simp only [List.length_cons, List.length_append, hbody, length_encodeFixed32,
      length_putMagicNumber, List.length_nil, kNewVersionsEncodedLength]
    omega
  have hinput : putMagicNumber (pre ++ c :: (body ++ encodeFixed32 v)) m =
      pre ++ c :: (body ++ encodeFixed32 v ++ putMagicNumber [] m) := by
    rw [putMagicNumber_eq]
    simp only [List.append_assoc, List.cons_append]
  have hversion : decodeFixed32 ((pre ++ c :: (body ++ encodeFixed32 v ++ putMagicNumber [] m)).drop
      ((pre ++ c :: (body ++ encodeFixed32 v ++ putMagicNumber [] m)).length - 12)) = v := by
    rw [show pre ++ c :: (body ++ encodeFixed32 v ++ putMagicNumber [] m) =
        (pre ++ c :: body) ++ (encodeFixed32 v ++ putMagicNumber [] m) by
          simp only [List.append_assoc, List.cons_append],
      drop_length_sub _ _ (by simp only [List.length_append, length_encodeFixed32,
        length_putMagicNumber, List.length_nil]),
      decodeFixed32_encodeFixed32]
  have hlong : ¬(pre ++ c :: (body ++ encodeFixed32 v ++ putMagicNumber [] m)).length <
      kNewVersionsEncodedLength := by
    rw [List.length_append, htail]
    omega
  rw [hinput]
  simp only [decodeHeader, Bool.false_eq_true, if_false, hversion, hlong,
    drop_length_sub pre _ htail, getVarint32_cons_of_lt hc, UInt8.toUInt8_toUInt32]

/-- `EncodeTo` appends the same bytes to every destination. -/
theorem EncodeTo_eq_append (f : Footer) (dst : Bytes) : f.EncodeTo dst = dst ++ f.EncodeTo [] := by
  cases hl : IsLegacyFooterFormat f.tableMagicNumber
  · rw [EncodeTo_of_not_legacy hl, EncodeTo_of_not_legacy hl, putMagicNumber_eq,
      putMagicNumber_eq ([] ++ _)]
    simp only [List.nil_append, List.append_assoc]
  · rw [EncodeTo_of_legacy hl, EncodeTo_of_legacy hl,
      putMagicNumber_eq (dst ++ f.handleBytes ++ f.padding),
      putMagicNumber_eq ([] ++ f.handleBytes ++ f.padding)]
    simp only [List.nil_append, List.append_assoc]

/-- A footer is at least `kMinEncodedLength` bytes long. -/
theorem not_length_lt_kMinEncodedLength (f : Footer) (pre : Bytes) :
    ¬(pre ++ f.EncodeTo []).length < kMinEncodedLength := by
  have hpad := length_handleBytes_padding f
  cases hl : IsLegacyFooterFormat f.tableMagicNumber
  · rw [EncodeTo_of_not_legacy hl]
    simp only [List.length_append, length_putMagicNumber, List.length_cons, length_encodeFixed32,
      List.append_assoc] at hpad ⊢
    simp only [kMinEncodedLength, kVersion0EncodedLength] at hpad ⊢
    omega
  · rw [EncodeTo_of_legacy hl]
    simp only [List.length_append, length_putMagicNumber, List.append_assoc] at hpad ⊢
    simp only [kMinEncodedLength, kVersion0EncodedLength] at hpad ⊢
    omega

/-- A newer footer reads back whole from the end of any input, and the input
is used up. -/
theorem DecodeFrom_EncodeTo_of_not_legacy (g f : Footer) (pre : Bytes)
    (hl : IsLegacyFooterFormat f.tableMagicNumber = false) (hc : f.checksum.toNat < 128) :
    DecodeFrom g (pre ++ f.EncodeTo []) = some (Status.OK, f, []) := by
  have hlong := not_length_lt_kMinEncodedLength f pre
  rw [← EncodeTo_eq_append] at hlong ⊢
  rw [EncodeTo_of_not_legacy hl] at hlong ⊢
  simp only [DecodeFrom, hlong, if_false, readMagicNumber_putMagicNumber, hl, Bool.false_eq_true,
    if_false]
  rw [decodeHeader_of_not_legacy _ _ _ hc (length_handleBytes_padding f), List.append_assoc,
    List.append_assoc]
  dsimp only
  rw [decodeHandles_handleBytes]

/-- A legacy footer reads back with its magic number up-converted, version 0 and
`kCRC32c`, and the input is used up. -/
theorem DecodeFrom_EncodeTo_of_legacy (g f : Footer) (pre : Bytes)
    (hl : IsLegacyFooterFormat f.tableMagicNumber = true) :
    DecodeFrom g (pre ++ f.EncodeTo []) =
      some (Status.OK, { f with tableMagicNumber := UpconvertLegacyFooterFormat f.tableMagicNumber,
                                version := 0, checksum := kCRC32c }, []) := by
  have hlong := not_length_lt_kMinEncodedLength f pre
  have htail : (f.handleBytes ++ f.padding ++ putMagicNumber [] f.tableMagicNumber).length =
      kVersion0EncodedLength := by
    rw [List.length_append, length_handleBytes_padding, length_putMagicNumber]
    rfl
  rw [← EncodeTo_eq_append] at hlong ⊢
  rw [EncodeTo_of_legacy hl] at hlong ⊢
  simp only [DecodeFrom, hlong, if_false, readMagicNumber_putMagicNumber, hl, if_true,
    decodeHeader]
  rw [putMagicNumber_eq, List.append_assoc, List.append_assoc, ← List.append_assoc f.handleBytes,
    drop_length_sub pre _ htail, List.append_assoc, decodeHandles_handleBytes]

end Footer

/-- The table footer and its block handles: a newer footer reads back whole, a
legacy one with its magic number up-converted, version 0 and `kCRC32c`, both
from the end of any input and using it up; a handle reads back with what follows
it left over, and a handle that fails to read is `(0, 0)`. -/
theorem footer_round_trip :
    (∀ (g f : Footer) (pre : Bytes), IsLegacyFooterFormat f.tableMagicNumber = false →
      f.checksum.toNat < 128 →
      Footer.DecodeFrom g (pre ++ f.EncodeTo []) = some (Status.OK, f, [])) ∧
    (∀ (g f : Footer) (pre : Bytes), IsLegacyFooterFormat f.tableMagicNumber = true →
      Footer.DecodeFrom g (pre ++ f.EncodeTo []) =
        some (Status.OK, { f with tableMagicNumber := UpconvertLegacyFooterFormat f.tableMagicNumber,
                                  version := 0, checksum := kCRC32c }, [])) ∧
    (∀ (h : BlockHandle) (rest : Bytes),
      BlockHandle.DecodeFrom (h.EncodeTo [] ++ rest) = (Status.OK, h, rest)) ∧
    (∀ input : Bytes, (BlockHandle.DecodeFrom input).1.ok = false →
      (BlockHandle.DecodeFrom input).2.1 = ⟨0, 0⟩) := by
  refine ⟨?_, ?_, ?_, ?_⟩
  · intro g f pre hl hc
    exact Footer.DecodeFrom_EncodeTo_of_not_legacy g f pre hl hc
  · intro g f pre hl
    exact Footer.DecodeFrom_EncodeTo_of_legacy g f pre hl
  · exact BlockHandle.DecodeFrom_EncodeTo
  · exact BlockHandle.DecodeFrom_reset

/-- A version-2 block-based footer with `kxxHash64` reads back into `Footer()`
after a three-byte prefix, and a legacy one comes back up-converted. -/
theorem footer_round_trip_block_based :
    Footer.DecodeFrom Footer.empty
        ([7, 7, 7] ++ Footer.EncodeTo ⟨2, kxxHash64, kBlockBasedTableMagicNumber, ⟨100, 200⟩,
          ⟨300, 40000⟩⟩ []) =
      some (Status.OK, ⟨2, kxxHash64, kBlockBasedTableMagicNumber, ⟨100, 200⟩, ⟨300, 40000⟩⟩, []) ∧
    Footer.DecodeFrom Footer.empty
        (Footer.EncodeTo ⟨0, kCRC32c, kLegacyBlockBasedTableMagicNumber, ⟨100, 200⟩,
          ⟨300, 40000⟩⟩ []) =
      some (Status.OK, ⟨0, kCRC32c, kBlockBasedTableMagicNumber, ⟨100, 200⟩, ⟨300, 40000⟩⟩, []) :=
  ⟨footer_round_trip.1 _ _ _ (by decide) (by decide),
    footer_round_trip.2.1 Footer.empty
      ⟨0, kCRC32c, kLegacyBlockBasedTableMagicNumber, ⟨100, 200⟩, ⟨300, 40000⟩⟩ [] (by decide)⟩

end HapDB
