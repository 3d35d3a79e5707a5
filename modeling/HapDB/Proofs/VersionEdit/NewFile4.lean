import HapDB.Proofs.VersionEdit.Fields

/-!
# A `kNewFile4` entry read back

`EncodeTo` writes each new file as a `kNewFile4` entry: the fixed fields, then
custom fields (the path id and the compaction mark when they are not zero, the
minimum log number to keep on the first file only, the property cache always)
and `kTerminate`.  `DecodeNewFile4From` reads the fixed fields into a fresh
`FileMetaData` and runs the loop of `decodeCustomFields` over the rest.

| part | lemma |
| --- | --- |
| the writer, as one chain of appends | `encodeNewFile4_eq` |
| the loop: a field, an optional field, `kTerminate` | `decodeCustomFields_field`, `decodeCustomFields_optional`, `decodeCustomFields_terminate` |
| each custom field | `decodeCustomField_pathId` and the three after it |
| the entry | `decodeEntry_encodeNewFile4` |

What comes back is `FileMetaData.decoded`: the same file, with `read_amp`
quantised and `need_upgrade` recomputed from the properties.
-/

namespace HapDB

/-- The new file a `kNewFile4` entry gives back: a file with table properties
in the manifest needs no upgrade, and `read_amp` is quantised. -/
def FileMetaData.decoded (f : FileMetaData) : FileMetaData :=
  { f with
    needUpgrade := !(f.prop.numEntries > 0 || f.prop.rawKeySize > 0 || f.prop.rawValueSize > 0)
    prop := f.prop.quantized }

/-- What a new file needs for its entry to be written and read back: valid keys
whose lengths fit the `uint32_t` prefix, and a property cache whose field does
too. -/
structure FileMetaData.Fits (f : FileMetaData) : Prop where
  smallest_valid : f.smallest.valid = true
  largest_valid : f.largest.valid = true
  smallest_length : f.smallest.rep.length < 2 ^ 32
  largest_length : f.largest.rep.length < 2 ^ 32
  prop_fits : f.prop.Fits
  prop_length : (VersionEdit.encodePropertyCache f.prop).length < 2 ^ 32

namespace VersionEdit

/-- **The writer of a new file's entry**, as one chain of appends: the fixed
fields, the three optional custom fields, the property cache and
`kTerminate`. -/
theorem encodeNewFile4_eq (e : VersionEdit) (written : Bool) (level : Int32) (f : FileMetaData)
    (dst : Bytes) :
    e.encodeNewFile4 written level f dst =
      dst ++ (encodeVarint32 Tag.kNewFile4.toUInt32 ++ (encodeVarint32 level.toUInt32 ++
        (encodeVarint64 f.fd.getNumber ++ (encodeVarint64 f.fd.fileSize ++
        (encodeVarint32 (UInt32.ofNat f.smallest.rep.length) ++ (f.smallest.rep ++
        (encodeVarint32 (UInt32.ofNat f.largest.rep.length) ++ (f.largest.rep ++
        (encodeVarint64 f.fd.smallestSeqno ++ (encodeVarint64 f.fd.largestSeqno ++
        ((if f.fd.getPathId ≠ 0 then
            encodeVarint32 CustomTag.kPathId.toUInt32 ++ (encodeVarint32 1 ++ [f.fd.getPathId.toUInt8])
          else []) ++
        ((if f.markedForCompaction ≠ 0 then
            encodeVarint32 CustomTag.kNeedCompaction.toUInt32 ++
              (encodeVarint32 1 ++ [reverseByte f.markedForCompaction])
          else []) ++
        ((if (e.hasMinLogNumberToKeep && !written) = true then
            encodeVarint32 CustomTag.kMinLogNumberToKeepHack.toUInt32 ++
              (encodeVarint32 8 ++ encodeFixed64 e.minLogNumberToKeep)
          else []) ++
        (encodeVarint32 CustomTag.kPropertyCache.toUInt32 ++
          (encodeVarint32 (UInt32.ofNat (encodePropertyCache f.prop).length) ++
            (encodePropertyCache f.prop ++ encodeVarint32 CustomTag.kTerminate.toUInt32)))))))))))))))) := by
  unfold encodeNewFile4
  split_ifs <;> simp

/-! ## The loop over the custom fields -/

theorem decodeCustomFields_terminate (e : VersionEdit) (f : FileMetaData) (pathId : UInt32)
    (rest : Bytes) :
    e.decodeCustomFields f pathId (encodeVarint32 CustomTag.kTerminate.toUInt32 ++ rest) =
      .ok (rest, e, f, pathId) := by
  rw [decodeCustomFields]
  split
  · simp_all [getVarint32_encodeVarint32]
  · rename_i customTag rest' h
    rw [getVarint32_encodeVarint32] at h
    cases h
    simp

/-- A field other than `kTerminate` is read and the loop goes on after it. -/
theorem decodeCustomFields_field {e e' : VersionEdit} {f f' : FileMetaData} {pathId pathId' : UInt32}
    (tag : CustomTag) (htag : tag ≠ .kTerminate) {n : UInt32} {field : Bytes} (hn : n.toNat = field.length)
    (hfield : e.decodeCustomField f pathId tag.toUInt32 field = .ok (e', f', pathId'))
    (rest : Bytes) :
    e.decodeCustomFields f pathId (encodeVarint32 tag.toUInt32 ++ (encodeVarint32 n ++ (field ++ rest))) =
      e'.decodeCustomFields f' pathId' rest := by
  have hne : tag.toUInt32 ≠ CustomTag.kTerminate.toUInt32 := by
    cases tag <;> simp_all [CustomTag.toUInt32]
  rw [decodeCustomFields]
  split
  · simp_all [getVarint32_encodeVarint32]
  · rename_i customTag rest₀ h
    rw [getVarint32_encodeVarint32] at h
    cases h
    rw [if_neg hne]
    split
    · simp_all [getLengthPrefixedSlice_prefixed hn]
    · rename_i field' rest₁ h'
      rw [getLengthPrefixedSlice_prefixed hn] at h'
      cases h'
      simp [hfield]

/-- A field written only when `c` holds: read when it is there, and the state
it would set is already the reader's when it is not. -/
theorem decodeCustomFields_optional {e e' : VersionEdit} {f f' : FileMetaData}
    {pathId pathId' : UInt32} (c : Prop) [Decidable c] (tag : CustomTag) (htag : tag ≠ .kTerminate)
    {n : UInt32} {field : Bytes} (hn : n.toNat = field.length)
    (hfield : c → e.decodeCustomField f pathId tag.toUInt32 field = .ok (e', f', pathId'))
    (hskip : ¬ c → e' = e ∧ f' = f ∧ pathId' = pathId) (rest : Bytes) :
    e.decodeCustomFields f pathId
        ((if c then encodeVarint32 tag.toUInt32 ++ (encodeVarint32 n ++ field) else []) ++ rest) =
      e'.decodeCustomFields f' pathId' rest := by
  by_cases hc : c
  · rw [if_pos hc, List.append_assoc, List.append_assoc]
    exact decodeCustomFields_field tag htag hn (hfield hc) rest
  · obtain ⟨rfl, rfl, rfl⟩ := hskip hc
    rw [if_neg hc, List.nil_append]

/-! ## Each custom field -/

theorem decodeCustomField_pathId (e : VersionEdit) (f : FileMetaData) (pathId p : UInt32)
    (hp : p ≤ 3) :
    e.decodeCustomField f pathId CustomTag.kPathId.toUInt32 [p.toUInt8] = .ok (e, f, p) := by
  have hle : ¬ p > 3 := UInt32.not_lt.mpr hp
  simp [decodeCustomField, charToUInt32_of_le hp, hle]

theorem decodeCustomField_needCompaction (e : VersionEdit) (f : FileMetaData) (pathId : UInt32)
    (m : UInt8) :
    e.decodeCustomField f pathId CustomTag.kNeedCompaction.toUInt32 [reverseByte m] =
      .ok (e, { f with markedForCompaction := m }, pathId) := by
  simp [decodeCustomField, reverseByte_reverseByte]

theorem decodeCustomField_minLogNumberToKeep (e : VersionEdit) (f : FileMetaData) (pathId : UInt32)
    (v : UInt64) :
    e.decodeCustomField f pathId CustomTag.kMinLogNumberToKeepHack.toUInt32 (encodeFixed64 v) =
      .ok (e.setMinLogNumberToKeep v, f, pathId) := by
  have h := getFixed64_encodeFixed64 v []
  rw [List.append_nil] at h
  simp [decodeCustomField, h]

/-- The property cache, read into a file that has none yet. -/
theorem decodeCustomField_propertyCache (e : VersionEdit) (f : FileMetaData) (pathId : UInt32)
    (p : TablePropertyCache) (hf : f.prop = {}) (hp : p.Fits) :
    e.decodeCustomField f pathId CustomTag.kPropertyCache.toUInt32 (encodePropertyCache p) =
      .ok (e, { f with
        prop := p.quantized
        needUpgrade := f.needUpgrade && !(p.numEntries > 0 || p.rawKeySize > 0 || p.rawValueSize > 0) },
        pathId) := by
  simp only [decodeCustomField, CustomTag.ofUInt32?_toUInt32, hf, decodePropertyCache_encode p hp,
    Except.bind_ok]
  rfl

/-! ## The optional fields of a file -/

/-- The path id, written when it is not `0`, the reader's initial value. -/
theorem decodeCustomFields_pathId (e : VersionEdit) (f : FileMetaData) (fd : FileDescriptor)
    (rest : Bytes) :
    e.decodeCustomFields f 0
        ((if fd.getPathId ≠ 0 then
            encodeVarint32 CustomTag.kPathId.toUInt32 ++ (encodeVarint32 1 ++ [fd.getPathId.toUInt8])
          else []) ++ rest) =
      e.decodeCustomFields f fd.getPathId rest :=
  decodeCustomFields_optional _ .kPathId (by decide) rfl
    (fun _ => decodeCustomField_pathId _ _ _ _ fd.getPathId_le) (fun h => ⟨rfl, rfl, not_not.mp h⟩) rest

/-- The compaction mark, written when it is not `0`, the initial value of a
fresh file. -/
theorem decodeCustomFields_needCompaction (e : VersionEdit) (f : FileMetaData)
    (hf : f.markedForCompaction = 0) (pathId : UInt32) (m : UInt8) (rest : Bytes) :
    e.decodeCustomFields f pathId
        ((if m ≠ 0 then
            encodeVarint32 CustomTag.kNeedCompaction.toUInt32 ++ (encodeVarint32 1 ++ [reverseByte m])
          else []) ++ rest) =
      e.decodeCustomFields { f with markedForCompaction := m } pathId rest :=
  decodeCustomFields_optional _ .kNeedCompaction (by decide) rfl
    (fun _ => decodeCustomField_needCompaction _ _ _ _)
    (fun h => ⟨rfl, by rw [not_not.mp h, ← hf], rfl⟩) rest

/-- The minimum log number to keep, written on the first file of an edit that
has one. -/
theorem decodeCustomFields_minLogNumberToKeep (e : VersionEdit) (f : FileMetaData) (pathId : UInt32)
    (c : Bool) (v : UInt64) (rest : Bytes) :
    e.decodeCustomFields f pathId
        ((if c = true then
            encodeVarint32 CustomTag.kMinLogNumberToKeepHack.toUInt32 ++ (encodeVarint32 8 ++ encodeFixed64 v)
          else []) ++ rest) =
      (if c = true then e.setMinLogNumberToKeep v else e).decodeCustomFields f pathId rest :=
  decodeCustomFields_optional _ .kMinLogNumberToKeepHack (by decide) rfl
    (fun h => by rw [if_pos h]; exact decodeCustomField_minLogNumberToKeep _ _ _ _)
    (fun h => ⟨if_neg h, rfl, rfl⟩) rest

/-! ## The entry -/

/-- **A new file's entry read back.**  After its tag, `DecodeNewFile4From`
takes the entry off the front of the input and adds the decoded file at its
level; the first file of the edit also brings back the minimum log number to
keep. -/
theorem decodeEntry_encodeNewFile4 (d e : VersionEdit) (written : Bool) (level : Int32)
    (f : FileMetaData) (hf : f.Fits) :
    ∃ body, e.encodeNewFile4 written level f [] = encodeVarint32 Tag.kNewFile4.toUInt32 ++ body ∧
      ∀ rest, d.decodeEntry Tag.kNewFile4.toUInt32 (body ++ rest) =
        .ok (rest, (if (e.hasMinLogNumberToKeep && !written) = true then
            (d.raiseMaxLevel level).setMinLogNumberToKeep e.minLogNumberToKeep
          else d.raiseMaxLevel level).addFileMeta level f.decoded) := by
  rw [encodeNewFile4_eq]
  refine ⟨_, by rw [List.nil_append], fun rest => ?_⟩
  simp only [List.append_assoc]
  simp only [decodeEntry, Tag.ofUInt32?_toUInt32, decodeNewFile4From, orError, getLevel_encode,
    getVarint64_encodeVarint64, getInternalKey_encode _ _ hf.smallest_valid hf.smallest_length,
    getInternalKey_encode _ _ hf.largest_valid hf.largest_length, Except.bind_ok]
  -- the custom fields, one lemma each, in the order they are written
  rw [decodeCustomFields_pathId, decodeCustomFields_needCompaction _ _ rfl,
    decodeCustomFields_minLogNumberToKeep,
    decodeCustomFields_field .kPropertyCache (by decide) (toNat_ofNat_length_of_lt hf.prop_length)
      (decodeCustomField_propertyCache _ _ _ _ rfl hf.prop_fits),
    decodeCustomFields_terminate, Except.bind_ok, FileDescriptor.make_getNumber_getPathId]
  rfl

end VersionEdit

end HapDB
