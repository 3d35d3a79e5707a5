import HapDB.Proofs.VersionEdit.NewFile4

/-!
# The manifest record read back

A manifest record is a list of entries.  `ManifestEntry` names them, with the
bytes `EncodeTo` writes for each (`ManifestEntry.encode`) and the setter
`DecodeFrom` calls when it reads one (`ManifestEntry.apply`).  The round trip
then has three parts:

| part | lemma |
| --- | --- |
| `EncodeTo` writes the entries of the edit, in order | `encodeTo_eq` |
| `DecodeFrom` reads one entry, then the rest | `decodeEntry_encode`, `decodeLoop_entries` |
| reading the entries back rebuilds the record | `record_foldl_entries` |

`EditRecord` is what an edit says to `VersionBuilder::Apply` and to recovery:
each member with a flag when its flag is set, the deleted and the new files,
and the blob lineage.  Reading a record back gives it again but for three
members: `read_amp` is quantised, the minimum log number to keep is lost when
the edit has no new file (it rides on the first one), and the blob lineage
(`new_blobs_`, `blob_dependence_`) is never written at all.
-/

namespace HapDB

/-- One entry of a manifest record, as `EncodeTo` writes them; a new file
carries the minimum log number to keep when it is the first of its edit. -/
inductive ManifestEntry where
  | comparator (name : Bytes)
  | logNumber (num : UInt64)
  | prevLogNumber (num : UInt64)
  | nextFileNumber (num : UInt64)
  | lastSequence (seq : UInt64)
  | maxColumnFamily (maxColumnFamily : UInt32)
  | deletedFile (file : DeletedFile)
  | newFile4 (minLogNumberToKeep : Option UInt64) (level : Int32) (f : FileMetaData)
  | columnFamily (columnFamilyId : UInt32)
  | columnFamilyAdd (name : Bytes)
  | columnFamilyDrop
  | inAtomicGroup (remainingEntries : UInt32)

namespace ManifestEntry

/-- The bytes of an entry, with the writers `EncodeTo` uses for it. -/
def encode : ManifestEntry → Bytes
  | comparator name => putLengthPrefixedSlice (putVarint32 [] Tag.kComparator.toUInt32) name
  | logNumber num => putVarint32Varint64 [] Tag.kLogNumber.toUInt32 num
  | prevLogNumber num => putVarint32Varint64 [] Tag.kPrevLogNumber.toUInt32 num
  | nextFileNumber num => putVarint32Varint64 [] Tag.kNextFileNumber.toUInt32 num
  | lastSequence seq => putVarint32Varint64 [] Tag.kLastSequence.toUInt32 seq
  | maxColumnFamily v => putVarint32Varint32 [] Tag.kMaxColumnFamily.toUInt32 v
  | deletedFile d => putVarint32Varint32Varint64 [] Tag.kDeletedFile.toUInt32 d.level.toUInt32 d.number
  | newFile4 minLog level f =>
      VersionEdit.encodeNewFile4
        { hasMinLogNumberToKeep := minLog.isSome, minLogNumberToKeep := minLog.getD 0 } false level f []
  | columnFamily id => putVarint32Varint32 [] Tag.kColumnFamily.toUInt32 id
  | columnFamilyAdd name => putLengthPrefixedSlice (putVarint32 [] Tag.kColumnFamilyAdd.toUInt32) name
  | columnFamilyDrop => putVarint32 [] Tag.kColumnFamilyDrop.toUInt32
  | inAtomicGroup n => putVarint32 (putVarint32 [] Tag.kInAtomicGroup.toUInt32) n

/-- What reading an entry does to the edit: the setter of the API that the
reader calls, after `GetLevel` has raised `max_level_`. -/
def apply (d : VersionEdit) : ManifestEntry → VersionEdit
  | comparator name => d.setComparatorName name
  | logNumber num => d.setLogNumber num
  | prevLogNumber num => d.setPrevLogNumber num
  | nextFileNumber num => d.setNextFile num
  | lastSequence seq => d.setLastSequence seq
  | maxColumnFamily v => d.setMaxColumnFamily v
  | deletedFile file => (d.raiseMaxLevel file.level).deleteFile file.level file.number
  | newFile4 minLog level f =>
      (match minLog with
        | some v => (d.raiseMaxLevel level).setMinLogNumberToKeep v
        | none => d.raiseMaxLevel level).addFileMeta level f.decoded
  | columnFamily id => d.setColumnFamily id
  | columnFamilyAdd name => d.addColumnFamily name
  | columnFamilyDrop => d.dropColumnFamily
  | inAtomicGroup n => d.markAtomicGroup n

/-- What an entry needs to be read back: its slices fit their length prefix,
its new file fits. -/
def Fits : ManifestEntry → Prop
  | comparator name => name.length < 2 ^ 32
  | newFile4 _ _ f => f.Fits
  | columnFamilyAdd name => name.length < 2 ^ 32
  | _ => True

end ManifestEntry

namespace VersionEdit

/-! ## Reading an entry -/

/-- **One entry read back**: its tag, then a body from which the entry's reader
takes the entry, whatever follows it. -/
theorem decodeEntry_encode (d : VersionEdit) (en : ManifestEntry) (hen : en.Fits) :
    ∃ tag body, en.encode = encodeVarint32 tag ++ body ∧
      ∀ rest, d.decodeEntry tag (body ++ rest) = .ok (rest, en.apply d) := by
  cases en with
  | comparator name =>
      refine ⟨Tag.kComparator.toUInt32, encodeVarint32 (UInt32.ofNat name.length) ++ name, by
        simp [ManifestEntry.encode], fun rest => ?_⟩
      simp [decodeEntry, getLengthPrefixedSlice_prefixed (toNat_ofNat_length_of_lt hen),
        ManifestEntry.apply]
  | logNumber num =>
      exact ⟨Tag.kLogNumber.toUInt32, encodeVarint64 num, by simp [ManifestEntry.encode],
        by simp [decodeEntry, getVarint64_encodeVarint64, ManifestEntry.apply]⟩
  | prevLogNumber num =>
      exact ⟨Tag.kPrevLogNumber.toUInt32, encodeVarint64 num, by simp [ManifestEntry.encode],
        by simp [decodeEntry, getVarint64_encodeVarint64, ManifestEntry.apply]⟩
  | nextFileNumber num =>
      exact ⟨Tag.kNextFileNumber.toUInt32, encodeVarint64 num, by simp [ManifestEntry.encode],
        by simp [decodeEntry, getVarint64_encodeVarint64, ManifestEntry.apply]⟩
  | lastSequence seq =>
      exact ⟨Tag.kLastSequence.toUInt32, encodeVarint64 seq, by simp [ManifestEntry.encode],
        by simp [decodeEntry, getVarint64_encodeVarint64, ManifestEntry.apply]⟩
  | maxColumnFamily v =>
      exact ⟨Tag.kMaxColumnFamily.toUInt32, encodeVarint32 v, by simp [ManifestEntry.encode],
        by simp [decodeEntry, getVarint32_encodeVarint32, ManifestEntry.apply]⟩
  | deletedFile file =>
      refine ⟨Tag.kDeletedFile.toUInt32, encodeVarint32 file.level.toUInt32 ++ encodeVarint64 file.number,
        by simp [ManifestEntry.encode], fun rest => ?_⟩
      simp [decodeEntry, getLevel_encode, getVarint64_encodeVarint64, ManifestEntry.apply]
  | newFile4 minLog level f =>
      obtain ⟨body, hbody, hdec⟩ := decodeEntry_encodeNewFile4 d
        { hasMinLogNumberToKeep := minLog.isSome, minLogNumberToKeep := minLog.getD 0 } false level f hen
      refine ⟨_, body, hbody, fun rest => ?_⟩
      rw [hdec]
      cases minLog <;> rfl
  | columnFamily id =>
      exact ⟨Tag.kColumnFamily.toUInt32, encodeVarint32 id, by simp [ManifestEntry.encode],
        by simp [decodeEntry, getVarint32_encodeVarint32, ManifestEntry.apply]⟩
  | columnFamilyAdd name =>
      refine ⟨Tag.kColumnFamilyAdd.toUInt32, encodeVarint32 (UInt32.ofNat name.length) ++ name, by
        simp [ManifestEntry.encode], fun rest => ?_⟩
      simp [decodeEntry, getLengthPrefixedSlice_prefixed (toNat_ofNat_length_of_lt hen),
        ManifestEntry.apply]
  | columnFamilyDrop =>
      exact ⟨Tag.kColumnFamilyDrop.toUInt32, [], by simp [ManifestEntry.encode],
        fun rest => by simp [decodeEntry, ManifestEntry.apply]; rfl⟩
  | inAtomicGroup n =>
      exact ⟨Tag.kInAtomicGroup.toUInt32, encodeVarint32 n, by simp [ManifestEntry.encode],
        by simp [decodeEntry, getVarint32_encodeVarint32, ManifestEntry.apply]⟩

/-! ## The loop of `DecodeFrom` -/

theorem decodeLoop_nil (d : VersionEdit) : d.decodeLoop [] = .ok d := by
  rw [decodeLoop]
  split
  · rfl
  · rename_i h
    simp [getVarint32, getVarint32Ptr_eq, getVarint32PtrFallback, Codec.decodeGroups] at h

/-- One step of the loop: an entry whose reader succeeds, then the rest. -/
theorem decodeLoop_step {d d' : VersionEdit} {tag : UInt32} {body rest : Bytes}
    (h : d.decodeEntry tag body = .ok (rest, d')) :
    d.decodeLoop (encodeVarint32 tag ++ body) = d'.decodeLoop rest := by
  rw [decodeLoop]
  split
  · simp_all [getVarint32_encodeVarint32]
  · rename_i tag' body' hvar
    rw [getVarint32_encodeVarint32] at hvar
    cases hvar
    split
    · simp_all
    · simp_all

/-- **The loop over a whole record**: the entries are read one by one, each
applied to the edit. -/
theorem decodeLoop_entries (d : VersionEdit) (ens : List ManifestEntry)
    (hfits : ∀ en ∈ ens, en.Fits) :
    d.decodeLoop (ens.map ManifestEntry.encode).flatten = .ok (ens.foldl ManifestEntry.apply d) := by
  induction ens generalizing d with
  | nil => exact decodeLoop_nil d
  | cons en ens ih =>
      obtain ⟨tag, body, hbody, hdec⟩ := decodeEntry_encode d en (hfits en List.mem_cons_self)
      rw [List.map_cons, List.flatten_cons, hbody, List.append_assoc,
        decodeLoop_step (hdec (ens.map ManifestEntry.encode).flatten), List.foldl_cons]
      exact ih _ fun en' hen' => hfits en' (List.mem_cons_of_mem en hen')

/-! ## The entries of an edit -/

/-- The new-file entries of an edit: the first one carries `minLog`. -/
def newFileEntries (minLog : Option UInt64) : List (Int32 × FileMetaData) → List ManifestEntry
  | [] => []
  | (level, f) :: files => .newFile4 minLog level f :: files.map fun p => .newFile4 none p.1 p.2

/-- The entries `EncodeTo` writes for an edit, in the order it writes them. -/
def entries (e : VersionEdit) : List ManifestEntry :=
  (if e.hasComparator then [.comparator e.comparator] else []) ++
  (if e.hasLogNumber then [.logNumber e.logNumber] else []) ++
  (if e.hasPrevLogNumber then [.prevLogNumber e.prevLogNumber] else []) ++
  (if e.hasNextFileNumber then [.nextFileNumber e.nextFileNumber] else []) ++
  (if e.hasLastSequence then [.lastSequence e.lastSequence] else []) ++
  (if e.hasMaxColumnFamily then [.maxColumnFamily e.maxColumnFamily] else []) ++
  e.deletedFiles.1.map .deletedFile ++
  newFileEntries (if e.hasMinLogNumberToKeep then some e.minLogNumberToKeep else none) e.newFiles ++
  (if e.columnFamily ≠ 0 then [.columnFamily e.columnFamily] else []) ++
  (if e.isColumnFamilyAdd then [.columnFamilyAdd e.columnFamilyName] else []) ++
  (if e.isColumnFamilyDrop then [.columnFamilyDrop] else []) ++
  (if e.isInAtomicGroup then [.inAtomicGroup e.remainingEntries] else [])

theorem newFileEntries_none (files : List (Int32 × FileMetaData)) :
    newFileEntries none files = files.map fun p => .newFile4 none p.1 p.2 := by
  cases files <;> rfl

/-! ## `EncodeTo` writes the entries -/

/-- A new file's entry, with the minimum log number when it is the first. -/
theorem encodeNewFile4_entry (e : VersionEdit) (written : Bool) (level : Int32) (f : FileMetaData)
    (dst : Bytes) :
    e.encodeNewFile4 written level f dst =
      dst ++ (ManifestEntry.newFile4
        (if (e.hasMinLogNumberToKeep && !written) = true then some e.minLogNumberToKeep else none)
        level f).encode := by
  rw [ManifestEntry.encode, encodeNewFile4_eq, encodeNewFile4_eq]
  by_cases h : (e.hasMinLogNumberToKeep && !written) = true <;> simp [h]

theorem encodeNewFiles_eq (e : VersionEdit) (written : Bool) (files : List (Int32 × FileMetaData))
    (dst : Bytes) (hvalid : ∀ p ∈ files, p.2.smallest.valid = true ∧ p.2.largest.valid = true) :
    e.encodeNewFiles written files dst =
      some (dst ++ ((newFileEntries
        (if (e.hasMinLogNumberToKeep && !written) = true then some e.minLogNumberToKeep else none)
        files).map ManifestEntry.encode).flatten) := by
  induction files generalizing written dst with
  | nil => simp [encodeNewFiles, newFileEntries]
  | cons p files ih =>
      obtain ⟨level, f⟩ := p
      have hf := hvalid (level, f) List.mem_cons_self
      rw [encodeNewFiles, if_neg (by simp [hf.1, hf.2]),
        ih _ _ fun p hp => hvalid p (List.mem_cons_of_mem _ hp), encodeNewFile4_entry]
      -- the files after the first carry no log number
      have hlater : (if (e.hasMinLogNumberToKeep && !(written || e.hasMinLogNumberToKeep)) = true then
          some e.minLogNumberToKeep else none) = none :=
        if_neg (by cases e.hasMinLogNumberToKeep <;> simp)
      rw [hlater, newFileEntries_none]
      simp [newFileEntries]

/-! The skipped writes of `EncodeTo` append nothing: one lemma per writer. -/

theorem ite_putVarint32Varint64 {c : Prop} [Decidable c] (dst : Bytes) (v1 : UInt32) (v2 : UInt64) :
    (if c then putVarint32Varint64 dst v1 v2 else dst) =
      dst ++ if c then encodeVarint32 v1 ++ encodeVarint64 v2 else [] := by
  split <;> simp

theorem ite_putVarint32Varint32 {c : Prop} [Decidable c] (dst : Bytes) (v1 v2 : UInt32) :
    (if c then putVarint32Varint32 dst v1 v2 else dst) =
      dst ++ if c then encodeVarint32 v1 ++ encodeVarint32 v2 else [] := by
  split <;> simp

theorem ite_putLengthPrefixedSlice {c : Prop} [Decidable c] (dst : Bytes) (tag : UInt32) (value : Bytes) :
    (if c then putLengthPrefixedSlice (putVarint32 dst tag) value else dst) =
      dst ++ if c then encodeVarint32 tag ++ (encodeVarint32 (UInt32.ofNat value.length) ++ value)
        else [] := by
  split <;> simp

theorem ite_putVarint32 {c : Prop} [Decidable c] (dst : Bytes) (v : UInt32) :
    (if c then putVarint32 dst v else dst) = dst ++ if c then encodeVarint32 v else [] := by
  split <;> simp

theorem ite_putVarint32_putVarint32 {c : Prop} [Decidable c] (dst : Bytes) (v1 v2 : UInt32) :
    (if c then putVarint32 (putVarint32 dst v1) v2 else dst) =
      dst ++ if c then encodeVarint32 v1 ++ encodeVarint32 v2 else [] := by
  split <;> simp

theorem foldl_putDeletedFile (dst : Bytes) (files : List DeletedFile) :
    files.foldl (fun dst d =>
        putVarint32Varint32Varint64 dst Tag.kDeletedFile.toUInt32 d.level.toUInt32 d.number) dst =
      dst ++ ((files.map ManifestEntry.deletedFile).map ManifestEntry.encode).flatten := by
  induction files generalizing dst with
  | nil => simp
  | cons d files ih =>
      rw [List.foldl_cons, ih]
      simp [ManifestEntry.encode]

theorem flatten_map_ite {c : Prop} [Decidable c] (en : ManifestEntry) :
    ((if c then [en] else []).map ManifestEntry.encode).flatten = if c then en.encode else [] := by
  split <;> simp

/-- **`EncodeTo` writes the entries of the edit**, in order, when every new
file has valid keys. -/
theorem encodeTo_eq (e : VersionEdit) (dst : Bytes)
    (hvalid : ∀ p ∈ e.newFiles, p.2.smallest.valid = true ∧ p.2.largest.valid = true) :
    e.encodeTo dst = some (dst ++ (e.entries.map ManifestEntry.encode).flatten) := by
  unfold encodeTo
  -- every skipped write appends nothing; the loops append their entries
  simp only [ite_putVarint32Varint64, ite_putVarint32Varint32, ite_putLengthPrefixedSlice,
    ite_putVarint32, ite_putVarint32_putVarint32, foldl_putDeletedFile,
    encodeNewFiles_eq e false _ _ hvalid, Option.bind_eq_bind, Option.bind_some, Option.pure_def]
  simp only [entries, List.map_append, List.flatten_append, flatten_map_ite, ManifestEntry.encode,
    Bool.not_false, Bool.and_true, putVarint32_eq, putVarint32Varint32_eq, putVarint32Varint64_eq,
    putLengthPrefixedSlice_eq, List.nil_append, List.append_assoc]

/-! ## `DecodeFrom` reads the entries back -/

/-- What an edit needs for its record to be written and read back: the names
fit their length prefix, and every new file fits. -/
structure Fits (e : VersionEdit) : Prop where
  comparator_length : e.comparator.length < 2 ^ 32
  columnFamilyName_length : e.columnFamilyName.length < 2 ^ 32
  newFiles_fit : ∀ p ∈ e.newFiles, p.2.Fits

theorem mem_newFileEntries {minLog : Option UInt64} {files : List (Int32 × FileMetaData)}
    {en : ManifestEntry} (h : en ∈ newFileEntries minLog files) :
    ∃ minLog' p, p ∈ files ∧ en = .newFile4 minLog' p.1 p.2 := by
  cases files with
  | nil => simp [newFileEntries] at h
  | cons p files =>
      simp only [newFileEntries, List.mem_cons, List.mem_map] at h
      rcases h with rfl | ⟨q, hq, rfl⟩
      · exact ⟨minLog, p, List.mem_cons_self, rfl⟩
      · exact ⟨none, q, List.mem_cons_of_mem _ hq, rfl⟩

theorem fits_of_mem_entries {e : VersionEdit} (he : e.Fits) {en : ManifestEntry}
    (hen : en ∈ e.entries) : en.Fits := by
  -- only the names and the new files have something to fit
  cases en with
  | comparator name =>
      simp [entries] at hen
      rcases hen with ⟨-, rfl⟩ | hmem
      · exact he.comparator_length
      · obtain ⟨_, _, _, h⟩ := mem_newFileEntries hmem
        cases h
  | newFile4 minLog level f =>
      simp only [entries, List.mem_append, List.mem_ite_nil_right, List.mem_singleton, List.mem_map,
        reduceCtorEq, and_false, false_or, or_false, exists_false] at hen
      obtain ⟨_, p, hp, heq⟩ := mem_newFileEntries hen
      cases heq
      exact he.newFiles_fit p hp
  | columnFamilyAdd name =>
      simp [entries] at hen
      rcases hen with hmem | ⟨-, rfl⟩
      · obtain ⟨_, _, _, h⟩ := mem_newFileEntries hmem
        cases h
      · exact he.columnFamilyName_length
  | _ => trivial

/-- **The record read back**: `DecodeFrom` on what `EncodeTo` wrote returns the
entries of the edit applied, in order, to a fresh edit. -/
theorem decodeFrom_encodeTo (e : VersionEdit) (he : e.Fits) :
    ∃ bytes, e.encodeTo [] = some bytes ∧
      new.decodeFrom bytes = .ok (e.entries.foldl ManifestEntry.apply new) := by
  have hvalid : ∀ p ∈ e.newFiles, p.2.smallest.valid = true ∧ p.2.largest.valid = true :=
    fun p hp => ⟨(he.newFiles_fit p hp).smallest_valid, (he.newFiles_fit p hp).largest_valid⟩
  refine ⟨_, encodeTo_eq e [] hvalid, ?_⟩
  -- `Clear` leaves a fresh edit as it is
  have hclear : new.clear = new := rfl
  rw [decodeFrom, List.nil_append, hclear, decodeLoop_entries new _ fun en hen => fits_of_mem_entries he hen]

end VersionEdit

end HapDB
