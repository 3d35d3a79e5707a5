import HapDB.Proofs.VersionEdit.RoundTrip

/-!
# What a manifest record says, and what it loses

`EditRecord` is an edit as `VersionBuilder::Apply(edit, version_num)` and the
recovery of a version set read it: every member that has a flag, when its flag
is set, the deleted files in order, the new files with their levels (the blob
level `-1` included), and the blob lineage of a garbage collection
(`GetNewBlobs`, `GetBlobDependence`).  A new file is described by all of its
metadata but `need_upgrade`, which the reader recomputes.

Reading each entry changes the record as `ManifestEntry.applyRecord` says
(`record_apply`), so reading the entries of an edit gives the record that
`record_foldl_entries` computes: the edit's own, with `read_amp` quantised,
without the minimum log number to keep when there is no new file to carry it,
and without any blob lineage.
-/

namespace HapDB

/-- A new file as a manifest record describes it. -/
structure FileRecord where
  fd : FileDescriptor
  smallest : InternalKey
  largest : InternalKey
  markedForCompaction : UInt8
  prop : TablePropertyCache

/-- The description of a file's metadata. -/
def FileMetaData.record (f : FileMetaData) : FileRecord :=
  ⟨f.fd, f.smallest, f.largest, f.markedForCompaction, f.prop⟩

/-- What an edit tells `VersionBuilder::Apply` and recovery. -/
@[ext] structure EditRecord where
  comparator : Option Bytes
  logNumber : Option UInt64
  prevLogNumber : Option UInt64
  nextFileNumber : Option UInt64
  lastSequence : Option UInt64
  maxColumnFamily : Option UInt32
  minLogNumberToKeep : Option UInt64
  deletedFiles : List DeletedFile
  newFiles : List (Int32 × FileRecord)
  columnFamily : UInt32
  columnFamilyAdd : Option Bytes
  columnFamilyDrop : Bool
  atomicGroup : Option UInt32
  newBlobs : List FileRecord
  blobDependence : List (FileRecord × FileRecord)

/-- The record with the `read_amp` of every new file quantised, as a manifest
gives it back. -/
def EditRecord.quantized (r : EditRecord) : EditRecord :=
  { r with newFiles := r.newFiles.map fun p => (p.1, { p.2 with prop := p.2.prop.quantized }) }

namespace VersionEdit

/-- What the edit `e` tells `VersionBuilder::Apply` and recovery. -/
def record (e : VersionEdit) : EditRecord where
  comparator := if e.hasComparator then some e.comparator else none
  logNumber := if e.hasLogNumber then some e.logNumber else none
  prevLogNumber := if e.hasPrevLogNumber then some e.prevLogNumber else none
  nextFileNumber := if e.hasNextFileNumber then some e.nextFileNumber else none
  lastSequence := if e.hasLastSequence then some e.lastSequence else none
  maxColumnFamily := if e.hasMaxColumnFamily then some e.maxColumnFamily else none
  minLogNumberToKeep := if e.hasMinLogNumberToKeep then some e.minLogNumberToKeep else none
  deletedFiles := e.deletedFiles.1
  newFiles := e.newFiles.map fun p => (p.1, p.2.record)
  columnFamily := e.columnFamily
  columnFamilyAdd := if e.isColumnFamilyAdd then some e.columnFamilyName else none
  columnFamilyDrop := e.isColumnFamilyDrop
  atomicGroup := if e.isInAtomicGroup then some e.remainingEntries else none
  newBlobs := e.newBlobs.map FileMetaData.record
  blobDependence := e.blobDependence.map fun p => (p.1.record, p.2.record)

end VersionEdit

namespace ManifestEntry

/-- What reading an entry changes in the record. -/
def applyRecord (r : EditRecord) : ManifestEntry → EditRecord
  | comparator name => { r with comparator := some name }
  | logNumber num => { r with logNumber := some num }
  | prevLogNumber num => { r with prevLogNumber := some num }
  | nextFileNumber num => { r with nextFileNumber := some num }
  | lastSequence seq => { r with lastSequence := some seq }
  | maxColumnFamily v => { r with maxColumnFamily := some v }
  | deletedFile file => { r with deletedFiles := SortedList.insertList file r.deletedFiles }
  | newFile4 minLog level f =>
      { r with
        minLogNumberToKeep := minLog.or r.minLogNumberToKeep
        newFiles := r.newFiles ++ [(level, f.decoded.record)] }
  | columnFamily id => { r with columnFamily := id }
  | columnFamilyAdd name => { r with columnFamilyAdd := some name }
  | columnFamilyDrop => { r with columnFamilyDrop := true }
  | inAtomicGroup n => { r with atomicGroup := some n }

end ManifestEntry

namespace VersionEdit

/-! ## The record after each entry -/

@[simp] theorem record_raiseMaxLevel (d : VersionEdit) (level : Int32) :
    (d.raiseMaxLevel level).record = d.record := by
  unfold raiseMaxLevel
  split <;> rfl

theorem record_addFileMeta (d : VersionEdit) (level : Int32) (f : FileMetaData) :
    (d.addFileMeta level f).record = { d.record with newFiles := d.record.newFiles ++ [(level, f.record)] } := by
  simp only [record, addFileMeta, List.map_append, List.map_cons, List.map_nil]
  rfl

/-- **Reading an entry changes the record as the entry says.** -/
theorem record_apply (d : VersionEdit) (en : ManifestEntry) :
    (en.apply d).record = en.applyRecord d.record := by
  cases en with
  | deletedFile file =>
      rw [ManifestEntry.apply, ← record_raiseMaxLevel d file.level]
      rfl
  | newFile4 minLog level f =>
      cases minLog with
      | none => simp [ManifestEntry.apply, ManifestEntry.applyRecord, record_addFileMeta]
      | some v =>
          simp only [ManifestEntry.apply, ManifestEntry.applyRecord, record_addFileMeta]
          rw [show ((d.raiseMaxLevel level).setMinLogNumberToKeep v).record =
              { d.record with minLogNumberToKeep := some v } from by
            rw [← record_raiseMaxLevel d level]
            rfl]
          rfl
  | _ => rfl

theorem record_foldl_apply (d : VersionEdit) (ens : List ManifestEntry) :
    (ens.foldl ManifestEntry.apply d).record = ens.foldl ManifestEntry.applyRecord d.record := by
  induction ens generalizing d with
  | nil => rfl
  | cons en ens ih => rw [List.foldl_cons, ih, record_apply, List.foldl_cons]

/-! ## Reading the entries of an edit -/

theorem foldl_applyRecord_ite {c : Prop} [Decidable c] (en : ManifestEntry) (r : EditRecord) :
    (if c then [en] else []).foldl ManifestEntry.applyRecord r =
      if c then en.applyRecord r else r := by
  split <;> rfl

theorem foldl_applyRecord_deletedFiles (files : List DeletedFile) (r : EditRecord) :
    (files.map ManifestEntry.deletedFile).foldl ManifestEntry.applyRecord r =
      { r with deletedFiles := files.foldl (fun l a => SortedList.insertList a l) r.deletedFiles } := by
  induction files generalizing r with
  | nil => rfl
  | cons file files ih =>
      rw [List.map_cons, List.foldl_cons, ih]
      rfl

theorem foldl_applyRecord_newFiles (files : List (Int32 × FileMetaData)) (r : EditRecord) :
    (files.map fun p => ManifestEntry.newFile4 none p.1 p.2).foldl ManifestEntry.applyRecord r =
      { r with newFiles := r.newFiles ++ files.map fun p => (p.1, p.2.decoded.record) } := by
  induction files generalizing r with
  | nil => simp
  | cons p files ih =>
      rw [List.map_cons, List.foldl_cons, ih]
      simp [ManifestEntry.applyRecord]

/-- The new files of an edit: the first one brings the minimum log number to
keep. -/
theorem foldl_applyRecord_newFileEntries (minLog : Option UInt64) (files : List (Int32 × FileMetaData))
    (r : EditRecord) :
    (newFileEntries minLog files).foldl ManifestEntry.applyRecord r =
      { r with
        minLogNumberToKeep := if files = [] then r.minLogNumberToKeep else minLog.or r.minLogNumberToKeep
        newFiles := r.newFiles ++ files.map fun p => (p.1, p.2.decoded.record) } := by
  cases files with
  | nil => simp [newFileEntries]
  | cons p files =>
      rw [newFileEntries, List.foldl_cons, foldl_applyRecord_newFiles]
      simp [ManifestEntry.applyRecord]

/-- **Reading the entries of an edit back** gives its record with `read_amp`
quantised, the minimum log number to keep only when a new file carries it, and
no blob lineage. -/
theorem record_foldl_entries (e : VersionEdit) :
    (e.entries.foldl ManifestEntry.apply new).record =
      { e.record.quantized with
        minLogNumberToKeep := if e.newFiles = [] then none else e.record.minLogNumberToKeep
        newBlobs := []
        blobDependence := [] } := by
  have hdeleted : e.deletedFiles.1.foldl (fun l a => SortedList.insertList a l) [] = e.deletedFiles.1 :=
    @SortedList.foldl_insertList _ _ [] _ (by simpa using e.deletedFiles.2)
  rw [record_foldl_apply]
  simp only [entries, List.foldl_append, foldl_applyRecord_ite, foldl_applyRecord_deletedFiles,
    foldl_applyRecord_newFileEntries]
  -- field by field: each projection passes the entries that do not set it
  ext1
  all_goals
    simp only [apply_ite EditRecord.comparator, apply_ite EditRecord.logNumber,
      apply_ite EditRecord.prevLogNumber, apply_ite EditRecord.nextFileNumber,
      apply_ite EditRecord.lastSequence, apply_ite EditRecord.maxColumnFamily,
      apply_ite EditRecord.minLogNumberToKeep, apply_ite EditRecord.deletedFiles,
      apply_ite EditRecord.newFiles, apply_ite EditRecord.columnFamily,
      apply_ite EditRecord.columnFamilyAdd, apply_ite EditRecord.columnFamilyDrop,
      apply_ite EditRecord.atomicGroup, apply_ite EditRecord.newBlobs,
      apply_ite EditRecord.blobDependence, ManifestEntry.applyRecord, ite_self]
  all_goals simp [new, record, EditRecord.quantized]
  case deletedFiles => exact hdeleted
  case newFiles => exact fun _ _ _ => rfl
  case columnFamily => exact fun h => h.symm

/-! ## The round trip of a manifest record -/

/-- **The manifest round trip.**  An edit whose names fit their length prefix
and whose new files fit, with no blob lineage, and with a new file to carry the
minimum log number to keep when it has one, is written by `EncodeTo`, and
`DecodeFrom` gives back an edit with the same record up to the quantisation of
`read_amp`. -/
theorem decodeFrom_encodeTo_record (e : VersionEdit) (he : e.Fits)
    (hlineage : e.newBlobs = [] ∧ e.blobDependence = [])
    (hmin : e.hasMinLogNumberToKeep = true → e.newFiles ≠ []) :
    ∃ bytes d, e.encodeTo [] = some bytes ∧ new.decodeFrom bytes = .ok d ∧
      d.record = e.record.quantized := by
  obtain ⟨bytes, henc, hdec⟩ := decodeFrom_encodeTo e he
  refine ⟨bytes, _, henc, hdec, ?_⟩
  rw [record_foldl_entries]
  -- the members a record may lose are not there to lose
  have hminLog : (if e.newFiles = [] then none else e.record.minLogNumberToKeep) =
      e.record.minLogNumberToKeep := by
    by_cases hnil : e.newFiles = []
    · have hno : e.hasMinLogNumberToKeep = false := by
        cases h : e.hasMinLogNumberToKeep
        · rfl
        · exact absurd hnil (hmin h)
      simp [hnil, record, hno]
    · rw [if_neg hnil]
  have hblobs : e.record.quantized.newBlobs = [] := by simp [EditRecord.quantized, record, hlineage.1]
  have hdeps : e.record.quantized.blobDependence = [] := by
    simp [EditRecord.quantized, record, hlineage.2]
  rw [hminLog, ← hblobs, ← hdeps]
  rfl

/-- A flush's edit: a log number and one new table file at level `0`. -/
def flushEdit : VersionEdit :=
  (new.setLogNumber 7).addFileMeta 0
    { fd := FileDescriptor.make3 9 0 100
      smallest := ⟨[97, 1, 0, 0, 0, 0, 0, 0, 0]⟩
      largest := ⟨[98, 1, 0, 0, 0, 0, 0, 0, 0]⟩ }

theorem flushEdit_fits : flushEdit.Fits where
  comparator_length := by decide
  columnFamilyName_length := by decide
  newFiles_fit p hp := by
    simp only [flushEdit, setLogNumber, addFileMeta, new, List.nil_append, List.mem_singleton] at hp
    subst hp
    exact
      { smallest_valid := by decide
        largest_valid := by decide
        smallest_length := by decide
        largest_length := by decide
        prop_fits := ⟨by decide, by decide⟩
        prop_length := lt_of_le_of_lt (length_encodePropertyCache_le _) (by simp) }

theorem flushEdit_round_trip :
    flushEdit.Fits ∧ (flushEdit.newBlobs = [] ∧ flushEdit.blobDependence = []) ∧
      (flushEdit.hasMinLogNumberToKeep = true → flushEdit.newFiles ≠ []) ∧
      ∃ bytes d, flushEdit.encodeTo [] = some bytes ∧ new.decodeFrom bytes = .ok d ∧
        d.record = flushEdit.record.quantized :=
  ⟨flushEdit_fits, ⟨rfl, rfl⟩, fun h => absurd h (by decide),
    decodeFrom_encodeTo_record flushEdit flushEdit_fits ⟨rfl, rfl⟩ fun h => absurd h (by decide)⟩

/-- A blob garbage collection's edit, as the end of a compaction job makes it:
the output blob file `9` added at level `-1`, recorded as a new blob, with the
lineage edge from the input blob file `7`. -/
def gcEdit : VersionEdit :=
  let key : InternalKey := ⟨[97, 1, 0, 0, 0, 0, 0, 0, 0]⟩
  let input : FileMetaData := { fd := FileDescriptor.make3 7 0 100, smallest := key, largest := key }
  let output : FileMetaData := { fd := FileDescriptor.make3 9 0 60, smallest := key, largest := key }
  ((new.addFileMeta (-1) output).addNewBlob output).addBlobDependence input output

theorem gcEdit_fits : gcEdit.Fits where
  comparator_length := by decide
  columnFamilyName_length := by decide
  newFiles_fit p hp := by
    simp only [gcEdit, addFileMeta, addNewBlob, addBlobDependence, new, List.nil_append,
      List.mem_singleton] at hp
    subst hp
    exact
      { smallest_valid := by decide
        largest_valid := by decide
        smallest_length := by decide
        largest_length := by decide
        prop_fits := ⟨by decide, by decide⟩
        prop_length := lt_of_le_of_lt (length_encodePropertyCache_le _) (by simp) }

/-- **The blob lineage of a garbage collection does not survive the manifest.**
The edit is written, and reads back without its new blob and without its
lineage edge, which `VersionBuilder::Apply(edit, version_num)` would have fed
into the file map. -/
theorem gcEdit_loses_blob_lineage :
    ∃ bytes d, gcEdit.encodeTo [] = some bytes ∧ new.decodeFrom bytes = .ok d ∧
      d.record.newBlobs = [] ∧ d.record.blobDependence = [] ∧
      gcEdit.record.newBlobs.length = 1 ∧ gcEdit.record.blobDependence.length = 1 := by
  obtain ⟨bytes, henc, hdec⟩ := decodeFrom_encodeTo gcEdit gcEdit_fits
  refine ⟨bytes, _, henc, hdec, ?_, ?_, rfl, rfl⟩
  · rw [record_foldl_entries]
  · rw [record_foldl_entries]

end VersionEdit

end HapDB
