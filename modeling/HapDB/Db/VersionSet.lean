import HapDB.Db.VersionBuilder

/-!
# `db/version_set.cc`: installing edits (`ProcessManifestWrites`)

`LogAndApply` hands a batch of edits to `ProcessManifestWrites`, which

1. creates the new `Version`, numbered by `current_version_number_++`, whose
   storage shares the column family's file map;
2. builds its files from the current version and the edits
   (`DoApplyAndSaveTo`), which also adds the blob lineage of the edits to the
   shared file map;
3. writes the edits to the MANIFEST: a new MANIFEST first when one is due,
   then one record per edit (`EncodeTo`, `AddRecord`), then a sync, then the
   `CURRENT` file when the MANIFEST is new;
4. installs the new version if all of that succeeded, and deletes it if not.

Only the batch of one writer of one column family is modelled, with edits that
do not add or drop column families; the outcome of each file operation of
step 3 is an input (`ManifestIO`).  The MANIFEST is the list of records
written to it since it was created (the snapshot a new MANIFEST starts with is
not modelled).  The table handlers, the statistics and the apply callbacks are
left out.

Versions are reference counted.  The builder holds a reference to the version
it started from while it runs, the column family holds one to its current
version, and a version whose last reference goes is deleted: its builder
context gives up its references, and so does each of its files, a file losing
its last reference going to the obsolete files (whose metadata is deleted when
the files are purged).  Versions that readers still hold are not modelled, so
the version a successful batch replaces is deleted at the end of the call.
-/

namespace HapDB

/-- `Version`: its number, its storage, and its references. -/
structure Version where
  versionNumber : UInt64
  storage : VersionStorageInfo
  refs : ℕ

/-- The outcome of each file operation of the MANIFEST write: creating a new
MANIFEST, writing the snapshot into it, the `AddRecord` of the `i`-th edit, the
sync, and installing the `CURRENT` file. -/
structure ManifestIO where
  newWritableFile : Status
  writeSnapshot : Status
  addRecord : ℕ → Status
  syncManifest : Status
  setCurrentFile : Status

/-- The version set with one column family, as far as `ProcessManifestWrites`
reads and writes it. -/
structure VersionSet where
  heap : FileMetaHeap
  fileMap : FileMap
  current : Version
  currentVersionNumber : UInt64
  obsoleteFiles : List FileMetaPtr
  descriptorLog : Option (List Bytes)
  manifestFileNumber : UInt64
  nextFileNumber : UInt64
  lastSequence : UInt64
  prevLogNumber : UInt64
  logNumber : UInt64
  minLogNumberToKeep2PC : UInt64
  ucmp : Comparator

namespace VersionSet

/-- `Version::~Version`: the storage's builder context gives up its
references, then every file of every level one reference; a file that loses
its last one joins the obsolete files. -/
def deleteVersion (v : Version) (heap : FileMetaHeap) (obsolete : List FileMetaPtr) :
    FileMetaHeap × List FileMetaPtr :=
  let heap := match v.storage.context with
    | some ctx => ctx.destroy heap
    | none => heap
  let levels := (List.range (v.storage.numLevels + 1)).map fun i => (i : ℤ) - 1
  levels.foldl (fun st level =>
    (v.storage.files level).foldl (fun st f =>
      let lastRef := (st.1.get f).refs == 1
      let heap := st.1.update f.addr fun o => { o with refs := o.refs - 1 }
      (heap, if lastRef then st.2 ++ [f] else st.2)) st) (heap, obsolete)

/-- `Version::Unref`: the version is deleted with its last reference. -/
def unrefVersion (v : Version) (heap : FileMetaHeap) (obsolete : List FileMetaPtr) :
    FileMetaHeap × List FileMetaPtr :=
  if v.refs ≤ 1 then deleteVersion v heap obsolete else (heap, obsolete)

/-- `LogAndApplyHelper`: the counters of the version set go into the edit. -/
def LogAndApplyHelper (vs : VersionSet) (e : VersionEdit) : VersionEdit :=
  let e := if !e.hasPrevLogNumber then e.setPrevLogNumber vs.prevLogNumber else e
  (e.setNextFile vs.nextFileNumber).setLastSequence vs.lastSequence

/-- The records of the batch, one `EncodeTo` and `AddRecord` per edit; the
first failure ends the loop. -/
def writeRecords (io : ManifestIO) (debugString : VersionEdit → String) :
    ℕ → List VersionEdit → List Bytes → Status × List Bytes
  | _, [], log => (Status.OK, log)
  | i, e :: es, log =>
      match e.encodeTo [] with
      | none => (Status.Corruption ("Unable to encode VersionEdit:" ++ debugString e), log)
      | some record =>
          let s := io.addRecord i
          if s.ok then writeRecords io debugString (i + 1) es (log ++ [record]) else (s, log)

/-- The largest log number the edits of the batch set, or `0`. -/
def maxLogNumberInBatch (edits : List VersionEdit) : UInt64 :=
  edits.foldl (fun m e => if e.hasLogNumber && e.columnFamily == 0 then max m e.logNumber else m) 0

/-- The largest minimum log number to keep the edits of the batch set, or `0`. -/
def lastMinLogNumberToKeep (edits : List VersionEdit) : UInt64 :=
  edits.foldl (fun m e => if e.hasMinLogNumberToKeep then max m e.minLogNumberToKeep else m) 0

/-- What `ProcessManifestWrites` has built when it starts writing the MANIFEST:
the batch as it will be written, the MANIFEST to write to, the base version
with the builder's reference, the new version, and the objects and file map as
`DoApplyAndSaveTo` left them. -/
structure Prepared where
  edits : List VersionEdit
  newDescriptorLog : Bool
  pending : UInt64
  nextFileNumber : UInt64
  base : Version
  version : Version
  heap : FileMetaHeap
  fileMap : FileMap

/-- The part of `ProcessManifestWrites` before the MANIFEST write: the new
version numbered `current_version_number_`, the counters put into the edits,
the decision to start a new MANIFEST (which takes a file number), and the new
version's files built from the current version.  `rollManifest` is the test
that the MANIFEST has grown past its size or edit-count limit. -/
def prepare (vs : VersionSet) (edits : List VersionEdit) (rollManifest : Bool) : Prepared :=
  -- `BaseReferencedVersionBuilder` holds the current version while it runs
  let base := { vs.current with refs := vs.current.refs + 1 }
  let edits := edits.map (LogAndApplyHelper vs)
  let newDescriptorLog := vs.descriptorLog.isNone || rollManifest
  let (pending, nextFileNumber, edits) :=
    if newDescriptorLog then
      (vs.nextFileNumber, vs.nextFileNumber + 1,
       edits.dropLast ++ (edits.getLast?.map fun e => e.setNextFile (vs.nextFileNumber + 1)).toList)
    else (vs.manifestFileNumber, vs.nextFileNumber, edits)
  let newStorage := VersionStorageInfo.empty base.storage.numLevels
  let (baseStorage, storage, heap, fileMap) :=
    VersionBuilder.DoApplyAndSaveTo vs.heap base.storage edits vs.ucmp newStorage
      vs.currentVersionNumber vs.fileMap
  ⟨edits, newDescriptorLog, pending, nextFileNumber, { base with storage := baseStorage },
   ⟨vs.currentVersionNumber, storage, 0⟩, heap, fileMap⟩

/-- The MANIFEST write: a new MANIFEST and its snapshot when one is due, the
records, the sync, and the `CURRENT` file for a new MANIFEST; the status and
the records of the MANIFEST written to. -/
def writeManifest (vs : VersionSet) (p : Prepared) (io : ManifestIO)
    (debugString : VersionEdit → String) : Status × List Bytes :=
  let (s, log) :=
    if p.newDescriptorLog then
      let s := io.newWritableFile
      (if s.ok then io.writeSnapshot else s, [])
    else (Status.OK, vs.descriptorLog.getD [])
  let (s, log) := if s.ok then writeRecords io debugString 0 p.edits log else (s, log)
  let s := if s.ok then io.syncManifest else s
  (if s.ok && p.newDescriptorLog then io.setCurrentFile else s, log)

/-- The success branch: the new version becomes current (`AppendVersion`), the
old one loses the column family's reference and then the builder's, and the
counters of the batch are taken over. -/
def install (vs : VersionSet) (p : Prepared) (log : List Bytes) : VersionSet :=
  let maxLog := maxLogNumberInBatch p.edits
  let minLog := lastMinLogNumberToKeep p.edits
  let (heap, obsolete) := unrefVersion { p.base with refs := p.base.refs - 1 } p.heap vs.obsoleteFiles
  { vs with
    heap := heap, fileMap := p.fileMap, obsoleteFiles := obsolete
    current := { p.version with refs := 1 }
    currentVersionNumber := p.version.versionNumber + 1
    nextFileNumber := p.nextFileNumber
    descriptorLog := some log
    manifestFileNumber := p.pending
    logNumber := if maxLog != 0 then maxLog else vs.logNumber
    minLogNumberToKeep2PC :=
      if minLog != 0 then max vs.minLogNumberToKeep2PC minLog else vs.minLogNumberToKeep2PC
    prevLogNumber := (p.edits.head?.map (·.prevLogNumber)).getD vs.prevLogNumber }

/-- The failure branch: the new version is deleted, then the builder lets go
of the base, which stays current; a new MANIFEST is dropped. -/
def abandon (vs : VersionSet) (p : Prepared) : VersionSet :=
  let (heap, obsolete) := deleteVersion p.version p.heap vs.obsoleteFiles
  let (heap, obsolete) := unrefVersion p.base heap obsolete
  { vs with
    heap := heap, fileMap := p.fileMap, obsoleteFiles := obsolete
    current := { p.base with refs := p.base.refs - 1 }
    currentVersionNumber := p.version.versionNumber + 1
    nextFileNumber := p.nextFileNumber
    descriptorLog := if p.newDescriptorLog then none else vs.descriptorLog }

/-- `VersionSet::ProcessManifestWrites` for one writer whose edits neither add
nor drop a column family. -/
def ProcessManifestWrites (vs : VersionSet) (edits : List VersionEdit) (rollManifest : Bool)
    (io : ManifestIO) (debugString : VersionEdit → String) : Status × VersionSet :=
  let p := prepare vs edits rollManifest
  let r := writeManifest vs p io debugString
  (r.1, if r.1.ok then install vs p r.2 else abandon vs p)

end VersionSet

end HapDB
