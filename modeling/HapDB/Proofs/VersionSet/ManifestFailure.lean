import HapDB.Db.VersionSet
import HapDB.Proofs.FileMap.Lineage

/-!
# A failed `LogAndApply` and the file map

`ProcessManifestWrites` builds the new version before it writes the MANIFEST,
and building it (`SaveTo`) adds the blob lineage of the batch to the file map
that every version of the column family shares.  The failure branch deletes
the new version, but nothing takes the lineage back out of the map.

* `fileMap_ProcessManifestWrites`: the file map after the call is the one
  `DoApplyAndSaveTo` left, whatever the MANIFEST write returned;
* `addedBy_ProcessManifestWrites`: it is the old map with nodes and edges
  added under the number of the version the call built, and that counter moves
  on in both branches (`currentVersionNumber_ProcessManifestWrites`), so the
  nodes of a version that was never installed are visible to every version
  installed after it (`accessible_of_added`).

The run at the end is such a case: a flush, then a garbage collection whose
MANIFEST write fails, then another flush; in the last version the query for a
key of the flushed blob resolves to the output of the failed collection.
-/

namespace HapDB

namespace VersionSet

open FileMap

@[simp] theorem fileMap_install (vs : VersionSet) (p : Prepared) (log : List Bytes) :
    (install vs p log).fileMap = p.fileMap := rfl

@[simp] theorem fileMap_abandon (vs : VersionSet) (p : Prepared) :
    (abandon vs p).fileMap = p.fileMap := rfl

@[simp] theorem currentVersionNumber_install (vs : VersionSet) (p : Prepared) (log : List Bytes) :
    (install vs p log).currentVersionNumber = p.version.versionNumber + 1 := rfl

@[simp] theorem currentVersionNumber_abandon (vs : VersionSet) (p : Prepared) :
    (abandon vs p).currentVersionNumber = p.version.versionNumber + 1 := rfl

@[simp] theorem versionNumber_prepare (vs : VersionSet) (edits : List VersionEdit) (roll : Bool) :
    (prepare vs edits roll).version.versionNumber = vs.currentVersionNumber := rfl

variable (vs : VersionSet) (edits : List VersionEdit) (roll : Bool) (io : ManifestIO)
  (debugString : VersionEdit → String)

/-- The file map after `ProcessManifestWrites` does not depend on how the
MANIFEST write went. -/
theorem fileMap_ProcessManifestWrites :
    (ProcessManifestWrites vs edits roll io debugString).2.fileMap = (prepare vs edits roll).fileMap := by
  dsimp only [ProcessManifestWrites]
  split <;> simp

/-- Success or not, the call uses up its version number. -/
theorem currentVersionNumber_ProcessManifestWrites :
    (ProcessManifestWrites vs edits roll io debugString).2.currentVersionNumber =
      vs.currentVersionNumber + 1 := by
  dsimp only [ProcessManifestWrites]
  split <;> simp

theorem addedBy_prepare :
    AddedBy vs.currentVersionNumber vs.fileMap (prepare vs edits roll).fileMap :=
  VersionBuilder.addedBy_DoApplyAndSaveTo _ _ _ _ _ _ _

/-- After the call, the file map is the old one with nodes and edges of the
version the call built, whether it was installed or not. -/
theorem addedBy_ProcessManifestWrites :
    AddedBy vs.currentVersionNumber vs.fileMap
      (ProcessManifestWrites vs edits roll io debugString).2.fileMap := by
  rw [fileMap_ProcessManifestWrites]
  exact addedBy_prepare vs edits roll

/-- A node the call added is accessible in every version numbered at least
the one the call built. -/
theorem accessible_of_added {fn : UInt64} {n : MapNode}
    (hafter : (ProcessManifestWrites vs edits roll io debugString).2.fileMap.nodes fn = some n)
    (hbefore : vs.fileMap.nodes fn = none) {w : UInt64} (hw : vs.currentVersionNumber ≤ w) :
    n.Accessible w := by
  have hversion := (addedBy_ProcessManifestWrites vs edits roll io debugString).fresh fn n
    hafter hbefore
  simp [MapNode.Accessible, hversion, hw]

end VersionSet

/-! ## A garbage collection whose MANIFEST write fails -/

namespace LineageRun

open VersionSet

/-- An internal key of user key `[u]` with sequence `seq`. -/
def ikey (u seq : UInt8) : InternalKey := ⟨[u, 1, seq, 0, 0, 0, 0, 0, 0]⟩

/-- A level-0 table `10.sst` whose values are in blob `11`. -/
def fileK : FileMetaData :=
  { fd := FileDescriptor.make 10 0 100 1 2, smallest := ikey 97 1, largest := ikey 98 2
    prop := { dependence := [⟨11, 2⟩] } }

/-- The blob `11.sst` written by the same flush. -/
def fileA : FileMetaData :=
  { fd := FileDescriptor.make 11 0 100 1 2, smallest := ikey 97 1, largest := ikey 98 2 }

/-- `12.sst`, the output of a garbage collection of `11`. -/
def fileB : FileMetaData :=
  { fd := FileDescriptor.make 12 0 100 1 2, smallest := ikey 97 1, largest := ikey 98 2
    prop := { inheritance := [11] } }

/-- The flush: the table at level 0, its blob at level `-1`. -/
def flushEdit : VersionEdit :=
  ((VersionEdit.new.addFileMeta 0 fileK).addFileMeta (-1) fileA).addNewBlob fileA

/-- The garbage collection of `11` into `12`, as `InstallCompactionResults`
records it. -/
def gcEdit : VersionEdit :=
  ((VersionEdit.new.addFileMeta (-1) fileB).addNewBlob fileB).addBlobDependence fileA fileB

/-- A second flush, of a table `13.sst` and its blob `14.sst`. -/
def laterFlushEdit : VersionEdit :=
  let blob : FileMetaData :=
    { fd := FileDescriptor.make 14 0 100 3 3, smallest := ikey 99 3, largest := ikey 99 3 }
  let table : FileMetaData :=
    { fd := FileDescriptor.make 13 0 100 3 3, smallest := ikey 99 3, largest := ikey 99 3
      prop := { dependence := [⟨14, 1⟩] } }
  ((VersionEdit.new.addFileMeta 0 table).addFileMeta (-1) blob).addNewBlob blob

/-- Every file operation succeeds. -/
def allOk : ManifestIO := ⟨Status.OK, Status.OK, fun _ => Status.OK, Status.OK, Status.OK⟩

/-- Every `AddRecord` fails. -/
def addRecordFails : ManifestIO :=
  { allOk with addRecord := fun _ => Status.IOError "No space left on device" }

/-- A freshly opened column family with two levels, its MANIFEST open. -/
def opened : VersionSet :=
  { heap := Heap.empty, fileMap := FileMap.empty, current := ⟨1, VersionStorageInfo.empty 2, 1⟩,
    currentVersionNumber := 2, obsoleteFiles := [], descriptorLog := some [],
    manifestFileNumber := 1, nextFileNumber := 20, lastSequence := 2, prevLogNumber := 0,
    logNumber := 0, minLogNumberToKeep2PC := 0, ucmp := bytewiseCompare }

/-- The column family after the flush. -/
def afterFlush : VersionSet := (ProcessManifestWrites opened [flushEdit] false allOk fun _ => "").2

/-- The garbage collection, failing at the MANIFEST write. -/
def failedGc : Status × VersionSet :=
  ProcessManifestWrites afterFlush [gcEdit] false addRecordFails fun _ => ""

/-- The column family after the second flush, installed after the failure. -/
def afterLaterFlush : VersionSet :=
  (ProcessManifestWrites failedGc.2 [laterFlushEdit] false allOk fun _ => "").2

end LineageRun

namespace VersionSet

open LineageRun

/-- The failed collection returns an error but leaves its blob `12` and the
edge `11 → 12` in the file map, and the next installed version, which holds no
file `12`, resolves the values of blob `11` to `12`, where the version before
the failure resolved them to `11`. -/
theorem failed_gc_lineage_resolves_later :
    failedGc.1.ok = false ∧ afterFlush.fileMap.nodes 12 = none ∧
      (failedGc.2.fileMap.nodes 12).map (·.versionNum) = some afterFlush.currentVersionNumber ∧
      (failedGc.2.fileMap.nodes 11).map (·.children) = some [12] ∧
      afterFlush.fileMap.QueryFileNumber 10 11 [97] bytewiseCompare
        afterFlush.current.versionNumber = some (.ok 11) ∧
      afterLaterFlush.fileMap.QueryFileNumber 10 11 [97] bytewiseCompare
        afterLaterFlush.current.versionNumber = some (.ok 12) ∧
      afterLaterFlush.current.storage.dependenceMap.contains 12 = false := by
  decide +kernel

end VersionSet

end HapDB
