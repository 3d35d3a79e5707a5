import HapDB.Proofs.VersionSet.ManifestFailure

/-!
# Positions in the dependence computation

`SetDependence` resolves a file number through its inheritance-counter entry to
the dependence-map items recorded there (`depend_item_pos_vec`), and skips one
of them: when there are several, the position equal to the *counter* entry's
own position, meant to be the item of the inherited file itself
(`mem_dependItemPositions`).  Two things make this test unsound:

* the recorded positions are never pruned, and a slot freed by an erased item
  is the first one the next insertion takes (`SlotMap.emplace_erase`), so a
  recorded position can name an item of another file;
* a position of the counter and a position of the dependence map are indexes
  into two different arrays, equal only by coincidence.

The run below goes through both.  A flush writes table `10` with its values in
blob `11`; one collection rewrites `11` into `12`, which erases the item of
`11` and frees its slot; a second collection rewrites `12` into `13`, whose item
takes that slot.  The counter entry of `11` now records the slot of `13`, and
sits itself at the same position, so `SetDependence` skips `13`, which is then
erased from the version, while the file map sends the values of `11` to `13`.
-/

namespace HapDB

namespace VersionBuilder

/-- The items `SetDependence` reaches from a counter entry: every recorded
position, except the entry's own counter position when several are recorded. -/
theorem mem_dependItemPositions {findPos pos : ℕ} {it : InheritanceItem} :
    pos ∈ dependItemPositions findPos it ↔
      pos ∈ it.dependItemPosVec ∧ (it.dependItemPosVec.length ≤ 1 ∨ pos ≠ findPos) := by
  simp only [dependItemPositions, List.mem_filter, Bool.not_eq_true', Bool.and_eq_false_iff,
    decide_eq_false_iff_not, not_lt, beq_eq_false_iff_ne, ne_eq]

end VersionBuilder

namespace LineageRun

open VersionSet

/-- `13.sst`, the output of a garbage collection of `12`: it inherits `12`
and, through it, `11`. -/
def fileC : FileMetaData :=
  { fd := FileDescriptor.make 13 0 100 1 2, smallest := ikey 97 1, largest := ikey 98 2
    prop := { inheritance := [11, 12] } }

/-- The garbage collection of `12` into `13`. -/
def gcEdit2 : VersionEdit :=
  ((VersionEdit.new.addFileMeta (-1) fileC).addNewBlob fileC).addBlobDependence fileB fileC

/-- The column family after the first collection. -/
def afterGc : VersionSet := (ProcessManifestWrites afterFlush [gcEdit] false allOk fun _ => "").2

/-- The column family after the second collection. -/
def afterGc2 : VersionSet := (ProcessManifestWrites afterGc [gcEdit2] false allOk fun _ => "").2

end LineageRun

namespace VersionBuilder

open LineageRun

/-- After the second collection, the file map resolves the values of blob `11`
(those of table `10`, still on level 0) to `13`, which inherits `11`; yet `13`
is neither in the version nor in its builder context.  The counter entry of
`11` sits at position 1 and records positions `[1, 2, 1]`: slot 1 held `11`
and now holds `13`. -/
theorem gc_output_dropped_from_dependence :
    afterGc2.current.storage.LevelFiles 0 = [⟨1⟩] ∧ (afterGc2.heap.get ⟨1⟩).data.fd.getNumber = 10 ∧
      (afterGc2.heap.get ⟨1⟩).data.prop.dependence.map (·.fileNumber) = [11] ∧
      11 ∈ fileC.prop.inheritance ∧
      afterGc2.fileMap.QueryFileNumber 10 11 [97] bytewiseCompare
        afterGc2.current.versionNumber = some (.ok 13) ∧
      afterGc2.current.storage.dependenceMap.contains 13 = false ∧
      (afterGc2.current.storage.context.map fun c => c.dependenceMap.contains 13) = some false ∧
      (afterGc2.current.storage.context.map fun c =>
        (c.inheritanceCounter.find 11, (c.inheritanceCounter.get? 11).map (·.dependItemPosVec))) =
        some (some 1, some [1, 2, 1]) := by
  decide +kernel

/-- In the same version, `QueryFileMeta` for a key of table `10` returns the
metadata object of `13`, which the version does not hold and which was deleted
when the builder erased its item. -/
theorem query_returns_deleted_file_meta :
    afterGc2.fileMap.QueryFileMeta 10 11 [97] bytewiseCompare afterGc2.current.versionNumber =
        some (.ok ⟨4⟩) ∧
      (afterGc2.heap.get ⟨4⟩).data.fd.getNumber = 13 ∧ afterGc2.heap.live 4 = false ∧
      afterGc2.current.storage.dependenceMap.get? 13 = none ∧
      ⟨4⟩ ∉ afterGc2.current.storage.LevelFiles (-1) := by
  decide +kernel

end VersionBuilder

end HapDB
