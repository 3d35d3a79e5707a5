import HapDB.Proofs.VersionSet.ManifestFailure
import HapDB.Proofs.FileMap.Query

/-!
# How many children a node of the file map receives

Each node reserves room for `kReservedChildren` children when it is created,
so that `AddDerivedNode`, which appends to the vector while queries in other
threads may be reading it, never reallocates it.  Nothing else bounds the
number of children.

* `nodes_AddDerivedNode_parent`: an edge appends exactly the child to its
  parent;
* `nodes_updateFileMap_of_some` and `nodes_SaveTo_of_some`: the file-map part
  of `SaveTo` appends to a node one child per edge of the builder that starts
  at it.

The installation of a garbage collection (`InstallCompactionResults`) adds an
edge from every input to every output, so a node gets as many children as the
collection of its file wrote output files, and that is the input's size over
the target blob size.  The run at the end splits the collection of blob `11`
into 33 files.
-/

namespace HapDB

namespace FileMap

/-- An edge appends exactly the child to its parent's children. -/
theorem nodes_AddDerivedNode_parent (fm : FileMap) (p : UInt64) (c : FileMetaPtr)
    (file : FileMetaData) (v : UInt64) :
    (fm.AddDerivedNode p c file v).2.nodes p =
      (fm.nodes p).map fun n => { n with children := n.children ++ [file.fd.getNumber] } := by
  unfold AddDerivedNode
  split
  · rename_i hnone
    rw [Option.isNone_iff_eq_none.mp hnone]
    rfl
  · rename_i hparent
    have hp : (fm.nodes p).isSome := Option.isSome_iff_ne_none.mpr (by simpa using hparent)
    simp only [appendChild]
    rw [if_pos trivial, withNode_nodes_of_isSome hp]

/-- A node that is there stays as it is through `AddNode`. -/
theorem nodes_AddNode_of_some {fm : FileMap} {p : UInt64} {pn : MapNode}
    (hp : fm.nodes p = some pn) (fmeta : FileMetaPtr) (file : FileMetaData) (v : UInt64) :
    (fm.AddNode fmeta file v).2.nodes p = some pn := by
  dsimp only [AddNode]
  split
  · exact hp
  · rename_i hfree
    have hne : p ≠ file.fd.getNumber := by
      rintro rfl
      simp [hp] at hfree
    simp [insertNode, Function.update_of_ne hne, hp]

end FileMap

namespace VersionBuilder

open FileMap

/-- The file-map part of `SaveTo` appends to a node that is already there one
child per edge that starts at it, in the order of the edges. -/
theorem nodes_updateFileMap_of_some (heap : FileMetaHeap) (newBlobs : List FileMetaPtr)
    (blobDependence : List (UInt64 × FileMetaPtr)) (v : UInt64) {fm : FileMap} {p : UInt64}
    {pn : MapNode} (hp : fm.nodes p = some pn) :
    (updateFileMap heap newBlobs blobDependence v fm).nodes p =
      some { pn with children := pn.children ++
        (blobDependence.filter (·.1 == p)).map fun e => (heap.get e.2).data.fd.getNumber } := by
  unfold updateFileMap
  -- the loop over the new blobs leaves the node, the loop over the edges appends
  have hnodes : ∀ (blobs : List FileMetaPtr) (fm : FileMap), fm.nodes p = some pn →
      (blobs.foldl (fun fm f => (fm.AddNode f (heap.get f).data v).2) fm).nodes p = some pn := by
    intro blobs
    induction blobs with
    | nil => exact fun _ h => h
    | cons f blobs ih => exact fun fm h => ih _ (nodes_AddNode_of_some h f _ v)
  have hedges : ∀ (deps : List (UInt64 × FileMetaPtr)) (fm : FileMap) (pn : MapNode),
      fm.nodes p = some pn →
      (deps.foldl (fun fm e => (fm.AddDerivedNode e.1 e.2 (heap.get e.2).data v).2) fm).nodes p =
        some { pn with children := pn.children ++
          (deps.filter (·.1 == p)).map fun e => (heap.get e.2).data.fd.getNumber } := by
    intro deps
    induction deps with
    | nil => intro fm pn h; simpa using h
    | cons e deps ih =>
        intro fm pn h
        obtain ⟨q, ptr⟩ := e
        rw [List.foldl_cons]
        by_cases he : q = p
        · subst he
          have hstep := nodes_AddDerivedNode_parent fm q ptr (heap.get ptr).data v
          rw [h, Option.map_some] at hstep
          rw [ih _ _ hstep]
          simp
        · have hstep : (fm.AddDerivedNode q ptr (heap.get ptr).data v).2.nodes p = some pn := by
            unfold AddDerivedNode
            split
            · exact h
            · simp only [appendChild]
              rw [if_neg (Ne.symm he), withNode_nodes_of_isSome (by simp [h])]
              exact h
          rw [ih _ _ hstep]
          simp [he]
  exact hedges _ _ pn (hnodes _ _ hp)

theorem nodes_SaveTo_of_some (b : Builder) (numLevels : ℕ) (ucmp : Comparator)
    (vstorage : VersionStorageInfo) (v : UInt64) {fm : FileMap} {p : UInt64} {pn : MapNode}
    (hp : fm.nodes p = some pn) :
    ∃ heap : FileMetaHeap, (SaveTo b numLevels ucmp vstorage v fm).2.2.nodes p =
      let edges := (CalculateDependence b numLevels true false).blobDependence.filter (·.1 == p)
      some { pn with children := pn.children ++ edges.map fun e => (heap.get e.2).data.fd.getNumber } :=
  ⟨_, nodes_updateFileMap_of_some _ _ _ v hp⟩

end VersionBuilder

/-! ## A collection split into 33 files -/

namespace LineageRun

open VersionSet

/-- The `i`-th output of the collection of `11`: one user key each. -/
def splitOutput (i : ℕ) : FileMetaData :=
  { fd := FileDescriptor.make (20 + i.toUInt64) 0 100 1 1, smallest := ikey (100 + i.toUInt8) 1
    largest := ikey (100 + i.toUInt8) 1, prop := { inheritance := [11] } }

/-- The edit `InstallCompactionResults` records for a collection of `11` into
`k` files: for each output its `AddFile(-1)`, `AddNewBlob` and the edge from
the input. -/
def splitGcEdit (k : ℕ) : VersionEdit :=
  (List.range k).foldl (fun e i =>
    ((e.addFileMeta (-1) (splitOutput i)).addNewBlob (splitOutput i)).addBlobDependence fileA
      (splitOutput i)) VersionEdit.new

/-- The collection installed after the flush. -/
def splitGc (k : ℕ) : Status × VersionSet :=
  ProcessManifestWrites afterFlush [splitGcEdit k] false allOk fun _ => ""

end LineageRun

namespace FileMap

open LineageRun

set_option maxRecDepth 100000 in
/-- Installing a collection of blob `11` that wrote 33 files leaves the node of
`11` with 33 children, one more than the room its constructor reserved. -/
theorem split_gc_overflows_reserved_children :
    (splitGc 33).1.ok = true ∧ afterFlush.fileMap.nodes 11 ≠ none ∧
      ((afterFlush.fileMap.nodes 11).map (·.children.length)) = some 0 ∧
      ((splitGc 33).2.fileMap.nodes 11).map (·.children.length) = some 33 ∧
      MapNode.kReservedChildren < 33 := by
  decide +kernel

end FileMap

end HapDB
