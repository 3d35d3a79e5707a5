import HapDB.Db.FileMap
import HapDB.Lib.Heap
import HapDB.Lib.SlotMap

/-!
# `VersionStorageInfo` and the objects it points to

A version's storage holds, level by level, pointers to `FileMetaData` objects
(level `-1` holds the blob files), a dependence map from file numbers to the
files that now stand for them, and the context the version builder leaves in it
for the next builder.  The `FileMetaData` objects live on the heap and are
shared between versions and builder contexts; each holder counts itself in the
object's `refs`, and whoever drops the last reference deletes the object.

Here the heap is `Lib/Heap.lean`'s, the hash maps with positions are
`SlotMap`s, and the builder context is `VersionBuilderContextImpl` without the
table cache and the maintainer-job budget.  Of a storage only what the version
builder and the blob lineage read is kept: the per-level statistics, scores and
read amplification are left out.
-/

namespace HapDB

/-- The `gc_status` values of `FileMetaData`. -/
inductive GcStatus where
  | kGarbageCollectionForbidden
  | kGarbageCollectionCandidate
  | kGarbageCollectionPermitted
  deriving DecidableEq, Repr

/-- A `FileMetaData` object on the heap: the fields the manifest carries, and
those the version builder and the compaction picker change in place. -/
structure FileMetaObject where
  data : FileMetaData
  numAntiquation : UInt64 := 0
  refs : ℤ := 0
  beingCompacted : Bool := false
  gcStatus : GcStatus := .kGarbageCollectionForbidden
  deriving Repr

/-- `FileMetaData::kMarkedFromUser`. -/
def kMarkedFromUser : UInt8 := 0x80

/-- `SstPurpose::kMapSst`, the `purpose` of a map SST. -/
def kMapSst : UInt8 := 1

/-- `TablePropertyCache::is_map_sst`. -/
def TablePropertyCache.isMapSst (p : TablePropertyCache) : Bool := p.purpose == kMapSst

/-- The `FileMetaData` objects of the column family. -/
abbrev FileMetaHeap := Heap FileMetaObject

namespace FileMetaHeap

/-- `*f`, for a pointer the builder holds: the object, or the default one at
an address never allocated (which the builder does not reach). -/
def get (heap : FileMetaHeap) (f : FileMetaPtr) : FileMetaObject :=
  (heap.read f.addr).getD { data := {} }

/-- `new FileMetaData(data)`: the object as a job creates it, with its runtime
fields at their initial values. -/
def new (heap : FileMetaHeap) (data : FileMetaData) : FileMetaPtr × FileMetaHeap :=
  let r := heap.alloc { data := data }
  (⟨r.1⟩, r.2)

/-- `f->Ref()`. -/
def ref (heap : FileMetaHeap) (f : FileMetaPtr) : FileMetaHeap :=
  heap.update f.addr fun o => { o with refs := o.refs + 1 }

/-- `VersionBuilderContextImpl::UnrefFile(f)`: drop a reference and delete the
object when it was the last one. -/
def unrefFile (heap : FileMetaHeap) (f : FileMetaPtr) : FileMetaHeap :=
  let lastRef := (heap.get f).refs == 1
  let heap := heap.update f.addr fun o => { o with refs := o.refs - 1 }
  if lastRef then heap.free f.addr else heap

end FileMetaHeap

/-! ## The builder context -/

/-- `VersionBuilderContextImpl::DependenceItem`. -/
structure DependenceItem where
  fileNumber : UInt64
  dependenceVersion : ℕ
  gcForbiddenVersion : ℕ
  isEstimation : Bool
  level : ℤ
  f : FileMetaPtr
  entryDepended : Float

/-- `VersionBuilderContextImpl::InheritanceItem`: whether a live file depends
on the file, how many files inherit it, the position of the item that stands
for it, and the positions of every item that ever inherited it. -/
structure InheritanceItem where
  depended : Bool
  count : ℕ
  itemPos : ℕ
  dependItemPosVec : List ℕ

/-- `VersionBuilderContextImpl`. -/
structure BuilderContext where
  levels : ℕ → SlotMap UInt64 FileMetaPtr
  dependenceVersion : ℕ
  newDeletedFiles : ℕ
  dependenceMap : SlotMap UInt64 DependenceItem
  inheritanceCounter : SlotMap UInt64 InheritanceItem

namespace BuilderContext

/-- A context with no files. -/
def empty : BuilderContext :=
  ⟨fun _ => SlotMap.empty, 0, 0, SlotMap.empty, SlotMap.empty⟩

/-- `~VersionBuilderContextImpl`: every item's file loses the context's reference. -/
def destroy (ctx : BuilderContext) (heap : FileMetaHeap) : FileMetaHeap :=
  ctx.dependenceMap.entries.foldl (fun heap e => heap.unrefFile e.2.2.f) heap

end BuilderContext

/-! ## The storage of a version -/

/-- `VersionStorageInfo`, as far as the version builder and the blob lineage
read it.  `files` holds levels `-1` to `numLevels - 1`. -/
structure VersionStorageInfo where
  numLevels : ℕ
  files : ℤ → List FileMetaPtr
  dependenceMap : SlotMap UInt64 FileMetaPtr
  context : Option BuilderContext

namespace VersionStorageInfo

/-- A storage with no files and no context. -/
def empty (numLevels : ℕ) : VersionStorageInfo :=
  ⟨numLevels, fun _ => [], SlotMap.empty, none⟩

/-- `LevelFiles(level)`. -/
def LevelFiles (vs : VersionStorageInfo) (level : ℤ) : List FileMetaPtr := vs.files level

/-- `VersionStorageInfo::AddFile(level, f, exists)`: the file joins its level
and the dependence map; a blob file also stands for every file it inherits that
`exists` reports as depended on.  `emplace` keeps an entry already there. -/
def AddFile (vs : VersionStorageInfo) (heap : FileMetaHeap) (level : ℤ) (f : FileMetaPtr)
    (exists' : UInt64 → Bool) : VersionStorageInfo × FileMetaHeap :=
  let obj := heap.get f
  let dependenceMap := (vs.dependenceMap.emplace obj.data.fd.getNumber f).2
  let dependenceMap :=
    if level = -1 then
      obj.data.prop.inheritance.foldl
        (fun m fileNumber => if exists' fileNumber then (m.emplace fileNumber f).2 else m)
        dependenceMap
    else dependenceMap
  ({ vs with
      files := Function.update vs.files level (vs.files level ++ [f])
      dependenceMap := dependenceMap },
   heap.ref f)

end VersionStorageInfo

end HapDB
