import HapDB.Db.VersionStorage

/-!
# `db/version_builder.cc`: building a version from a base and edits

A `VersionBuilder` starts from the storage of the current version, applies
edits (`Apply`) and writes the result into the storage of a new version
(`SaveTo`).  Its state is a context that moves from version to version: the
files of each level, a dependence map with one item per file still needed (a
level file, or a file a level file depends on), and an inheritance counter
that resolves a file number to the files that took over its entries.

Dependence is computed by `CalculateDependence`: every level file is marked,
every file it depends on is resolved through the inheritance counter to the
items recorded there and marked too (recursively through map SSTs), and every
item left unmarked is erased.  The items are found by their *positions* in the
dependence map, kept in the counter's `depend_item_pos_vec`; positions are the
slots of a `SlotMap`.

HapDB adds the blob lineage: `Apply(edit, version_num)` collects the new blob
files of an edit and the edges `AddBlobDependence` recorded for them, and
`SaveTo(..., version_num)` adds them to the column family's file map.

The consistency checks, which only abort a process that asked for them, the
debugger, and the bookkeeping of files on levels beyond `num_levels_` are left
out, and so are the statistics `SaveTo` computes (read amplification, scores)
and the compaction marks for old files (`push_old_file`).  Where the code
reaches an item through a position whose slot is empty, which it asserts does
not happen, the model skips the item.

`SetDependence` recurses through map SSTs with no bound; the recursion runs on
fuel, one more than the number of slots of the dependence map, which only a
cycle of map SSTs exhausts (where the code does not return).
-/

namespace HapDB

namespace VersionBuilder

/-- The state `Apply` and `SaveTo` change: the objects, the context, and the
blob lineage collected for `SaveTo` (`new_blobs_`, `blob_dependence_`). -/
structure Builder where
  heap : FileMetaHeap
  ctx : BuilderContext
  newBlobs : List FileMetaPtr
  blobDependence : List (UInt64 × FileMetaPtr)

section Inheritance

/-- The `emplace` lambda of `PutInheritance`: a new entry for `fileNumber`, or
one more inheritor, which becomes the entry's item when the inheriting file is
new to the counter. -/
def putInheritanceEntry (itemPos : ℕ) (replace : Bool)
    (counter : SlotMap UInt64 InheritanceItem) (fileNumber : UInt64) :
    SlotMap UInt64 InheritanceItem :=
  let r := counter.emplace fileNumber ⟨false, 1, itemPos, [itemPos]⟩
  if r.1.2 then r.2
  else
    r.2.modify r.1.1 fun it =>
      if replace then
        { it with count := it.count + 1, itemPos := itemPos,
                  dependItemPosVec := it.dependItemPosVec ++ [itemPos] }
      else { it with count := it.count + 1 }

/-- `PutInheritance(item, item_pos)`: the file inherits each file of its
inheritance set, and itself. -/
def PutInheritance (ctx : BuilderContext) (file : FileMetaData) (itemPos : ℕ) : BuilderContext :=
  let fileNumber := file.fd.getNumber
  let replace := !ctx.inheritanceCounter.contains fileNumber
  let counter :=
    file.prop.inheritance.foldl (putInheritanceEntry itemPos replace) ctx.inheritanceCounter
  { ctx with inheritanceCounter := putInheritanceEntry itemPos replace counter fileNumber }

/-- The `erase` lambda of `DelInheritance`: one inheritor fewer, and the entry
gone with the last one. -/
def delInheritanceEntry (counter : SlotMap UInt64 InheritanceItem) (fileNumber : UInt64) :
    SlotMap UInt64 InheritanceItem :=
  match counter.find fileNumber with
  | some pos =>
      match counter.valueAt pos with
      | some it => if it.count - 1 = 0 then counter.erase pos
                   else counter.modify pos fun it => { it with count := it.count - 1 }
      | none => counter
  | none => counter

/-- `DelInheritance(f)`. -/
def DelInheritance (ctx : BuilderContext) (file : FileMetaData) : BuilderContext :=
  let counter := file.prop.inheritance.foldl delInheritanceEntry ctx.inheritanceCounter
  { ctx with inheritanceCounter := delInheritanceEntry counter file.fd.getNumber }

end Inheritance

/-! ## Files in and out -/

/-- `PutSst(f, level)`: the file gets an item (a new one, with its
inheritance, or the item already there, whose old object loses the
reference), and joins its level. -/
def PutSst (b : Builder) (f : FileMetaPtr) (level : ℤ) : Builder :=
  let file := (b.heap.get f).data
  let fileNumber := file.fd.getNumber
  let r := b.ctx.dependenceMap.emplace fileNumber ⟨fileNumber, 0, 0, false, level, f, 0⟩
  let heap := b.heap.ref f
  let (ctx, heap) :=
    if r.1.2 then (PutInheritance { b.ctx with dependenceMap := r.2 } file r.1.1, heap)
    else
      match r.2.valueAt r.1.1 with
      | some item =>
          ({ b.ctx with dependenceMap := r.2.modify r.1.1 (fun it => { it with level := level, f := f }) },
           heap.unrefFile item.f)
      | none => ({ b.ctx with dependenceMap := r.2 }, heap)
  let ctx :=
    if 0 ≤ level then
      let files := ((ctx.levels level.toNat).emplace fileNumber f).2
      { ctx with levels := Function.update ctx.levels level.toNat files }
    else ctx
  { b with heap := heap, ctx := ctx }

/-- `DelSst(file_number, level)`: the file leaves its level; its item stays,
at level `-1`, until no file depends on it. -/
def DelSst (ctx : BuilderContext) (fileNumber : UInt64) (level : ℕ) : BuilderContext :=
  { ctx with
    dependenceMap := ctx.dependenceMap.modifyKey fileNumber fun it => { it with level := -1 }
    levels := Function.update ctx.levels level ((ctx.levels level).eraseKey fileNumber) }

/-! ## Dependence -/

/-- The items `SetDependence` reaches from one entry of the counter: every
position recorded there except, when there are several, the one equal to the
entry's own position in the counter. -/
def dependItemPositions (findPos : ℕ) (it : InheritanceItem) : List ℕ :=
  it.dependItemPosVec.filter fun pos => !(decide (1 < it.dependItemPosVec.length) && pos == findPos)

/-- What `SetDependence` does to the item at `pos` (and, through a map SST,
to the items that one depends on). -/
def markItem (heap : FileMetaHeap) (setDependence : BuilderContext → FileMetaPtr → Bool → Bool →
      Float → BuilderContext)
    (findPos : ℕ) (entryCount : UInt64) (isMap isEstimation : Bool) (ratio : Float) (finish : Bool)
    (ctx : BuilderContext) (pos : ℕ) : BuilderContext :=
  match ctx.dependenceMap.valueAt pos with
  | none => ctx
  | some item =>
      let counter :=
        if finish then ctx.inheritanceCounter.modify findPos fun it => { it with depended := true }
        else ctx.inheritanceCounter
      let dependenceMap := ctx.dependenceMap.modify pos fun it =>
        let it :=
          if finish then
            { it with isEstimation := it.isEstimation || isEstimation,
                      entryDepended := it.entryDepended + Float.ofNat entryCount.toNat * ratio }
          else it
        { it with dependenceVersion := ctx.dependenceVersion }
      let ctx := { ctx with inheritanceCounter := counter, dependenceMap := dependenceMap }
      if isMap then
        let ctx := { ctx with dependenceMap := ctx.dependenceMap.modify pos fun it =>
          { it with gcForbiddenVersion := ctx.dependenceVersion } }
        let sub := (heap.get item.f).data.prop
        if !sub.dependence.isEmpty then
          setDependence ctx item.f sub.isMapSst (isEstimation || sub.isMapSst)
            (ratio * Float.ofNat entryCount.toNat / Float.ofNat (max 1 sub.numEntries.toNat))
        else ctx
      else ctx

/-- `SetDependence(f, is_map, is_estimation, ratio, finish)`: mark every item
that stands for a file `f` depends on. -/
def SetDependence (heap : FileMetaHeap) (finish : Bool) :
    ℕ → BuilderContext → FileMetaPtr → Bool → Bool → Float → BuilderContext
  | 0, ctx, _, _, _, _ => ctx
  | fuel + 1, ctx, f, isMap, isEstimation, ratio =>
      (heap.get f).data.prop.dependence.foldl (fun ctx dependence =>
        match ctx.inheritanceCounter.find dependence.fileNumber with
        -- a missing file only sets the builder's status, which nothing reads
        | none => ctx
        | some findPos =>
            match ctx.inheritanceCounter.valueAt findPos with
            | none => ctx
            | some it =>
                (dependItemPositions findPos it).foldl
                  (markItem heap (SetDependence heap finish fuel) findPos dependence.entryCount
                    isMap isEstimation ratio finish) ctx) ctx

/-- The fuel of `SetDependence`: a chain of map SSTs longer than the
dependence map has slots goes round a cycle. -/
def setDependenceFuel (ctx : BuilderContext) : ℕ := ctx.dependenceMap.slots.length + 1

/-- The first loop of `CalculateDependence`: every level file's item is
marked, and what it depends on. -/
def markLevelFiles (heap : FileMetaHeap) (numLevels : ℕ) (finish : Bool) (ctx : BuilderContext) :
    BuilderContext :=
  (List.range numLevels).foldl (fun ctx level =>
    (ctx.levels level).entries.foldl (fun ctx e =>
      match ctx.dependenceMap.find e.2.1 with
      | none => ctx
      | some pos =>
          let ctx := { ctx with dependenceMap := ctx.dependenceMap.modify pos fun it =>
            { it with dependenceVersion := ctx.dependenceVersion,
                      gcForbiddenVersion := ctx.dependenceVersion } }
          match ctx.dependenceMap.valueAt pos with
          | none => ctx
          | some item =>
              let prop := (heap.get item.f).data.prop
              if !prop.dependence.isEmpty then
                SetDependence heap finish (setDependenceFuel ctx) ctx item.f prop.isMapSst
                  prop.isMapSst 1
              else ctx) ctx) ctx

/-- The `finish` branch of the sweep for a marked item: its garbage-collection
status, with the copy of an object other versions still hold before it is
changed. -/
def finishItem (ctx : BuilderContext) (heap : FileMetaHeap) (pos : ℕ) (item : DependenceItem) :
    BuilderContext × FileMetaHeap :=
  let obj := heap.get item.f
  let numEntries := obj.data.prop.numEntries
  let entryDepended := min numEntries (max 1 item.entryDepended.toUInt64)
  let numAntiquation := numEntries - entryDepended
  let (ctx, heap, f) :=
    match obj.gcStatus with
    | .kGarbageCollectionForbidden =>
        if item.gcForbiddenVersion = ctx.dependenceVersion then (ctx, heap, item.f)
        else
          let (ctx, heap, f) :=
            if obj.refs > 1 then
              let r := heap.new obj.data
              let heap : FileMetaHeap := r.2.update r.1.addr fun o =>
                { obj with refs := 1, beingCompacted := false, data := o.data }
              let heap := heap.unrefFile item.f
              ({ ctx with dependenceMap := ctx.dependenceMap.modify pos fun it => { it with f := r.1 } },
               heap, r.1)
            else (ctx, heap, item.f)
          (ctx, heap.update f.addr (fun o => { o with
              gcStatus := .kGarbageCollectionPermitted,
              data := { o.data with markedForCompaction := o.data.markedForCompaction &&& kMarkedFromUser } }),
            f)
    | .kGarbageCollectionCandidate =>
        if !item.isEstimation || numAntiquation != obj.numAntiquation then
          (ctx, heap.update item.f.addr fun o => { o with gcStatus := .kGarbageCollectionPermitted },
            item.f)
        else (ctx, heap, item.f)
    | .kGarbageCollectionPermitted => (ctx, heap, item.f)
  (ctx, heap.update f.addr fun o => { o with numAntiquation := numAntiquation })

/-- The second loop of `CalculateDependence`: an item marked in this round
stays; any other leaves the dependence map, gives up its inheritance and its
reference. -/
def sweepItem (finish : Bool) (st : BuilderContext × FileMetaHeap) (pos : ℕ) :
    BuilderContext × FileMetaHeap :=
  let (ctx, heap) := st
  match ctx.dependenceMap.valueAt pos with
  | none => st
  | some item =>
      if item.dependenceVersion = ctx.dependenceVersion then
        if finish then finishItem ctx heap pos item else st
      else
        let ctx := DelInheritance ctx (heap.get item.f).data
        ({ ctx with dependenceMap := ctx.dependenceMap.erase pos }, heap.unrefFile item.f)

/-- `CalculateDependence(finish, is_open_db, maintainer_job_ratio)`, without the
compaction marks for old files. -/
def CalculateDependence (b : Builder) (numLevels : ℕ) (finish isOpenDb : Bool) : Builder :=
  if !finish && (!isOpenDb || b.ctx.newDeletedFiles < 65536) then b
  else
    let ctx := { b.ctx with dependenceVersion := b.ctx.dependenceVersion + 1 }
    let ctx := markLevelFiles b.heap numLevels finish ctx
    let (ctx, heap) := (ctx.dependenceMap.entries.map (·.1)).foldl (sweepItem finish) (ctx, b.heap)
    { b with heap := heap, ctx := { ctx with newDeletedFiles := 0 } }

/-! ## `Init`, `Apply` and `SaveTo` -/

/-- `Init()`: the context the base version holds, taken out of it, with the
marks of the last round cleared; or, when the base holds none, a context built
by putting every file of the base.  The base is returned without its context. -/
def Init (heap : FileMetaHeap) (base : VersionStorageInfo) :
    Builder × VersionStorageInfo :=
  match base.context with
  | some ctx =>
      let ctx := { ctx with
        dependenceMap := ctx.dependenceMap.mapValues fun it =>
          { it with isEstimation := false, entryDepended := 0 }
        inheritanceCounter := ctx.inheritanceCounter.mapValues fun it => { it with depended := false } }
      (⟨heap, ctx, [], []⟩, { base with context := none })
  | none =>
      let levels := (List.range (base.numLevels + 1)).map fun i => (i : ℤ) - 1
      let b := levels.foldl (fun b level => (base.LevelFiles level).foldl (fun b f => PutSst b f level) b)
        ⟨heap, BuilderContext.empty, [], []⟩
      (b, base)

/-- The blob lineage of one new blob file `f`: the edges of the edit that end
at its file number, from their parents' numbers. -/
def blobEdges (edit : VersionEdit) (f : FileMetaPtr) (fileNumber : UInt64) :
    List (UInt64 × FileMetaPtr) :=
  (edit.blobDependence.filter fun d => d.2.fd.getNumber == fileNumber).map fun d =>
    (d.1.fd.getNumber, f)

/-- One new file of `Apply(edit, version_num)`: a fresh object put at its
level; a blob file is also recorded for the file map, with its edges. -/
def applyNewFile (edit : VersionEdit) (numLevels : ℕ) (b : Builder) (nf : Int32 × FileMetaData) :
    Builder :=
  let (level, data) := nf
  if level.toInt < (numLevels : ℤ) then
    let r := b.heap.new data
    let b := PutSst { b with heap := r.2 } r.1 level.toInt
    if level.toInt = -1 then
      { b with newBlobs := b.newBlobs ++ [r.1],
               blobDependence := b.blobDependence ++ blobEdges edit r.1 data.fd.getNumber }
    else b
  else b

/-- `Apply(edit, version_num)`: deletions, then the new files, then the
dependence of an edit replayed while the database opens. -/
def Apply (b : Builder) (numLevels : ℕ) (edit : VersionEdit) : Builder :=
  let b := { b with ctx := { b.ctx with
    newDeletedFiles := b.ctx.newDeletedFiles + edit.deletedFiles.1.length } }
  let b := edit.deletedFiles.1.foldl (fun b d =>
    if 0 ≤ d.level.toInt ∧ d.level.toInt < (numLevels : ℤ) then
      { b with ctx := DelSst b.ctx d.number d.level.toInt.toNat }
    else b) b
  let b := edit.newFiles.foldl (applyNewFile edit numLevels) b
  CalculateDependence b numLevels false edit.isOpenDb

/-- `NewestFirstBySeqNo`. -/
def NewestFirstBySeqNo (a b : FileMetaData) : Bool :=
  if a.fd.largestSeqno != b.fd.largestSeqno then a.fd.largestSeqno > b.fd.largestSeqno
  else if a.fd.smallestSeqno != b.fd.smallestSeqno then a.fd.smallestSeqno > b.fd.smallestSeqno
  else a.fd.getNumber > b.fd.getNumber

/-- `BySmallestKey`. -/
def BySmallestKey (ucmp : Comparator) (a b : FileMetaData) : Bool :=
  match internalKeyCompare ucmp a.smallest b.smallest with
  | .lt => true
  | .gt => false
  | .eq => a.fd.getNumber < b.fd.getNumber

/-- The files of a level of the context in the order `SaveTo` adds them. -/
def orderedLevelFiles (heap : FileMetaHeap) (ucmp : Comparator) (ctx : BuilderContext)
    (level : ℕ) : List FileMetaPtr :=
  let before (a b : FileMetaPtr) : Bool :=
    if level = 0 then NewestFirstBySeqNo (heap.get a).data (heap.get b).data
    else BySmallestKey ucmp (heap.get a).data (heap.get b).data
  ((ctx.levels level).entries.map (·.2.2)).insertionSort fun a b => !before b a

/-- The `exists` callback of `SaveTo`: whether a live file depends on the file. -/
def depended (ctx : BuilderContext) (fileNumber : UInt64) : Bool :=
  (ctx.inheritanceCounter.get? fileNumber).any (·.depended)

/-- The file map part of `SaveTo`: a node for every new blob, then every edge,
with the new version's number.  The statuses are only asserted. -/
def updateFileMap (heap : FileMetaHeap) (newBlobs : List FileMetaPtr)
    (blobDependence : List (UInt64 × FileMetaPtr)) (versionNum : UInt64) (fm : FileMap) : FileMap :=
  let fm := newBlobs.foldl (fun fm f => (fm.AddNode f (heap.get f).data versionNum).2) fm
  blobDependence.foldl (fun fm e => (fm.AddDerivedNode e.1 e.2 (heap.get e.2).data versionNum).2) fm

/-- `SaveTo(vstorage, maintainer_job_ratio, version_num)`: the final round of
dependence, the level files in order and the blob files still needed into the
new storage, the lineage into the file map, and the context handed to the new
storage. -/
def SaveTo (b : Builder) (numLevels : ℕ) (ucmp : Comparator) (vstorage : VersionStorageInfo)
    (versionNum : UInt64) (fm : FileMap) : VersionStorageInfo × FileMetaHeap × FileMap :=
  let b := CalculateDependence b numLevels true false
  let exists' := depended b.ctx
  let (vs, heap) := (List.range numLevels).foldl (fun st level =>
    (orderedLevelFiles b.heap ucmp b.ctx level).foldl
      (fun st f => st.1.AddFile st.2 level f exists') st) (vstorage, b.heap)
  let (vs, heap) := b.ctx.dependenceMap.entries.foldl (fun st e =>
    if e.2.2.level = -1 then st.1.AddFile st.2 (-1) e.2.2.f exists' else st) (vs, heap)
  ({ vs with context := some b.ctx }, heap,
   updateFileMap heap b.newBlobs b.blobDependence versionNum fm)

/-- `BaseReferencedVersionBuilder::DoApplyAndSaveTo(vstorage, ratio,
version_num)`: a builder on `base`, every edit applied in order, the result
saved into `vstorage`.  The base is returned without the context the builder
took from it. -/
def DoApplyAndSaveTo (heap : FileMetaHeap) (base : VersionStorageInfo) (edits : List VersionEdit)
    (ucmp : Comparator) (vstorage : VersionStorageInfo) (versionNum : UInt64) (fm : FileMap) :
    VersionStorageInfo × VersionStorageInfo × FileMetaHeap × FileMap :=
  let (b, base) := Init heap base
  let b := edits.foldl (fun b e => Apply b base.numLevels e) b
  let (vs, heap, fm) := SaveTo b base.numLevels ucmp vstorage versionNum fm
  (base, vs, heap, fm)

end VersionBuilder

end HapDB
