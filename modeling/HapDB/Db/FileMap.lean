import HapDB.Db.VersionEdit
import HapDB.Lib.Chase

/-!
# `db/filemap.h`, `db/filemap.cc`: the blob lineage map

The file map records which blob files a garbage collection derived from which:
one node per blob file, and an edge from every collected file to every file its
live entries were rewritten to.  A reader holding a value index that names an
old blob file asks the map for the file that holds the value now
(`QueryFileMeta`): from the named file's node it moves to the first child, in
the order the edges were added, that is visible in the reader's version and
whose user-key range contains the key, and stops where no child qualifies.

Visibility is by version number: a node is created with the number of the
version whose installation added it, and a query in version `v` sees the nodes
with a number at most `v`.  One map is shared by all versions of a column
family (`Version::Version` hands the current version's map to the next), so
this filter is what keeps a query in an old version from seeing files that a
later garbage collection produced.

Here the map `nodes_` is a partial function from file numbers to nodes.  A
child of a node is the shared node of the child's file number (`AddDerivedNode`
reuses the node in `nodes_` when there is one), so the children are kept as
file numbers, and a node's children always have nodes (`FileMap.children_mem`).
The `FileMetaData*` of a node is an address (`FileMetaPtr`); what the node reads
through it when it is created (the descriptor and the key range) is passed
along with it.

The query loop has no bound of its own: a cycle of accessible nodes, which
only the assertions of `AddDerivedNode` rule out, keeps it running.  It is run
on fuel (`Chase.chase`) and answers `none` when the fuel runs out.  The
`Monitor` counters, which only statistics read, are left out.
-/

namespace HapDB

/-- `Comparator::Compare`, by the sign of its result. -/
abbrev Comparator := Bytes → Bytes → Ordering

/-- `BytewiseComparator()`: `Slice::compare`, `memcmp` over the common length
and then the shorter slice first. -/
def bytewiseCompare : Comparator
  | [], [] => .eq
  | [], _ :: _ => .lt
  | _ :: _, [] => .gt
  | a :: as, b :: bs =>
      match compare a b with
      | .eq => bytewiseCompare as bs
      | o => o

/-- `InternalKey::user_key()`: all but the eight-byte sequence-and-type footer. -/
def InternalKey.userKey (k : InternalKey) : Bytes := k.rep.take (k.rep.length - 8)

/-- `InternalKeyComparator::Compare`: by user key, then the larger
sequence-and-type footer first. -/
def internalKeyCompare (ucmp : Comparator) (a b : InternalKey) : Ordering :=
  match ucmp a.userKey b.userKey with
  | .eq =>
      let anum := decodeFixed64 (a.rep.drop (a.rep.length - 8))
      let bnum := decodeFixed64 (b.rep.drop (b.rep.length - 8))
      if anum > bnum then .lt else if anum < bnum then .gt else .eq
  | o => o

/-- A `FileMetaData*`: the address of a metadata object. -/
structure FileMetaPtr where
  addr : ℕ
  deriving DecidableEq, Repr

namespace FileMap

/-- `FileMap::MapNode`: a blob file, the version that added it, and the files
derived from it, in the order the edges were added. -/
structure MapNode where
  versionNum : UInt64
  fileMeta : FileMetaPtr
  fd : FileDescriptor
  smallestKey : InternalKey
  largestKey : InternalKey
  children : List UInt64
  deriving DecidableEq, Repr

namespace MapNode

/-- `MapNode(_file_meta, _version_num)`: `file` is what `_file_meta` points to. -/
def make (fileMeta : FileMetaPtr) (file : FileMetaData) (versionNum : UInt64) : MapNode :=
  ⟨versionNum, fileMeta, file.fd, file.smallest, file.largest, []⟩

/-- The room `MapNode(...)` reserves for children (`children.reserve(32)`), so
that appending does not move the vector under a concurrent reader. -/
def kReservedChildren : ℕ := 32

/-- `IsLeaf`. -/
def IsLeaf (n : MapNode) : Bool := n.children.isEmpty

/-- `Accessible`. -/
def Accessible (n : MapNode) (version : UInt64) : Bool := n.versionNum ≤ version

/-- `Contain`: the user-key range of the file holds `uKey`. -/
def Contain (n : MapNode) (uKey : Bytes) (cmp : Comparator) : Bool :=
  (cmp n.smallestKey.userKey uKey).isLE && (cmp uKey n.largestKey.userKey).isLE

end MapNode

end FileMap

/-- `FileMap`: the nodes by file number; every child of a node has a node. -/
structure FileMap where
  nodes : UInt64 → Option FileMap.MapNode
  children_mem : ∀ fn node, nodes fn = some node → ∀ c ∈ node.children, (nodes c).isSome

namespace FileMap

/-- `FileMap()`: no nodes. -/
def empty : FileMap := ⟨fun _ => none, by simp⟩

/-- `nodes_.emplace(file_number, node)` for a file number with no node. -/
def insertNode (fm : FileMap) (fileNumber : UInt64) (node : MapNode) (hnew : node.children = []) :
    FileMap where
  nodes := Function.update fm.nodes fileNumber (some node)
  children_mem := by
    intro fn n hfn c hc
    by_cases hfile : fn = fileNumber
    · subst hfile
      simp only [Function.update_self, Option.some.injEq] at hfn
      simp [← hfn, hnew] at hc
    · rw [Function.update_of_ne hfile] at hfn
      by_cases hchild : c = fileNumber
      · simp [hchild]
      · simpa [Function.update_of_ne hchild] using fm.children_mem fn n hfn c hc

/-- `nodes_[parent]->children.emplace_back(nodes_[child])`, for a child that
has a node. -/
def appendChild (fm : FileMap) (parent child : UInt64) (hchild : (fm.nodes child).isSome) :
    FileMap where
  nodes fn :=
    if fn = parent then (fm.nodes fn).map fun n => { n with children := n.children ++ [child] }
    else fm.nodes fn
  children_mem := by
    -- a file that has a node keeps one
    have hsome : ∀ c, (fm.nodes c).isSome → (if c = parent then
        (fm.nodes c).map fun n => { n with children := n.children ++ [child] } else fm.nodes c).isSome := by
      intro c h
      split <;> simpa using h
    intro fn n hfn c hc
    split at hfn
    · obtain ⟨n₀, hn₀, rfl⟩ := Option.map_eq_some_iff.mp hfn
      rcases List.mem_append.mp hc with hc | hc
      · exact hsome c (fm.children_mem fn n₀ hn₀ c hc)
      · exact List.mem_singleton.mp hc ▸ hsome child hchild
    · exact hsome c (fm.children_mem fn n hfn c hc)

/-- `FileMap::AddNode(fmeta, version_num)`: a node for a file that has none. -/
def AddNode (fm : FileMap) (fmeta : FileMetaPtr) (file : FileMetaData) (versionNum : UInt64) :
    Status × FileMap :=
  let fileNumber := file.fd.getNumber
  if (fm.nodes fileNumber).isSome then (Status.Corruption "Node to add already exists", fm)
  else (Status.OK, fm.insertNode fileNumber (MapNode.make fmeta file versionNum) rfl)

/-- The map with a node for `c`: the one there, or a new one. -/
def withNode (fm : FileMap) (c : FileMetaPtr) (file : FileMetaData) (versionNum : UInt64) :
    FileMap :=
  if (fm.nodes file.fd.getNumber).isSome then fm
  else fm.insertNode file.fd.getNumber (MapNode.make c file versionNum) rfl

theorem withNode_isSome (fm : FileMap) (c : FileMetaPtr) (file : FileMetaData)
    (versionNum : UInt64) : ((fm.withNode c file versionNum).nodes file.fd.getNumber).isSome := by
  unfold withNode
  split
  · assumption
  · simp [insertNode]

/-- `FileMap::AddDerivedNode(p_filenum, c, version_num)`: an edge from the
parent's node to the child's, creating the child's node if it has none.  The
two assertions (the parent is older than `version_num`, a child found in the
map was added by `version_num`) are not checked. -/
def AddDerivedNode (fm : FileMap) (pFilenum : UInt64) (c : FileMetaPtr) (file : FileMetaData)
    (versionNum : UInt64) : Status × FileMap :=
  if (fm.nodes pFilenum).isNone then (Status.Corruption "Request parent node does not exist", fm)
  else
    (Status.OK, (fm.withNode c file versionNum).appendChild pFilenum file.fd.getNumber
      (withNode_isSome fm c file versionNum))

/-! ## Queries -/

/-- One round of the query loop at file `fn`: while the node is an accessible
inner node, the first child that is accessible and contains the key. -/
def queryStep (fm : FileMap) (uKey : Bytes) (cmp : Comparator) (versionNum : UInt64)
    (fn : UInt64) : Option UInt64 :=
  match fm.nodes fn with
  | none => none
  | some node =>
      if !node.IsLeaf && node.Accessible versionNum then
        node.children.find? fun c =>
          match fm.nodes c with
          | some child => child.Accessible versionNum && child.Contain uKey cmp
          | none => false
      else none

/-- The body shared by `QueryFileNumber` and `QueryFileMeta`: the node the
loop stops at, once it is checked to be accessible and to contain the key. -/
def queryNode (fm : FileMap) (fuel : ℕ) (fn : UInt64) (uKey : Bytes) (cmp : Comparator)
    (versionNum : UInt64) : Option (Except Status MapNode) :=
  match fm.nodes fn with
  | none => some (.error (Status.Corruption "Queried file number does not exist"))
  | some _ =>
      (Chase.chase (fm.queryStep uKey cmp versionNum) fuel fn).map fun last =>
        match fm.nodes last with
        | some node =>
            if !node.Contain uKey cmp || !node.Accessible versionNum then
              .error (Status.Corruption "Resultant file does not contain seeking key")
            else .ok node
        -- not reached: the loop only moves to children, which have nodes
        | none => .error (Status.Corruption "Queried file number does not exist")

/-- `FileMap::QueryFileNumber`: the number of the file that holds the key. -/
def QueryFileNumber (fm : FileMap) (fuel : ℕ) (fn : UInt64) (uKey : Bytes) (cmp : Comparator)
    (versionNum : UInt64) : Option (Except Status UInt64) :=
  (fm.queryNode fuel fn uKey cmp versionNum).map (·.map (·.fd.getNumber))

/-- `FileMap::QueryFileMeta`: the metadata pointer of the file that holds the key. -/
def QueryFileMeta (fm : FileMap) (fuel : ℕ) (fn : UInt64) (uKey : Bytes) (cmp : Comparator)
    (versionNum : UInt64) : Option (Except Status FileMetaPtr) :=
  (fm.queryNode fuel fn uKey cmp versionNum).map (·.map (·.fileMeta))

end FileMap

end HapDB
