import HapDB.Db.VersionEdit
import HapDB.Lib.RoseForest

/-!
# `db/compaction.cc`: the inheritance tree of a garbage collection

Every blob file records, as the table property `inheritance_tree`, the files
it was collected from and theirs in turn: a forest written as a depth-first
bracket sequence, each file number once when the walk enters it and once when
it leaves it.  A garbage collection puts the trees of its inputs together under
the inputs' own numbers, and on the way drops every file that the dependence
map no longer holds and that has nothing left below it.

`BuildInheritanceTree` reads the inputs in order and, for each, makes two
passes over the stored sequence against the tree built so far, both of which
decide whether a number closes the node on top only by its equality with the
last element.  The first pass checks the sequence: it must bring the tree
back to its length, and it stops as soon as it pops below it.  The second
merges it in, popping a node that is closed right after it was opened when the
dependence map does not hold it.

The tree is a `std::vector` that only grows and shrinks at its back; here it
is a list kept last element first, turned round at the end.
-/

namespace HapDB

/-- `CompactionInputFiles`: the input files of one level of a compaction (the
level itself is not read here). -/
structure CompactionInputFiles where
  files : List FileMetaData
  deriving Repr

/-- The verifying loop over `tp->inheritance_tree`, with `size` the length of
the tree once the input's own number is pushed.  A number equal to the last
element pops it, and the loop breaks when that takes the tree below `size`;
any other number is pushed. -/
def verifyInheritanceTree (size : ℕ) : List UInt64 → List UInt64 → List UInt64
  | tree, [] => tree
  | tree, fn :: rest =>
      if tree.head? = some fn then
        if tree.tail.length < size then tree.tail
        else verifyInheritanceTree size tree.tail rest
      else verifyInheritanceTree size (fn :: tree) rest

/-- One number of the purging loop: equal to the last element and absent from
the dependence map (`dependence_map.count(fn) == 0`), it pops the element and
counts one purged file; otherwise it is pushed. -/
def purgeStep (dependenceMap : List UInt64) (acc : List UInt64 × ℕ) (fn : UInt64) :
    List UInt64 × ℕ :=
  if acc.1.head? = some fn ∧ dependenceMap.contains fn = false then (acc.1.tail, acc.2 + 1)
  else (fn :: acc.1, acc.2)

/-- The body of the loop of `BuildInheritanceTree` for one input file `f`:
`version->GetTableProperties(&tp, f)`, the check of `tp->inheritance_tree`,
and its purged merge between two copies of the file's number. -/
def addInheritanceInput (getTableProperties : FileMetaData → Except Status (List UInt64))
    (dependenceMap : List UInt64) (acc : List UInt64 × ℕ) (f : FileMetaData) :
    Except Status (List UInt64 × ℕ) := do
  let stored ← getTableProperties f
  let tree := f.fd.getNumber :: acc.1
  if (verifyInheritanceTree tree.length tree stored).length ≠ tree.length then
    -- input inheritance tree invalid
    throw (Status.Corruption "BuildInheritanceTree: bad inheritance_tree, file_number "
      (toString f.fd.getNumber))
  let purged := stored.foldl (purgeStep dependenceMap) (tree, acc.2)
  return (f.fd.getNumber :: purged.1, purged.2)

/-- `BuildInheritanceTree(inputs, dependence_map, version, &inheritance_tree,
pruge_count_ptr)`: the tree and the number of purged files, over the files of
every input level in order.  `getTableProperties` is the version's
`GetTableProperties`, giving a file's stored `inheritance_tree` or the status
it fails with; the dependence map is given by its keys. -/
def BuildInheritanceTree (inputs : List CompactionInputFiles) (dependenceMap : List UInt64)
    (getTableProperties : FileMetaData → Except Status (List UInt64)) :
    Except Status (List UInt64 × ℕ) := do
  let built ← (inputs.flatMap (·.files)).foldlM
    (addInheritanceInput getTableProperties dependenceMap) ([], 0)
  return (built.1.reverse, built.2)

/-- `InheritanceTreeToSet`: `std::sort`, then `std::unique`, which keeps the
first of every run of equal numbers. -/
def InheritanceTreeToSet (tree : List UInt64) : List UInt64 :=
  (tree.mergeSort (· ≤ ·)).destutter (· ≠ ·)

end HapDB
