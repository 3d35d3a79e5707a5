import HapDB.Lib.ByteCoding
import HapDB.Lib.ExceptBind
import HapDB.Lib.SortedList
import HapDB.Lib.Chase
import HapDB.Lib.SlotMap
import HapDB.Lib.Heap
import HapDB.Lib.Fold
import HapDB.Util.Status
import HapDB.Util.Coding
import HapDB.Db.DbFormat
import HapDB.Db.WriteBatch
import HapDB.Db.Log
import HapDB.Db.VersionEdit
import HapDB.Db.FileMap
import HapDB.Db.VersionStorage
import HapDB.Db.VersionBuilder
import HapDB.Db.VersionSet
import HapDB.Proofs.WriteBatch.Iterate
import HapDB.Proofs.Log.LogNumber
import HapDB.Proofs.VersionEdit.Fields
import HapDB.Proofs.VersionEdit.NewFile4
import HapDB.Proofs.VersionEdit.RoundTrip
import HapDB.Proofs.VersionEdit.Record
import HapDB.Proofs.FileMap.Lineage
import HapDB.Proofs.FileMap.Query
import HapDB.Proofs.VersionSet.ManifestFailure
import HapDB.Proofs.VersionBuilder.DependencePositions
import HapDB.Proofs.FileMap.Children
import HapDB.Lib.GrowVec
import HapDB.Db.Builder
import HapDB.Proofs.Builder.FlushStatus
import HapDB.Proofs.Builder.WriterPointers
import HapDB.Lib.LowerBound
import HapDB.Db.FileIndexer
import HapDB.Db.FilePicker
import HapDB.Proofs.FilePicker.Cascade
import HapDB.Db.WriteThread
import HapDB.Proofs.WriteThread.Stack
import HapDB.Proofs.WriteThread.Leader
import HapDB.Proofs.WriteThread.Round
import HapDB.Txn.WritePrepared
import HapDB.Proofs.WritePrepared.Visibility
import HapDB.Db.RangeTombstoneFragmenter
import HapDB.Db.RangeDelAggregator
import HapDB.Proofs.RangeDel.Fragments
import HapDB.Db.CompactionIterator
import HapDB.Db.LevelOverlap
import HapDB.Proofs.LevelOverlap.NextSmallest
import HapDB.Env.ZenFSOracle
import HapDB.Proofs.ZenFSOracle.Bounds
import HapDB.Proofs.Compaction.ObsoleteRecords
import HapDB.Lib.RoseForest
import HapDB.Db.InheritanceTree
import HapDB.Proofs.InheritanceTree.Prune
import HapDB.Db.MergeHelper
import HapDB.Proofs.Merge.Collapse
import HapDB.Lib.Cut
import HapDB.Db.MapBuilder
import HapDB.Proofs.MapBuilder.Partition
import HapDB.Db.InternalKeyComparator
import HapDB.Proofs.DbFormat.InternalKey
import HapDB.Db.MapSstElement
import HapDB.Proofs.DbFormat.MapSstElement
import HapDB.Table.Format
import HapDB.Proofs.Table.Footer
import HapDB.Proofs.WriteBatch.SavePoint
import HapDB.Proofs.WriteBatch.ContentFlags
import HapDB.Lib.ByteBits
import HapDB.Util.Hash
import HapDB.Util.Bloom
import HapDB.Proofs.Bloom.Space
import HapDB.Proofs.Bloom.FullFilter
import HapDB.Proofs.Bloom.Policy
import HapDB.Lib.HeapOrder
import HapDB.Util.BinaryHeap
import HapDB.Proofs.Heap.BinaryHeap
import HapDB.Txn.CommitEntry64b
import HapDB.Lib.Cursor
import HapDB.Proofs.WriteBatch.Append
import HapDB.Util.Comparator
import HapDB.Proofs.Comparator.Shortening
import HapDB.Table.BlockBuilder
import HapDB.Table.Block
import HapDB.Proofs.Table.BlockLayout
import HapDB.Proofs.Table.BlockBuild
import HapDB.Proofs.Table.BlockScan
import HapDB.Proofs.Table.DataBlockIter
import HapDB.Proofs.Log.RoundTrip
import HapDB.Lib.SortedUnion
import HapDB.Proofs.Heap.Rekey
import HapDB.Table.MergingIterator
import HapDB.Proofs.Table.MergingHeap
import HapDB.Proofs.Table.MergingIterator
import HapDB.Table.GetContext
import HapDB.Db.VersionGet
import HapDB.Proofs.Get.Outcome
import HapDB.Proofs.Get.Lookup
import HapDB.Proofs.Get.SaveValue
import HapDB.Proofs.Get.VersionGet
import HapDB.Db.MemTableGet
import HapDB.Proofs.Get.MemTable
import HapDB.Proofs.Get.DbGet
import HapDB.Db.DBIter
import HapDB.Proofs.DBIter.UserView
import HapDB.Proofs.DBIter.Steps
import HapDB.Proofs.DBIter.Forward
