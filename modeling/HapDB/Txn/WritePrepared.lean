import Mathlib

/-!
# `utilities/transactions/write_prepared_txn_db`: which commits a snapshot sees

A WritePrepared transaction writes its data at its prepare sequence number and
is visible from its commit sequence number on.  `WritePreparedTxnDB` tracks
the commits in a direct-mapped cache of `COMMIT_CACHE_SIZE` slots, indexed by
prepare sequence number modulo the size.  A commit that lands on an occupied
slot evicts the entry there and raises `max_evicted_seq_` past the evicted
commit; the transactions still prepared below the new maximum are moved to
`delayed_prepared_`, and an evicted commit that a live snapshot does not see
is kept for that snapshot in `old_commit_map_`.  `IsInSnapshot` answers from
these, after two shortcuts: a prepare sequence number of `0`, and one below the
snapshot's `min_uncommitted`, which `SmallestUnCommittedSeq` computes when the
snapshot is taken.

The model runs one call at a time: every compare-exchange succeeds and no
lock is contended.  `PreparedHeap`, the min-heap with lazy erasure, is a set of
distinct sequence numbers here, and a slot holds the entry or nothing: the
64-bit word a slot stores (`CommitEntry64b`, in its own module) parses back to
exactly that for every cache of at most `2 ^ 55` slots.  The database
underneath is its last published sequence number and its list of live
snapshots.
-/

namespace HapDB

/-- `CommitEntry`. -/
structure CommitEntry where
  prepSeq : ℕ
  commitSeq : ℕ
  deriving DecidableEq, Repr

/-- The two cache sizes, as the constructor takes them. -/
structure WritePreparedOptions where
  commitCacheBits : ℕ := 23
  snapshotCacheBits : ℕ := 7
  deriving DecidableEq, Repr

namespace WritePreparedOptions

variable (o : WritePreparedOptions)

def COMMIT_CACHE_SIZE : ℕ := 2 ^ o.commitCacheBits

def SNAPSHOT_CACHE_SIZE : ℕ := 2 ^ o.snapshotCacheBits

/-- `INC_STEP_FOR_MAX_EVICTED`. -/
def INC_STEP_FOR_MAX_EVICTED : ℕ := max (o.COMMIT_CACHE_SIZE / 100) 1

end WritePreparedOptions

/-- The state of `WritePreparedTxnDB`, and of the database under it. -/
structure WritePreparedTxnDB where
  /-- `prepared_txns_`. -/
  preparedTxns : List ℕ
  /-- `delayed_prepared_`, and the flag `delayed_prepared_empty_` kept beside it. -/
  delayedPrepared : List ℕ
  delayedPreparedEmpty : Bool
  /-- `commit_cache_`, by slot. -/
  commitCache : ℕ → Option CommitEntry
  maxEvictedSeq : ℕ
  /-- `old_commit_map_`: snapshot to the prepare sequence numbers it must not
  see, sorted; and `old_commit_map_empty_`. -/
  oldCommitMap : List (ℕ × List ℕ)
  oldCommitMapEmpty : Bool
  /-- `snapshot_cache_`, `snapshots_`, `snapshots_total_`, `snapshots_version_`
  and `snapshots_all_`. -/
  snapshotCache : ℕ → ℕ
  snapshots : List ℕ
  snapshotsTotal : ℕ
  snapshotsVersion : ℕ
  snapshotsAll : List ℕ
  /-- The database's last published sequence number and live snapshots. -/
  latestSeq : ℕ
  liveSnapshots : List ℕ

namespace WritePreparedTxnDB

/-- The state after `Init` on an empty database. -/
def empty : WritePreparedTxnDB where
  preparedTxns := []
  delayedPrepared := []
  delayedPreparedEmpty := true
  commitCache := fun _ => none
  maxEvictedSeq := 0
  oldCommitMap := []
  oldCommitMapEmpty := true
  snapshotCache := fun _ => 0
  snapshots := []
  snapshotsTotal := 0
  snapshotsVersion := 0
  snapshotsAll := []
  latestSeq := 0
  liveSnapshots := []

variable (o : WritePreparedOptions)

/-! ## The prepared set -/

/-- `AddPrepared(seq)`: a prepare sequence number at or below
`max_evicted_seq_` is refused. -/
def AddPrepared (db : WritePreparedTxnDB) (seq : ℕ) : Except String WritePreparedTxnDB :=
  if seq ≤ db.maxEvictedSeq then
    .error ("Added prepare_seq is larger than max_evicted_seq_: " ++ toString seq ++ " <= " ++
      toString db.maxEvictedSeq)
  else .ok { db with preparedTxns := seq :: db.preparedTxns }

/-- `RemovePrepared(prepare_seq, batch_cnt)`. -/
def RemovePrepared (db : WritePreparedTxnDB) (prepareSeq : ℕ) : ℕ → WritePreparedTxnDB
  | 0 => db
  | i + 1 =>
      let db := RemovePrepared db prepareSeq i
      let seq := prepareSeq + i
      let db := { db with preparedTxns := db.preparedTxns.erase seq }
      let wasEmpty := db.delayedPrepared.isEmpty
      if !wasEmpty then
        let delayed := db.delayedPrepared.erase seq
        let isEmpty := delayed.isEmpty
        let db := { db with delayedPrepared := delayed }
        if wasEmpty != isEmpty then { db with delayedPreparedEmpty := isEmpty } else db
      else db

/-- `SmallestUnCommittedSeq()`: the top of the prepared heap, or one past the
last sequence number; `delayed_prepared_` is not looked at. -/
def SmallestUnCommittedSeq (db : WritePreparedTxnDB) : ℕ :=
  match db.preparedTxns.min? with
  | none => db.latestSeq + 1
  | some top => min top (db.latestSeq + 1)

/-! ## Snapshots and the old commit map -/

/-- `ReleaseSnapshotInternal(snap_seq)`: the entries kept for a released
snapshot below `max_evicted_seq_` are dropped. -/
def ReleaseSnapshotInternal (db : WritePreparedTxnDB) (snapSeq : ℕ) : WritePreparedTxnDB :=
  if snapSeq < db.maxEvictedSeq && (db.oldCommitMap.lookup snapSeq).isSome then
    let m := db.oldCommitMap.filter (·.1 != snapSeq)
    { db with oldCommitMap := m, oldCommitMapEmpty := m.isEmpty }
  else db

/-- The merge walk of `CleanupReleasedSnapshots(new_snapshots, old_snapshots)`:
every old snapshot missing from the new list is released. -/
def cleanupLoop (db : WritePreparedTxnDB) : ℕ → List ℕ → List ℕ → WritePreparedTxnDB
  | 0, _, _ => db
  | _ + 1, [], old => old.foldl ReleaseSnapshotInternal db
  | _ + 1, _ :: _, [] => db
  | fuel + 1, n :: ns, o :: os =>
      if n = o then cleanupLoop db fuel ((n :: ns).dropWhile (· = n)) ((o :: os).dropWhile (· = n))
      else cleanupLoop (ReleaseSnapshotInternal db o) fuel (n :: ns) os

def CleanupReleasedSnapshots (db : WritePreparedTxnDB) (newSnapshots oldSnapshots : List ℕ) :
    WritePreparedTxnDB :=
  cleanupLoop db (oldSnapshots.length + 1) newSnapshots oldSnapshots

/-- `UpdateSnapshots(snapshots, version)`: the first `SNAPSHOT_CACHE_SIZE` go
to the cache array, the rest to `snapshots_`. -/
def UpdateSnapshots (db : WritePreparedTxnDB) (snapshots : List ℕ) (version : ℕ) :
    WritePreparedTxnDB :=
  let cached := snapshots.take o.SNAPSHOT_CACHE_SIZE
  let db := { db with
    snapshotsVersion := version
    snapshotCache := fun i => if h : i < cached.length then cached[i] else db.snapshotCache i
    snapshots := snapshots.drop o.SNAPSHOT_CACHE_SIZE
    snapshotsTotal := snapshots.length }
  { CleanupReleasedSnapshots db snapshots db.snapshotsAll with snapshotsAll := snapshots }

/-- `GetSnapshotListFromDB(max)`: the live snapshots at or below `max`. -/
def GetSnapshotListFromDB (db : WritePreparedTxnDB) (max : ℕ) : List ℕ :=
  db.liveSnapshots.filter (· ≤ max)

/-- `MaybeUpdateOldCommitMap(prep_seq, commit_seq, snapshot_seq, next_is_larger)`:
whether to go on to the next snapshot. -/
def MaybeUpdateOldCommitMap (db : WritePreparedTxnDB) (prepSeq commitSeq snapshotSeq : ℕ)
    (nextIsLarger : Bool) : Bool × WritePreparedTxnDB :=
  if commitSeq ≤ snapshotSeq then (!nextIsLarger, db)
  else if prepSeq ≤ snapshotSeq then
    let vec := (db.oldCommitMap.lookup snapshotSeq).getD []
    let m := (snapshotSeq, vec.orderedInsert (· ≤ ·) prepSeq) ::
      db.oldCommitMap.filter (·.1 != snapshotSeq)
    (true, { db with oldCommitMap := m, oldCommitMapEmpty := false })
  else (nextIsLarger, db)

/-- Call `MaybeUpdateOldCommitMap` on each snapshot in turn until it says
stop. -/
def checkUntil (evicted : CommitEntry) (nextIsLarger : Bool) :
    List ℕ → WritePreparedTxnDB → WritePreparedTxnDB
  | [], db => db
  | s :: ss, db =>
      let (more, db) := db.MaybeUpdateOldCommitMap evicted.prepSeq evicted.commitSeq s nextIsLarger
      if more then checkUntil evicted nextIsLarger ss db else db

/-- The first loop of `CheckAgainstSnapshots`, over the cache array from slot
`ip1 - 1` down; whether the border-line snapshot asks for the larger list. -/
def checkCacheDown (evicted : CommitEntry) (searchLarger : Bool) (db : WritePreparedTxnDB) :
    ℕ → Bool × WritePreparedTxnDB
  | 0 => (searchLarger, db)
  | ip1 + 1 =>
      let snapshotSeq := db.snapshotCache ip1
      let searchLarger :=
        if ip1 + 1 = o.SNAPSHOT_CACHE_SIZE then decide (snapshotSeq < evicted.commitSeq)
        else searchLarger
      let (more, db) :=
        db.MaybeUpdateOldCommitMap evicted.prepSeq evicted.commitSeq snapshotSeq false
      if more then checkCacheDown evicted searchLarger db ip1 else (searchLarger, db)

/-- `CheckAgainstSnapshots(evicted)`. -/
def CheckAgainstSnapshots (db : WritePreparedTxnDB) (evicted : CommitEntry) : WritePreparedTxnDB :=
  let cnt := db.snapshotsTotal
  let (searchLarger, db) := checkCacheDown o evicted false db (min cnt o.SNAPSHOT_CACHE_SIZE)
  if o.SNAPSHOT_CACHE_SIZE < cnt && searchLarger then
    let db := checkUntil evicted true ((List.range o.SNAPSHOT_CACHE_SIZE).map db.snapshotCache) db
    checkUntil evicted true db.snapshots db
  else db

/-! ## Commits -/

/-- The loop of `AdvanceMaxEvictedSeq` that moves the prepared transactions
at or below `new_max` to `delayed_prepared_`. -/
def delayPrepared (newMax : ℕ) (db : WritePreparedTxnDB) : ℕ → WritePreparedTxnDB
  | 0 => db
  | fuel + 1 =>
      match db.preparedTxns.min? with
      | some top =>
          if top ≤ newMax then
            delayPrepared newMax { db with
              delayedPrepared := (db.delayedPrepared.erase top).orderedInsert (· ≤ ·) top
              preparedTxns := db.preparedTxns.erase top
              delayedPreparedEmpty := false } fuel
          else db
      | none => db

/-- `AdvanceMaxEvictedSeq(prev_max, new_max)`. -/
def AdvanceMaxEvictedSeq (db : WritePreparedTxnDB) (prevMax newMax : ℕ) : WritePreparedTxnDB :=
  let db := delayPrepared newMax db db.preparedTxns.length
  let db := if newMax > db.snapshotsVersion then
      db.UpdateSnapshots o (db.GetSnapshotListFromDB newMax) newMax
    else db
  if prevMax < newMax then { db with maxEvictedSeq := newMax } else db

/-- `AddCommitted(prepare_seq, commit_seq)`: the entry in the slot, if any, is
evicted first. -/
def AddCommitted (db : WritePreparedTxnDB) (prepareSeq commitSeq : ℕ) : WritePreparedTxnDB :=
  let indexedSeq := prepareSeq % o.COMMIT_CACHE_SIZE
  let db := match db.commitCache indexedSeq with
    | some evicted =>
        let prevMax := db.maxEvictedSeq
        let db := if prevMax < evicted.commitSeq then
            db.AdvanceMaxEvictedSeq o prevMax (evicted.commitSeq + o.INC_STEP_FOR_MAX_EVICTED)
          else db
        db.CheckAgainstSnapshots o evicted
    | none => db
  { db with commitCache := Function.update db.commitCache indexedSeq (some ⟨prepareSeq, commitSeq⟩) }

/-! ## Visibility -/

/-- The rest of `IsInSnapshot`, for a transaction not in the commit cache:
still prepared if above `max_evicted_seq_`, else committed unless the old
commit map keeps it for this snapshot. -/
def isInSnapshotEvicted (db : WritePreparedTxnDB) (prepSeq snapshotSeq : ℕ) : Bool :=
  if db.maxEvictedSeq < prepSeq then false
  else if db.maxEvictedSeq < snapshotSeq then true
  else if db.oldCommitMapEmpty then true
  else
    match db.oldCommitMap.lookup snapshotSeq with
    | some vec => !(vec.contains prepSeq)
    | none => true

/-- `IsInSnapshot(prep_seq, snapshot_seq, min_uncommitted)`. -/
def IsInSnapshot (db : WritePreparedTxnDB) (prepSeq snapshotSeq minUncommitted : ℕ) : Bool :=
  if prepSeq = 0 then true
  else if snapshotSeq < prepSeq then false
  else if !db.delayedPreparedEmpty && prepSeq ∈ db.delayedPrepared then false
  else if prepSeq < minUncommitted then true
  else
    match db.commitCache (prepSeq % o.COMMIT_CACHE_SIZE) with
    | some cached =>
        if prepSeq = cached.prepSeq then decide (cached.commitSeq ≤ snapshotSeq)
        else db.isInSnapshotEvicted prepSeq snapshotSeq
    | none => db.isInSnapshotEvicted prepSeq snapshotSeq

/-! ## Runs -/

/-- `GetSnapshot()`: `min_uncommitted` is computed first, then the snapshot is
taken at the last sequence number. -/
def GetSnapshot (db : WritePreparedTxnDB) : (ℕ × ℕ) × WritePreparedTxnDB :=
  let minUncommitted := db.SmallestUnCommittedSeq
  ((db.latestSeq, minUncommitted),
    { db with liveSnapshots := db.liveSnapshots.orderedInsert (· ≤ ·) db.latestSeq })

/-- What a single-threaded client does: prepare at a sequence number, commit
a prepared transaction at a later one, remove it from the prepared set, take a
snapshot, release one. -/
inductive Op where
  | prepare (seq : ℕ)
  | commit (prepareSeq commitSeq : ℕ)
  | removePrepared (prepareSeq : ℕ)
  | snapshot
  | release (snapshotSeq : ℕ)
  deriving DecidableEq, Repr

/-- One step; the database publishes the sequence number of each write. -/
def step (db : WritePreparedTxnDB) : Op → Except String WritePreparedTxnDB
  | .prepare seq => (db.AddPrepared seq).map fun db => { db with latestSeq := seq }
  | .commit p c => .ok { db.AddCommitted o p c with latestSeq := c }
  | .removePrepared p => .ok (db.RemovePrepared p 1)
  | .snapshot => .ok db.GetSnapshot.2
  | .release s => .ok { db with liveSnapshots := db.liveSnapshots.erase s }

/-- A run of steps, stopping at the first refused one. -/
def run (db : WritePreparedTxnDB) : List Op → Except String WritePreparedTxnDB
  | [] => .ok db
  | op :: ops => (db.step o op).bind fun db => run db ops

end WritePreparedTxnDB

end HapDB
