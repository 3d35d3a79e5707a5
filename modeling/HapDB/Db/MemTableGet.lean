import HapDB.Db.VersionGet
import HapDB.Db.RangeTombstoneFragmenter

/-!
# `db/memtable.cc`, `db/memtable_list.cc`, `DBImpl::GetImpl`: a point lookup

`DBImpl::GetImpl` looks the key up in the mutable memtable, then in the
immutable ones, newest first, and then in the current version.  One status,
one value buffer, one merge context and one covering tombstone sequence number
are passed from each to the next: a memtable that meets a value or a deletion
ends the lookup (`found_final_value`), one that meets only merge operands
leaves them in the merge context and the status `MergeInProgress`, and
`Version::Get` starts from there.

A memtable's `Get` raises the covering tombstone sequence number to its own
range tombstones' over the key, and then its rep's `Get` hands `SaveValue`
every entry from the lookup key on until it returns false.  `SaveValue` is the
memtable's counterpart of `GetContext::SaveValue`, with its state spread over
the `Saver`'s flags: `found_final_value`, `merge_in_progress` and the status.

A memtable as one lookup reads it (`MemTableRead`) is the memtable, the range
tombstone iterator `NewRangeTombstoneIterator` gives and the entries its rep
visits from the lookup key on.  Left out: the prefix bloom filter (a memtable
without one), the in-place update locks, statistics, perf counters, the tracer,
the super version's reference counting and the final `fetch` of the value,
which succeeds on a value that is its bytes.  Where the source merges through
a null merge operator, which an `assert` excludes, the model leaves the status
as it is.
-/

namespace HapDB

/-- The `Saver` of `MemTable::Get`, the argument of its `SaveValue` callback. -/
structure Saver where
  status : Status
  key : Bytes
  foundFinalValue : Bool
  mergeInProgress : Bool
  value : Option Bytes
  seq : UInt64
  mergeOperator : Option GetMergeOperator
  mergeContext : List Bytes
  maxCoveringTombstoneSeq : UInt64
  ucmp : Comparator
  callback : Option (UInt64 → Bool)

namespace Saver

/-- `Saver::CheckCallback(seq)`. -/
def CheckCallback (s : Saver) (seq : UInt64) : Bool :=
  match s.callback with
  | some isVisible => isVisible seq
  | none => true

/-- `*s->status = MergeHelper::TimedFullMerge(merge_operator, user_key, base,
merge_context->GetOperands(), s->value, ...)`, when there is a value buffer. -/
def fullMerge (s : Saver) (base : Option Bytes) : Saver :=
  match s.value, s.mergeOperator with
  | some _, some op =>
    match MergeHelper.TimedFullMerge op.toMergeOperator s.key base s.mergeContext.reverse with
    | .ok result => { s with status := Status.OK, value := some result }
    | .error e => { s with status := e }
  | _, _ => s

/-- The `switch (type)` of `SaveValue`, on the type after a covering range
tombstone is taken into account: whether the rep is to go on, and the saver. -/
def saveTyped (s : Saver) (value : Bytes) : ValueType → Bool × Saver
  -- `kTypeValueIndex` falls through to `kTypeValue` after `assert(false)`
  | .kTypeValueIndex | .kTypeValue =>
    let s := { s with status := Status.OK }
    let s := if s.mergeInProgress then s.fullMerge (some value)
      else { s with value := s.value.map fun _ => value }
    (false, { s with foundFinalValue := true })
  | .kTypeDeletion | .kTypeSingleDeletion | .kTypeRangeDeletion =>
    let s := if s.mergeInProgress then s.fullMerge none else { s with status := Status.NotFound }
    (false, { s with foundFinalValue := true })
  -- `kTypeMergeIndex` falls through to `kTypeMerge` after `assert(false)`
  | .kTypeMergeIndex | .kTypeMerge =>
    match s.mergeOperator with
    | none =>
      (false, { s with status := Status.InvalidArgument "merge_operator is not properly initialized."
                       foundFinalValue := true })
    | some op =>
      let s := { s with mergeInProgress := true, mergeContext := s.mergeContext ++ [value] }
      if op.shouldMerge s.mergeContext then (false, { s.fullMerge none with foundFinalValue := true })
      else (true, s)
  -- `assert(false)`
  | _ => (true, s)

/-- The callback `SaveValue(arg, internal_key, value)`: whether the rep is to
hand it the next entry, and the saver after the call. -/
def SaveValue (s : Saver) (parsedKey : ParsedInternalKey) (value : Bytes) : Bool × Saver :=
  if s.ucmp parsedKey.userKey s.key = .eq then
    -- if the value is not in the snapshot, skip it
    if !s.CheckCallback parsedKey.sequence then (true, s)
    else
      let s := { s with seq := parsedKey.sequence }
      if (parsedKey.type == .kTypeValue || parsedKey.type == .kTypeMerge ||
          parsedKey.type == .kTypeValueIndex || parsedKey.type == .kTypeMergeIndex) &&
          decide (parsedKey.sequence < s.maxCoveringTombstoneSeq) then
        s.saveTyped value .kTypeRangeDeletion
      else s.saveTyped value parsedKey.type
  else (false, s)

/-- The loop of `MemTableRep::Get`: `SaveValue` on each entry from the lookup
key on, while it returns true. -/
def saveEntries (s : Saver) : List (ParsedInternalKey × Bytes) → Saver
  | [] => s
  | (parsedKey, value) :: rest =>
    match s.SaveValue parsedKey value with
    | (true, s) => saveEntries s rest
    | (false, s) => s

end Saver

/-- What `MemTable::Get` reads of the memtable. -/
structure MemTable where
  ucmp : Comparator
  mergeOperator : Option GetMergeOperator
  firstSeqno : UInt64

/-- A memtable as one lookup reads it: its range tombstone iterator, if it
has range tombstones, and the entries its rep visits from the lookup key on. -/
structure MemTableRead where
  mem : MemTable
  rangeDel : Option FragmentedRangeTombstoneIterator
  entries : List (ParsedInternalKey × Bytes)

/-- The arguments a lookup passes from one memtable to the next: `*s`,
`*value`, the operands of `*merge_context` (in `PushOperand`'s order) and
`*max_covering_tombstone_seq`. -/
structure LookupState where
  status : Status
  value : Option Bytes
  mergeContext : List Bytes
  maxCoveringTombstoneSeq : UInt64

namespace MemTable

/-- `IsEmpty()`. -/
def IsEmpty (m : MemTable) : Bool := m.firstSeqno == 0

end MemTable

namespace MemTableRead

/-- `*max_covering_tombstone_seq` raised to the largest sequence number of the
memtable's range tombstones over the key. -/
def coveringSeq (m : MemTableRead) (userKey : Bytes) (maxCoveringTombstoneSeq : UInt64) : UInt64 :=
  match m.rangeDel with
  | some rangeDelIter =>
    max maxCoveringTombstoneSeq (rangeDelIter.MaxCoveringTombstoneSeqnum m.mem.ucmp userKey)
  | none => maxCoveringTombstoneSeq

/-- `MemTable::Get(key, value, s, merge_context, max_covering_tombstone_seq,
seq, read_opts, callback)`: whether the lookup ended in this memtable, the
arguments after it, and `*seq` (none when the memtable is empty and leaves it
as it was). -/
def Get (m : MemTableRead) (userKey : Bytes) (callback : Option (UInt64 → Bool)) (st : LookupState) :
    Bool × LookupState × Option UInt64 :=
  if m.mem.IsEmpty then (false, st, none)
  else
    let maxCoveringTombstoneSeq := m.coveringSeq userKey st.maxCoveringTombstoneSeq
    let saver : Saver :=
      { status := st.status, key := userKey, foundFinalValue := false
        mergeInProgress := st.status.IsMergeInProgress, value := st.value, seq := kMaxSequenceNumber
        mergeOperator := m.mem.mergeOperator, mergeContext := st.mergeContext
        maxCoveringTombstoneSeq := maxCoveringTombstoneSeq, ucmp := m.mem.ucmp, callback := callback }
    let saver := saver.saveEntries m.entries
    -- no change to the value, since no put or delete was found
    let status :=
      if !saver.foundFinalValue && saver.mergeInProgress then Status.MergeInProgress else saver.status
    (saver.foundFinalValue,
      ⟨status, saver.value, saver.mergeContext, maxCoveringTombstoneSeq⟩, some saver.seq)

end MemTableRead

/-- `MemTableListVersion::GetFromList(list, key, value, s, merge_context,
max_covering_tombstone_seq, seq, read_opts, callback)`: whether the lookup
ended in one of the memtables, newest first, the arguments after them, and
`*seq`, the sequence number of the newest entry of the key they met. -/
def GetFromList (userKey : Bytes) (callback : Option (UInt64 → Bool)) :
    List MemTableRead → LookupState → UInt64 → Bool × LookupState × UInt64
  | [], st, seq => (false, st, seq)
  | m :: rest, st, seq =>
    let (done, st, currentSeq) := m.Get userKey callback st
    let seq := if seq = kMaxSequenceNumber then currentSeq.getD kMaxSequenceNumber else seq
    if done then (true, st, seq)
    else if !st.status.ok && !st.status.IsMergeInProgress && !st.status.IsNotFound then (false, st, seq)
    else GetFromList userKey callback rest st seq

/-- `MemTableListVersion::Get`: `GetFromList` over the immutable memtables, from
`*seq = kMaxSequenceNumber`. -/
def MemTableListGet (userKey : Bytes) (callback : Option (UInt64 → Bool)) (imm : List MemTableRead)
    (st : LookupState) : Bool × LookupState × UInt64 :=
  GetFromList userKey callback imm st kMaxSequenceNumber

namespace DBImpl

/-- The lookup of `GetImpl` in the memtables: the mutable one, then the
immutable ones if it did not end the lookup, unless the read skips them.
Whether a memtable ended the lookup, and the arguments after them. -/
def GetFromMemtables (mem : MemTableRead) (imm : List MemTableRead) (userKey : Bytes)
    (callback : Option (UInt64 → Bool)) (skipMemtable : Bool) (st : LookupState) : Bool × LookupState :=
  if skipMemtable then (false, st)
  else
    match mem.Get userKey callback st with
    | (true, st, _) => (true, st)
    | (false, st, _) =>
      if st.status.ok || st.status.IsMergeInProgress then
        let (done, st, _) := MemTableListGet userKey callback imm st
        (done, st)
      else (false, st)

/-- `DBImpl::GetImpl(read_options, column_family, key, lazy_val, value_found,
callback)` on a super version whose mutable memtable is `mem`, immutable
memtables `imm` and current version the picker input `inp` with the table
reads `readFile`: the status and `*lazy_val`.  `skipMemtable` is
`read_tier == kPersistedTier` with unpersisted data. -/
def GetImpl (mem : MemTableRead) (imm : List MemTableRead) (inp : PickerInput)
    (readFile : ℕ × ℕ → GetContext → Status × GetContext) (mergeOperator : Option GetMergeOperator)
    (transToCombined : Bytes → UInt64 → Bytes → Bytes) (skipMemtable : Bool)
    (callback : Option (UInt64 → Bool)) (lazyVal : Option Bytes) : Status × Option Bytes :=
  -- first look in the memtable, then in the immutable memtables
  match GetFromMemtables mem imm inp.userKey callback skipMemtable ⟨Status.OK, lazyVal, [], 0⟩ with
  | (true, st) => (st.status, st.value)
  | (false, st) =>
    if !skipMemtable && !st.status.ok && !st.status.IsMergeInProgress then (st.status, st.value)
    else
      let (status, g, _) := Version.Get inp readFile mergeOperator transToCombined st.value st.status
        (some st.mergeContext) (some st.maxCoveringTombstoneSeq) (some false) (some (0 - 1)) callback
      (status, g.lazyVal)

end DBImpl

end HapDB
