import HapDB.Db.MergeHelper
import HapDB.Db.FilePicker

/-!
# `table/get_context.cc`: `GetContext`, the state of a point lookup

A table reader hands every entry it meets from the lookup key on, newest
first, to `GetContext::SaveValue`, until that returns false.  An entry of
another user key ends the lookup in that table and leaves the context as it
was; an entry the read callback does not see is skipped.  Every other entry
moves the state:

* `kNotFound`, the start: a value is the answer (`kFound`), a deletion makes
  the key `kDeleted`, and a merge operand starts `kMerge`.
* `kMerge`: the operands met so far are in the merge context.  A value or a
  deletion below them is merged with them (`TimedFullMerge`), a further
  operand joins them, and the merge operator's `ShouldMerge` may merge them
  early.
* `kFound`, `kDeleted` and `kCorrupt` (a merge that failed) end the lookup:
  `SaveValue` marks the context finished and returns false.

A value or merge operand under a newer range tombstone counts as a deletion,
and an index entry is turned into its value by the separate helper first.

`SaveValue` returns whether more entries are needed and sets `*matched` when
the entry has the lookup key; the model returns both with the context after
the call.  The pointers the context writes through are options, `none` for a
null pointer: `lazyVal` is `*lazy_val_`, `mergeContext` the operands of
`*merge_context_` in the order `PushOperand` leaves them (that of
`GetOperandsDirectionBackward`, newest first), `seq` is `*seq_`, and
`separateHelper` is the helper's `TransToCombined`.

Left out: the statistics and the sample flag, `value_found_` (which only
`MarkKeyMayExist` writes), pinning and the value's comparator, and the lazy
buffers' fetches (`dump` succeeds: a value is its bytes).  Where the source
merges through a null merge operator, which an `assert` excludes and which no
store reaches (merge writes are refused without one), the model only sets the
state.
-/

namespace HapDB

/-- `GetContext::GetState`. -/
inductive GetState where
  | kNotFound
  | kFound
  | kDeleted
  | kCorrupt
  | kMerge
  deriving DecidableEq, Repr

/-- The merge operator as a point lookup calls it: `FullMergeV2` through
`TimedFullMerge`, and `ShouldMerge` on the operands newest first. -/
structure GetMergeOperator extends MergeOperator where
  shouldMerge : List Bytes → Bool

/-- The fields of `GetContext` that `SaveValue` reads and writes. -/
structure GetContext where
  ucmp : Comparator
  mergeOperator : Option GetMergeOperator
  state : GetState
  userKey : Bytes
  lazyVal : Option Bytes
  corrupt : Status
  mergeContext : Option (List Bytes)
  separateHelper : Option (Bytes → UInt64 → Bytes → Bytes)
  maxCoveringTombstoneSeq : Option UInt64
  seq : Option UInt64
  minSeqType : UInt64
  callback : Option (UInt64 → Bool)
  isIndex : Bool
  isFinished : Bool

namespace GetContext

/-- The constructor: `*seq_` starts at `kMaxSequenceNumber`. -/
def new (ucmp : Comparator) (mergeOperator : Option GetMergeOperator) (initState : GetState)
    (userKey : Bytes) (lazyVal : Option Bytes) (mergeContext : Option (List Bytes))
    (separateHelper : Option (Bytes → UInt64 → Bytes → Bytes))
    (maxCoveringTombstoneSeq : Option UInt64) (seq : Option UInt64)
    (callback : Option (UInt64 → Bool)) : GetContext where
  ucmp := ucmp
  mergeOperator := mergeOperator
  state := initState
  userKey := userKey
  lazyVal := lazyVal
  corrupt := Status.Corruption ""
  mergeContext := mergeContext
  separateHelper := separateHelper
  maxCoveringTombstoneSeq := maxCoveringTombstoneSeq
  seq := seq.map fun _ => kMaxSequenceNumber
  minSeqType := 0
  callback := callback
  isIndex := false
  isFinished := false

/-- `CheckCallback(seq)`: whether the read's snapshot sees the sequence number. -/
def CheckCallback (g : GetContext) (seq : UInt64) : Bool :=
  match g.callback with
  | some isVisible => isVisible seq
  | none => true

/-- `SetMinSequenceAndType`. -/
def SetMinSequenceAndType (g : GetContext) (minSeqType : UInt64) : GetContext :=
  { g with minSeqType := minSeqType }

/-- `merge_context_->GetOperands()`: the operands oldest first. -/
def operands (g : GetContext) : List Bytes := (g.mergeContext.getD []).reverse

/-- The `Finish` lambda of `SaveValue`. -/
def Finish (g : GetContext) : Bool × GetContext := (false, { g with isFinished := true })

/-- `*lazy_val_ = value`, or `value.dump(*lazy_val_)`, when there is a buffer. -/
def setValue (g : GetContext) (value : Bytes) : GetContext :=
  { g with lazyVal := g.lazyVal.map fun _ => value }

/-- `state_ = kFound` and the full merge of the operands onto `base` into
`*lazy_val_`; the `OK` lambda keeps a failed merge as the corruption. -/
def fullMerge (g : GetContext) (base : Option Bytes) : GetContext :=
  let g := { g with state := .kFound }
  match g.lazyVal, g.mergeOperator with
  | some _, some op =>
    match MergeHelper.TimedFullMerge op.toMergeOperator g.userKey base g.operands with
    | .ok result => { g with lazyVal := some result }
    | .error s => { g with corrupt := s, state := .kCorrupt }
  | _, _ => g

/-- The case `kTypeValue`, which `kTypeValueIndex` falls through to. -/
def saveValueCase (g : GetContext) (value : Bytes) : Bool × GetContext :=
  if g.separateHelper.isNone then Finish ({ g with state := .kFound }.setValue value)
  else
    match g.state with
    | .kNotFound => Finish ({ g with state := .kFound }.setValue value)
    | .kMerge => Finish (g.fullMerge (some value))
    -- unreachable: `assert(state_ == kNotFound || state_ == kMerge)`
    | _ => Finish g

/-- The case of `kTypeDeletion`, `kTypeSingleDeletion` and `kTypeRangeDeletion`. -/
def saveDeletionCase (g : GetContext) : Bool × GetContext :=
  match g.state with
  | .kNotFound => Finish { g with state := .kDeleted }
  | .kMerge => Finish (g.fullMerge none)
  -- unreachable: `assert(state_ == kNotFound || state_ == kMerge)`
  | _ => Finish g

/-- The case `kTypeMerge`, which `kTypeMergeIndex` falls through to. -/
def saveMergeCase (g : GetContext) (value : Bytes) : Bool × GetContext :=
  if g.separateHelper.isNone then Finish ({ g with state := .kMerge }.setValue value)
  else
    let g := { g with state := .kMerge, mergeContext := g.mergeContext.map (· ++ [value]) }
    match g.mergeOperator with
    | some op =>
      if op.shouldMerge (g.mergeContext.getD []) then Finish (g.fullMerge none) else (true, g)
    | none => (true, g)

/-- The `switch (type)` of `SaveValue`, on the type after a covering range
tombstone is taken into account. -/
def saveTyped (g : GetContext) (sequence : UInt64) : ValueType → Bytes → Bool × GetContext
  | .kTypeValueIndex, value =>
    match g.separateHelper with
    | none => Finish ({ g with state := .kFound, isIndex := true }.setValue value)
    | some transToCombined => g.saveValueCase (transToCombined g.userKey sequence value)
  | .kTypeValue, value => g.saveValueCase value
  | .kTypeDeletion, _ | .kTypeSingleDeletion, _ | .kTypeRangeDeletion, _ => g.saveDeletionCase
  | .kTypeMergeIndex, value =>
    match g.separateHelper with
    | none => Finish ({ g with state := .kMerge, isIndex := true }.setValue value)
    | some transToCombined => g.saveMergeCase (transToCombined g.userKey sequence value)
  | .kTypeMerge, value => g.saveMergeCase value
  -- unreachable: `assert(false)`, after which `SaveValue` returns false
  | _, _ => (false, g)

/-- Whether a range tombstone newer than the entry covers it: values and merge
operands only. -/
def coveredByTombstone (g : GetContext) (parsedKey : ParsedInternalKey) : Bool :=
  (parsedKey.type == .kTypeValue || parsedKey.type == .kTypeMerge ||
      parsedKey.type == .kTypeValueIndex || parsedKey.type == .kTypeMergeIndex) &&
    g.maxCoveringTombstoneSeq.any (parsedKey.sequence < ·)

/-- `SaveValue(parsed_key, value, &matched)`: whether more entries are needed,
whether the entry has the lookup key, and the context after the call. -/
def SaveValue (g : GetContext) (parsedKey : ParsedInternalKey) (value : Bytes) :
    Bool × Bool × GetContext :=
  if g.ucmp parsedKey.userKey g.userKey = .eq then
    -- for map sst, this key is masked
    if PackSequenceAndType parsedKey.sequence parsedKey.type < g.minSeqType then (false, false, g)
    -- an entry the snapshot does not see is skipped
    else if !g.CheckCallback parsedKey.sequence then (true, true, g)
    else
      let g := if g.seq = some kMaxSequenceNumber then { g with seq := some parsedKey.sequence } else g
      let r := if g.coveredByTombstone parsedKey then g.saveTyped parsedKey.sequence .kTypeRangeDeletion []
        else g.saveTyped parsedKey.sequence parsedKey.type value
      (r.1, true, r.2)
  else (false, false, g)

/-- The loop of a table reader's `Get` (`MockTableReader::Get`, and the loop
over a data block in `BlockBasedTable::Get`): `SaveValue` on each entry from
the lookup key on, until it returns false. -/
def saveEntries (g : GetContext) : List (ParsedInternalKey × Bytes) → GetContext
  | [] => g
  | (parsedKey, value) :: rest =>
    match g.SaveValue parsedKey value with
    | (true, _, g) => saveEntries g rest
    | (false, _, g) => g

end GetContext

end HapDB
