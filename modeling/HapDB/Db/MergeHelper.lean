import HapDB.Db.RangeDelAggregator

/-!
# `db/merge_helper.cc`: the merge operands of one user key during compaction

`MergeUntil` starts at a merge operand and reads the versions of its user key,
newest first, collecting the operands it may fold together.  It stops at
another user key, at a version the previous snapshot `stop_before` sees, or at
a base version: a put, a value index or a deletion.  At a base it folds the
operands onto the base with `FullMergeV2` and consumes the base; when the whole
history of the key was seen at the bottom level it folds them onto nothing;
otherwise it tries to fold them into one operand with `PartialMergeMulti`.  The
result stays in the helper, in `keys_` and in the operands of
`merge_context_`, both oldest first; `MergeOutputIterator` reads them back
newest first.

The iterator is the list of entries from its position on, each a parsed key
and its value; `iter->Next()` drops the head.  The merge operator is given by
the results of its two calls, `none` for a call that fails.  A compaction
filter is what `FilterV2` returns on a merge operand: the decision, the new
value and the user key to skip until.  Corrupt keys, statistics and timers are
left out.
-/

namespace HapDB

/-- `CompactionFilter::Decision`. -/
inductive CompactionFilterDecision where
  | kKeep
  | kRemove
  | kChangeValue
  | kRemoveAndSkipUntil
  deriving DecidableEq, Repr

/-- The calls `MergeHelper` makes on the user's merge operator, operands oldest
first: `FullMergeV2` onto an existing value or onto nothing, and
`PartialMergeMulti`; `none` where the operator reports failure. -/
structure MergeOperator where
  fullMergeV2 : Bytes → Option Bytes → List Bytes → Option Bytes
  partialMergeMulti : Bytes → List Bytes → Option Bytes
  allowSingleOperand : Bool

/-- `CompactionFilter::FilterV2` on a merge operand of a user key: the decision,
the value it changes the operand to, and the user key to skip until. -/
abbrev MergeOperandFilter := Bytes → Bytes → CompactionFilterDecision × Bytes × Bytes

/-- `MergeHelper`: its configuration, and what `MergeUntil` leaves in it. -/
structure MergeHelper where
  userComparator : Comparator
  userMergeOperator : MergeOperator
  compactionFilter : Option MergeOperandFilter
  shuttingDown : Bool
  latestSnapshot : UInt64
  snapshotChecker : Option (UInt64 → UInt64 → Bool)
  keys : List ParsedInternalKey
  operands : List Bytes
  hasCompactionFilterSkipUntil : Bool
  compactionFilterSkipUntil : Bytes

/-- What `MergeUntil` returns and leaves: its status, the helper, the range
deletion aggregator (whose position `ShouldDelete` moves), and the entries from
the iterator's position on. -/
structure MergeUntilResult where
  status : Status
  helper : MergeHelper
  rangeDelAgg : Option CompactionRangeDelAggregator
  input : List (ParsedInternalKey × Bytes)

namespace MergeHelper

/-- `TimedFullMerge`: the value itself when there are no operands (the callers
pass one then), otherwise `FullMergeV2`, and `Corruption` when it fails. -/
def TimedFullMerge (op : MergeOperator) (key : Bytes) (value : Option Bytes)
    (operands : List Bytes) : Except Status Bytes :=
  if operands.isEmpty then .ok (value.getD [])
  else
    match op.fullMergeV2 key value operands with
    | some result => .ok result
    | none => .error (Status.Corruption "Error: Could not perform merge.")

/-- `FilterMerge(user_key, value)`: the filter's decision, where a skip-until
key not above the user key is taken as `kKeep`. -/
def FilterMerge (h : MergeHelper) (userKey value : Bytes) :
    CompactionFilterDecision × Bytes × Bytes :=
  match h.compactionFilter with
  | none => (.kKeep, [], [])
  | some filter =>
      let (ret, newValue, skipUntil) := filter userKey value
      if ret = .kRemoveAndSkipUntil ∧ h.userComparator skipUntil userKey ≠ .gt then
        (.kKeep, newValue, skipUntil)
      else (ret, newValue, skipUntil)

/-- `range_del_agg->ShouldDelete(key, kForwardTraversal)`, when there is an
aggregator. -/
def shouldDelete (ucmp : Comparator) (agg : Option CompactionRangeDelAggregator)
    (key : ParsedInternalKey) : Bool × Option CompactionRangeDelAggregator :=
  match agg with
  | none => (false, none)
  | some a =>
      let r := a.ShouldDelete ucmp key .kForwardTraversal
      (r.1, some r.2)

/-- The operands collected, replaced by one: `keys_.back()` rewritten with the
sequence number of `orig_ikey` and the type `type`, and `value`. -/
def replaceOperands (h : MergeHelper) (orig : ParsedInternalKey) (type : ValueType)
    (value : Bytes) : MergeHelper :=
  { h with
    keys := h.keys.getLast?.toList.map fun k => { k with sequence := orig.sequence, type := type }
    operands := [value] }

/-- The end of `MergeUntil` once the loop is left: nothing to do when every
operand was filtered out; a full merge onto nothing when the whole history of
the key was seen at the bottom level; otherwise `MergeInProgress`, with the
operands folded into one by `PartialMergeMulti` when there are two or more (or
one, where the operator allows it) and it succeeds. -/
def afterLoop (h : MergeHelper) (orig : ParsedInternalKey) (surelySeenTheBeginning : Bool) :
    Status × MergeHelper :=
  if h.operands.isEmpty then (Status.OK, h)
  else if surelySeenTheBeginning then
    match TimedFullMerge h.userMergeOperator orig.userKey none h.operands with
    | .ok result => (Status.OK, h.replaceOperands orig .kTypeValue result)
    | .error s => (s, h)
  else if 2 ≤ h.operands.length ∨
      (h.userMergeOperator.allowSingleOperand = true ∧ h.operands.length = 1) then
    match h.userMergeOperator.partialMergeMulti orig.userKey h.operands with
    | some result => (Status.MergeInProgress, h.replaceOperands orig .kTypeMerge result)
    | none => (Status.MergeInProgress, h)
  else (Status.MergeInProgress, h)

/-- The loop of `MergeUntil(user_key, iter, range_del_agg, stop_before,
at_bottom)` from the iterator's position on.  `first` holds for the entry the
call starts at, which no stop condition is checked against, and `orig` is
`orig_ikey`. -/
def mergeLoop (stopBefore : UInt64) (atBottom : Bool) :
    MergeHelper → Bool → ParsedInternalKey → Option CompactionRangeDelAggregator →
      List (ParsedInternalKey × Bytes) → MergeUntilResult
  | h, _, orig, agg, [] =>
      -- the iterator is exhausted
      let (s, h) := h.afterLoop orig atBottom
      ⟨s, h, agg, []⟩
  | h, first, orig, agg, (ikey, val) :: rest =>
      if h.shuttingDown then ⟨Status.ShutdownInProgress "", h, agg, (ikey, val) :: rest⟩
      else if first = false ∧ h.userComparator ikey.userKey orig.userKey ≠ .eq then
        -- another user key
        let (s, h) := h.afterLoop orig atBottom
        ⟨s, h, agg, (ikey, val) :: rest⟩
      else if first = false ∧ 0 < stopBefore ∧ ikey.sequence ≤ stopBefore ∧
          (h.snapshotChecker.map fun c => c ikey.sequence stopBefore).getD true = true then
        -- a version the previous snapshot sees
        let (s, h) := h.afterLoop orig false
        ⟨s, h, agg, (ikey, val) :: rest⟩
      else if ikey.type ≠ .kTypeMerge ∧ ikey.type ≠ .kTypeMergeIndex then
        -- a put, a value index or a deletion
        if h.keys.isEmpty then ⟨Status.OK, h, agg, (ikey, val) :: rest⟩
        else
          let isValue := ikey.type = .kTypeValue ∨ ikey.type = .kTypeValueIndex
          let (deleted, agg) :=
            if isValue then shouldDelete h.userComparator agg ikey else (false, agg)
          let base := if isValue ∧ deleted = false then some val else none
          match TimedFullMerge h.userMergeOperator ikey.userKey base h.operands with
          | .ok result => ⟨Status.OK, h.replaceOperands orig .kTypeValue result, agg, rest⟩
          | .error s => ⟨s, h, agg, rest⟩
      else
        -- a merge operand
        let (deleted, agg) := shouldDelete h.userComparator agg ikey
        let val := if deleted then [] else val
        let filter := if deleted then CompactionFilterDecision.kRemove else .kKeep
        let (filter, newValue, skipUntil) :=
          if ikey.sequence ≤ h.latestSnapshot then (filter, [], [])
          else if filter = .kKeep then h.FilterMerge orig.userKey val
          else (filter, [], [])
        if filter = .kKeep ∨ filter = .kChangeValue then
          let keys := ikey :: h.keys
          -- the first operand kept anchors `orig_ikey`
          let orig := if keys.length = 1 then ikey else orig
          let operand := if filter = .kKeep then val else newValue
          mergeLoop stopBefore atBottom { h with keys := keys, operands := operand :: h.operands }
            false orig agg rest
        else if filter = .kRemoveAndSkipUntil then
          ⟨Status.OK,
            { h with
              keys := [], operands := [], hasCompactionFilterSkipUntil := true,
              compactionFilterSkipUntil := skipUntil },
            agg, (ikey, val) :: rest⟩
        else mergeLoop stopBefore atBottom h false orig agg rest

/-- `MergeUntil(user_key, iter, range_del_agg, stop_before, at_bottom)`, with
the iterator at its first entry (a merge operand, which the caller asserts). -/
def MergeUntil (h : MergeHelper) (input : List (ParsedInternalKey × Bytes))
    (rangeDelAgg : Option CompactionRangeDelAggregator) (stopBefore : UInt64) (atBottom : Bool) :
    MergeUntilResult :=
  let h := { h with keys := [], operands := [], hasCompactionFilterSkipUntil := false }
  match input with
  | [] => ⟨Status.OK, h, rangeDelAgg, []⟩
  | (ikey, _) :: _ => mergeLoop stopBefore atBottom h true ikey rangeDelAgg input

/-- `MergeOutputIterator` from `SeekToFirst` to its end: `keys_` and the
operands, newest first. -/
def outputs (h : MergeHelper) : List (ParsedInternalKey × Bytes) :=
  (h.keys.zip h.operands).reverse

end MergeHelper

end HapDB
