import HapDB.Db.CompactionIterator

/-!
# Obsolete records are counted before the iterator decides to drop them

With tracking on, `deprecated_count` gets one more record whenever a round
meets a later version of the current user key that is a value index
(`SumDeprecatedRecordCount_setCurrentKey_of_same`).  That happens in the step
that makes the entry the current key, before the round decides anything: a
version kept for an older snapshot is counted as obsolete all the same, and
then also counted as an output.  `ProcessKeyValueCompaction` asserts that the
input records are the obsolete ones plus the outputs, which two versions of
one key on either side of a snapshot break (`kept_older_version_counted_obsolete`).
-/

namespace HapDB

namespace CompactionIterator

variable {ucmp : Comparator}

/-- One more record on an edge adds one to the sum. -/
theorem SumDeprecatedRecordCount_bumpEdge (edge : UInt64 × UInt64) :
    ∀ counts : List ((UInt64 × UInt64) × ℕ),
      SumDeprecatedRecordCount (bumpEdge edge counts) = SumDeprecatedRecordCount counts + 1
  | [] => by simp [bumpEdge, SumDeprecatedRecordCount]
  | (e, n) :: rest => by
      have ih := SumDeprecatedRecordCount_bumpEdge edge rest
      simp only [SumDeprecatedRecordCount, List.map_cons, List.sum_cons] at ih ⊢
      unfold bumpEdge
      split
      · simp only [List.map_cons, List.sum_cons]
        omega
      · simp only [List.map_cons, List.sum_cons]
        omega

/-- A later version of the current user key that is a value index counts one
obsolete record as soon as it becomes the current key. -/
theorem SumDeprecatedRecordCount_setCurrentKey_of_same (it : CompactionIterator)
    (key : ParsedInternalKey) (value : Bytes) (hcur : it.hasCurrentUserKey = true)
    (hsame : ucmp key.userKey it.currentUserKey = .eq) (htrack : it.trackObsoleteRecordsFlag = true)
    (hindex : key.type = .kTypeValueIndex) :
    SumDeprecatedRecordCount (it.setCurrentKey ucmp key value).deprecatedCount =
      SumDeprecatedRecordCount it.deprecatedCount + 1 := by
  simp only [setCurrentKey, hcur, hsame, htrack, hindex, Bool.not_true, bne_self_eq_false,
    Bool.or_self, Bool.false_eq_true, if_false, decide_true, Bool.and_self, if_true]
  exact SumDeprecatedRecordCount_bumpEdge _ _

/-! ## Two versions on either side of a snapshot -/

/-- A compaction, not at the bottommost level, of two versions of `[2]`, both
value indexes: at `10` in blob `7` and at `5` in blob `8`, with the snapshot
`7` between them, and obsolete-record tracking on. -/
def twoStripeCompaction : CompactionIterator :=
  (CompactionIterator.create
    [(⟨[2], 10, .kTypeValueIndex⟩, EncodeFileNumber 7), (⟨[2], 5, .kTypeValueIndex⟩, EncodeFileNumber 8)]
    none [7] kMaxSequenceNumber (some ⟨false, false, false, fun _ => false⟩) 0
    (CompactionRangeDelAggregator.create [7])).SetTrackObsoleteRecordsFlag true

theorem kept_older_version_counted_obsolete :
    (twoStripeCompaction.outputs bytewiseCompare).length = 2 ∧
      (twoStripeCompaction.exhausted bytewiseCompare).numInputRecords = 2 ∧
      (twoStripeCompaction.exhausted bytewiseCompare).deprecatedCount = [((7, 8), 1)] ∧
      (twoStripeCompaction.exhausted bytewiseCompare).numInputRecords ≠
        SumDeprecatedRecordCount (twoStripeCompaction.exhausted bytewiseCompare).deprecatedCount +
          (twoStripeCompaction.outputs bytewiseCompare).length := by
  decide +kernel

end CompactionIterator

end HapDB
