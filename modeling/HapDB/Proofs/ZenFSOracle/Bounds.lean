import HapDB.Env.ZenFSOracle

/-!
# The oracle's bounds fail for small limits and small requests

`UpdateStats` reads the first and last bucket left after erasing the empty
ones; it has nothing to read exactly when every bucket is empty
(`UpdateStats_eq_none_iff`).  A new oracle has no bucket at all, and
`MergeKeys` of an empty batch adds nothing before it calls `UpdateStats`.

`MakeSpace(wanted)` counts `wanted` down with `--wanted == 0` on an unsigned
count.  A request of `0` becomes `2^64 - 1` at the first key erased, so the
second loop, once reached, erases every key of every bucket it visits
(`makeSpaceAny_of_lt`: a count larger than the bucket erases all of it).
`Evict` asks for `evict_rate_ * limit_` keys truncated to an integer, which is
`0` for every limit below `10`: the key that `AddKey` then inserts takes the set
past its limit.
-/

namespace HapDB

namespace ZenFSOracle

/-- `UpdateStats` finds no bucket to read exactly when every bucket is empty. -/
theorem UpdateStats_eq_none_iff (o : ZenFSOracle) :
    o.UpdateStats = none ↔ ∀ b ∈ o.occurrenceMap, b.2 = [] := by
  unfold UpdateStats
  -- the buckets left once the empty ones are erased
  have hkept : o.occurrenceMap.filter (fun b => !b.2.isEmpty) = [] ↔
      ∀ b ∈ o.occurrenceMap, b.2 = [] := by
    simp [List.filter_eq_nil_iff]
  generalize o.occurrenceMap.filter (fun b => !b.2.isEmpty) = kept at hkept ⊢
  cases kept with
  | nil => simpa using hkept
  | cons b bs =>
      have hnot : ¬ ∀ b ∈ o.occurrenceMap, b.2 = [] := fun h => by simpa using hkept.mpr h
      simp only [List.head?_cons, List.getLast?_cons, reduceCtorEq, false_iff]
      exact hnot

/-- A count larger than the bucket never reaches zero in the second loop of
`MakeSpace`: the whole bucket is erased, from the bucket and from the set. -/
theorem makeSpaceAny_of_lt (ks : List Bytes) (keySet : List (Bytes × KeyHint)) (wanted : UInt64)
    (h : ks.length < wanted.toNat) :
    makeSpaceAny ks keySet wanted =
      ([], ks.foldl eraseKey keySet, UInt64.ofNat (wanted.toNat - ks.length), false) := by
  induction ks generalizing keySet wanted with
  | nil => simp [makeSpaceAny]
  | cons k ks ih =>
      simp only [List.length_cons] at h
      have hle : (1 : UInt64) ≤ wanted := by
        rw [UInt64.le_iff_toNat_le]
        simp only [UInt64.toNat_one]
        omega
      have hsub : (wanted - 1).toNat = wanted.toNat - 1 := by
        rw [UInt64.toNat_sub_of_le _ _ hle, UInt64.toNat_one]
      -- the count stays above zero after this key
      have hne : wanted - 1 ≠ 0 := fun h0 => by
        have := congrArg UInt64.toNat h0
        rw [hsub, UInt64.toNat_zero] at this
        omega
      simp only [makeSpaceAny, if_neg hne, List.foldl_cons]
      rw [ih _ _ (by omega), hsub, List.length_cons, Nat.sub_sub, Nat.add_comm 1]

/-! ## Three calls that break the bounds -/

/-- An oracle of limit `1` after `AddKey([1], 9)` and `AddKey([2], 9)`. -/
def overfullOracle : Option (OracleAddKeyStatus × ZenFSOracle) :=
  ((create 1).AddKey [1] 9).bind fun r => r.2.AddKey [2] 9

/-- An oracle of limit `30000` holding `[1]`, aged two versions, and then
`[2]`. -/
def agedPairOracle : Option ZenFSOracle :=
  ((create 30000).AddKey [1] 9).bind fun r => (r.2.Aging.Aging.AddKey [2] 9).map (·.2)

theorem zenfs_oracle_breaks_its_bounds :
    (overfullOracle.map fun r => (r.1, r.2.limit, r.2.keySet.length)) = some (.kNewlyAdded, 1, 2) ∧
      (agedPairOracle.map fun o => o.keySet.length) = some 2 ∧
      ((agedPairOracle.bind fun o => o.makeSpaceLoops 0).map fun o => o.keySet.length) = some 0 ∧
      (create 30000).MergeKeys [] = none := by
  refine ⟨by decide +kernel, by decide +kernel, by decide +kernel, ?_⟩
  -- the batch adds nothing, so `UpdateStats` reads the new oracle's empty map
  have hstats : (create 30000).UpdateStats = none :=
    (UpdateStats_eq_none_iff _).mpr fun b hb => by simp [create] at hb
  simpa [MergeKeys, mergeLoop, groupByOccurrence] using hstats

end ZenFSOracle

end HapDB
