import HapDB.Db.LevelOverlap

/-!
# A query that meets no file leaves `next_smallest` as it was

`GetOverlappingInputs` promises, through `next_smallest`, the smallest key of
the first file after the files it returns, or a null pointer when there is no
such file.  Above level 0 the binary search either finds a file that meets the
range (`overlapSearch_meets`: a position of the level whose file meets it) or
finds none, and it finds none exactly when no file of the level meets the
range (`overlapSearch_eq_none`).  In that case the source assigns null to its
own copy of the pointer `next_smallest` rather than to `*next_smallest`, so the
whole query clears `inputs`, sets `*file_index` to `-1` and leaves the
caller's pointer where it was (`GetOverlappingInputs_of_no_overlap`): a caller
that reuses its pointer reads the key of an earlier query
(`no_overlap_keeps_stale_next_smallest`).
-/

namespace HapDB

namespace LevelOverlap

variable (ucmp : Comparator)

/-- A file meets `[begin, end]`: it does not end before `begin` or start after
`end`, under `sstableKeyCompare`. -/
def Meets (begin end_ : Option InternalKey) (f : FileMetaData) : Prop :=
  sstableKeyCompareFrom ucmp begin f.largest ≠ .gt ∧ sstableKeyCompareTo ucmp f.smallest end_ ≠ .gt

instance (begin end_ : Option InternalKey) (f : FileMetaData) : Decidable (Meets ucmp begin end_ f) :=
  inferInstanceAs (Decidable (_ ∧ _))

variable {ucmp}

/-- Where the binary search stops, inside `[min, max]` when that lies in the
level, is a file that meets the range. -/
theorem overlapSearch_meets {files : List FileMetaData} {begin end_ : Option InternalKey} :
    ∀ (fuel : ℕ) (min max mid : ℤ), overlapSearch ucmp files begin end_ false fuel min max = some mid →
      0 ≤ min → max < files.length →
        0 ≤ mid ∧ mid < files.length ∧ Meets ucmp begin end_ (files.getD mid.toNat {})
  | 0, _, _, _, h, _, _ => by simp [overlapSearch] at h
  | fuel + 1, min, max, mid, h, hmin, hmax => by
      simp only [overlapSearch, Bool.not_false, Bool.true_and, Bool.false_and, Bool.or_false] at h
      split_ifs at h with hle hbegin hend
      · -- the middle file ends before `begin`: the upper half
        exact overlapSearch_meets fuel _ max mid h (by omega) hmax
      · -- the middle file starts after `end`: the lower half
        exact overlapSearch_meets fuel min _ mid h hmin (by omega)
      · -- the search stops at the middle file, which meets the range
        cases h
        refine ⟨by omega, by omega, ?_, ?_⟩
        · simpa using hbegin
        · simpa using hend

/-- When no file of the level meets the range, the binary search finds none. -/
theorem overlapSearch_eq_none {files : List FileMetaData} {begin end_ : Option InternalKey}
    (hnone : ∀ f ∈ files, ¬ Meets ucmp begin end_ f) (fuel : ℕ) (min max : ℤ) (hmin : 0 ≤ min)
    (hmax : max < files.length) :
    overlapSearch ucmp files begin end_ false fuel min max = none := by
  cases h : overlapSearch ucmp files begin end_ false fuel min max with
  | none => rfl
  | some mid =>
      obtain ⟨hmid, hlt, hmeets⟩ := overlapSearch_meets fuel min max mid h hmin hmax
      have hidx : mid.toNat < files.length := by omega
      rw [List.getD_eq_getElem _ _ hidx] at hmeets
      exact absurd hmeets (hnone _ (List.getElem_mem hidx))

/-- A query of a level above 0 that no file meets, with no hint: `inputs` is
cleared and `*file_index` set to `-1`, and `*next_smallest` is left as the
caller had it. -/
theorem GetOverlappingInputs_of_no_overlap (levels : List (List FileMetaData))
    (numNonEmptyLevels level : ℕ) (hlevel : level < numNonEmptyLevels) (hpos : 0 < level)
    (begin end_ : Option InternalKey) (out : OverlapOut) (expandRange : Bool)
    (hnone : ∀ f ∈ levels.getD level [], ¬ Meets ucmp begin end_ f) :
    GetOverlappingInputs ucmp levels numNonEmptyLevels level begin end_ out (-1) expandRange =
      { out with inputs := [], fileIndex := out.fileIndex.map fun _ => -1 } := by
  have hsearch := overlapSearch_eq_none hnone ((levels.getD level []).length + 1) 0
    ((levels.getD level []).length - 1) le_rfl (by omega)
  simp only [GetOverlappingInputs, GetOverlappingInputsRangeBinarySearch, Nat.not_le.mpr hlevel, hpos,
    if_false, if_true, ne_eq, not_true_eq_false, hsearch]

/-! ## A stale key from an earlier query -/

/-- The key `[0]` at sequence number `9`, left in the caller's buffer by an
earlier query. -/
def staleKey : InternalKey := InternalKey.make [0] 9 .kTypeValue

/-- Level 1 holds one file, from `[1]` to `[2]`. -/
def lowerFile : FileMetaData :=
  { smallest := InternalKey.make [1] 5 .kTypeValue, largest := InternalKey.make [2] 5 .kTypeValue }

/-- A range after that file: `[3]` at sequence number `1`. -/
def afterKey : InternalKey := InternalKey.make [3] 1 .kTypeValue

theorem no_overlap_keeps_stale_next_smallest :
    (∀ f ∈ [lowerFile], ¬ Meets bytewiseCompare (some afterKey) (some afterKey) f) ∧
      (GetOverlappingInputs bytewiseCompare [[], [lowerFile]] 2 1 (some afterKey) (some afterKey)
        ⟨[], none, some (some staleKey)⟩ (-1) false).nextSmallest = some (some staleKey) := by
  have hnone : ∀ f ∈ [lowerFile], ¬ Meets bytewiseCompare (some afterKey) (some afterKey) f := by
    decide
  refine ⟨hnone, ?_⟩
  rw [GetOverlappingInputs_of_no_overlap [[], [lowerFile]] 2 1 (by decide) (by decide) _ _ _ _ hnone]

end LevelOverlap

end HapDB
