import HapDB.Db.FileMap

/-!
# `db/file_indexer.cc`: fractional cascading between levels

For every file of a level `1 ≤ level < num_levels - 1`, `UpdateIndex`
precomputes four positions in the next level, one for each way a looked-up key
can compare with the file's smallest or largest user key, so that a point
lookup that has compared its key with the file narrows its binary search in the
next level to `[left, right]` (`GetNextLevelIndex`).

The four positions come from merge walks over the two levels' files:
`CalculateLB` from the front, `CalculateRB` from the back, each with its own
comparison of an upper file's key with a lower file's key.  The walks run on
fuel, with one round more than the two levels have files; every round moves at
least one of the two indices.  `int32_t` positions are integers.
-/

namespace HapDB

namespace FileIndexer

/-- `IndexUnit`: for one file of a level, the positions in the next level that
the four comparisons give. -/
structure IndexUnit where
  smallestLb : ℤ := 0
  largestLb : ℤ := 0
  smallestRb : ℤ := -1
  largestRb : ℤ := -1
  deriving DecidableEq, Repr

/-- `kLevelMaxIndex`: the right bound that means "the whole level". -/
def kLevelMaxIndex : ℤ := 2 ^ 31 - 1

/-- The loops of `CalculateLB` from `upperIdx` and `lowerIdx`: on equal keys
the upper file gets the lower index and both move on; when the upper key is
greater the lower index moves on; when it is smaller the upper file gets the
lower index and the upper index moves on.  Once either level is exhausted,
every upper file left gets the lower level's size. -/
def calculateLBLoop (cmpOp : FileMetaData → FileMetaData → Ordering)
    (setIndex : IndexUnit → ℤ → IndexUnit) (upper lower : List FileMetaData) :
    ℕ → ℕ → ℕ → List IndexUnit → List IndexUnit
  | 0, _, _, index => index
  | fuel + 1, upperIdx, lowerIdx, index =>
      match upper[upperIdx]?, lower[lowerIdx]? with
      | some u, some l =>
          match cmpOp u l with
          | .eq => calculateLBLoop cmpOp setIndex upper lower fuel (upperIdx + 1) (lowerIdx + 1)
              (index.modify upperIdx (setIndex · lowerIdx))
          | .gt => calculateLBLoop cmpOp setIndex upper lower fuel upperIdx (lowerIdx + 1) index
          | .lt => calculateLBLoop cmpOp setIndex upper lower fuel (upperIdx + 1) lowerIdx
              (index.modify upperIdx (setIndex · lowerIdx))
      | _, _ => index.mapIdx fun i unit =>
          if upperIdx ≤ i then setIndex unit lower.length else unit

/-- `FileIndexer::CalculateLB`. -/
def CalculateLB (upper lower : List FileMetaData) (cmpOp : FileMetaData → FileMetaData → Ordering)
    (setIndex : IndexUnit → ℤ → IndexUnit) (index : List IndexUnit) : List IndexUnit :=
  calculateLBLoop cmpOp setIndex upper lower (upper.length + lower.length + 1) 0 0 index

/-- The loops of `CalculateRB` from `upperIdx` and `lowerIdx` down: on equal
keys the upper file gets the lower index and both move down; when the upper key
is smaller the lower index moves down; when it is greater the upper file gets
the lower index and the upper index moves down.  Once either level is
exhausted, every upper file left gets `-1`. -/
def calculateRBLoop (cmpOp : FileMetaData → FileMetaData → Ordering)
    (setIndex : IndexUnit → ℤ → IndexUnit) (upper lower : List FileMetaData) :
    ℕ → ℤ → ℤ → List IndexUnit → List IndexUnit
  | 0, _, _, index => index
  | fuel + 1, upperIdx, lowerIdx, index =>
      if 0 ≤ upperIdx ∧ 0 ≤ lowerIdx then
        match upper[upperIdx.toNat]?, lower[lowerIdx.toNat]? with
        | some u, some l =>
            match cmpOp u l with
            | .eq => calculateRBLoop cmpOp setIndex upper lower fuel (upperIdx - 1) (lowerIdx - 1)
                (index.modify upperIdx.toNat (setIndex · lowerIdx))
            | .lt => calculateRBLoop cmpOp setIndex upper lower fuel upperIdx (lowerIdx - 1) index
            | .gt => calculateRBLoop cmpOp setIndex upper lower fuel (upperIdx - 1) lowerIdx
                (index.modify upperIdx.toNat (setIndex · lowerIdx))
        -- not reached: both indices start below their level's size and only go down
        | _, _ => index
      else index.mapIdx fun i unit => if (i : ℤ) ≤ upperIdx then setIndex unit (-1) else unit

/-- `FileIndexer::CalculateRB`. -/
def CalculateRB (upper lower : List FileMetaData) (cmpOp : FileMetaData → FileMetaData → Ordering)
    (setIndex : IndexUnit → ℤ → IndexUnit) (index : List IndexUnit) : List IndexUnit :=
  calculateRBLoop cmpOp setIndex upper lower (upper.length + lower.length + 1)
    (upper.length - 1) (lower.length - 1) index

end FileIndexer

open FileIndexer in
/-- `FileIndexer`: the number of levels, the index units of each level's files
(`next_level_index_`, none for a level without them) and the last position of
each level (`level_rb_`). -/
structure FileIndexer where
  numLevels : ℕ
  nextLevelIndex : List (List IndexUnit)
  levelRb : List ℤ

namespace FileIndexer

/-- The index units of the files of `upper` over the next level `lower`: the
two left bounds against the lower files' largest keys, the two right bounds
against their smallest keys. -/
def levelIndex (ucmp : Comparator) (upper lower : List FileMetaData) : List IndexUnit :=
  let index := List.replicate upper.length {}
  let index := CalculateLB upper lower (fun a b => ucmp a.smallest.userKey b.largest.userKey)
    (fun unit i => { unit with smallestLb := i }) index
  let index := CalculateLB upper lower (fun a b => ucmp a.largest.userKey b.largest.userKey)
    (fun unit i => { unit with largestLb := i }) index
  let index := CalculateRB upper lower (fun a b => ucmp a.smallest.userKey b.smallest.userKey)
    (fun unit i => { unit with smallestRb := i }) index
  CalculateRB upper lower (fun a b => ucmp a.largest.userKey b.smallest.userKey)
    (fun unit i => { unit with largestRb := i }) index

/-- `FileIndexer::UpdateIndex(arena, num_levels, files)`: index units for the
levels `1 ≤ level < num_levels - 1` that have files, and the last position of
those levels and of the last one. -/
def UpdateIndex (ucmp : Comparator) (numLevels : ℕ) (files : List (List FileMetaData)) :
    FileIndexer :=
  if numLevels = 0 then ⟨0, [], []⟩
  else
    let inner (level : ℕ) : Bool := 1 ≤ level && level < numLevels - 1
    { numLevels := numLevels
      nextLevelIndex := (List.range numLevels).map fun level =>
        if inner level && !(files.getD level []).isEmpty then
          levelIndex ucmp (files.getD level []) (files.getD (level + 1) [])
        else []
      levelRb := (List.range numLevels).map fun level =>
        if inner level || level == numLevels - 1 then ((files.getD level []).length : ℤ) - 1
        else -1 }

/-- `FileIndexer::GetNextLevelIndex(level, file_index, cmp_smallest,
cmp_largest)`: the bounds `[left, right]` to search in the next level, from how
the key compared with the file's smallest and largest user keys.  The last
level gives no hint. -/
def GetNextLevelIndex (fi : FileIndexer) (level fileIndex : ℕ)
    (cmpSmallest cmpLargest : Ordering) : ℤ × ℤ :=
  if level = fi.numLevels - 1 then (0, -1)
  else
    let indexUnits := fi.nextLevelIndex.getD level []
    let index := indexUnits.getD fileIndex {}
    match cmpSmallest, cmpLargest with
    | .lt, _ =>
        (if 0 < level ∧ 0 < fileIndex then (indexUnits.getD (fileIndex - 1) {}).largestLb else 0,
         index.smallestRb)
    | .eq, _ => (index.smallestLb, index.smallestRb)
    | .gt, .lt => (index.smallestLb, index.largestRb)
    | .gt, .eq => (index.largestLb, index.largestRb)
    | .gt, .gt => (index.largestLb, fi.levelRb.getD (level + 1) (-1))

end FileIndexer

end HapDB
