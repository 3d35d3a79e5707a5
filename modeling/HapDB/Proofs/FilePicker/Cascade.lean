import HapDB.Db.FilePicker

/-!
# What a point lookup reads

The picker is sound: with more than one level, every file it hands to
`Version::Get` holds the user key in its range (`getNextFileLoop_holdsKey`,
`pickAll_holdsKey`), since a file whose range the key is outside of is passed
over.  On a level searched whole, the binary search starts at the first file
that does not end before the lookup key (`prepareLevels_whole_level`, from
`LowerBound.search_spec`).

It is not complete when a user key straddles two files of a level and two
files of the next.  `CalculateLB` moves past a lower file once an upper file's
key equals the lower file's largest user key; when the next upper file starts
with the same user key, its `smallest_lb` is one past that lower file, which
still holds the key.  The lookup reaches the next level through that upper
file and never reads the skipped file (`straddled_key_skips_lower_file`).
-/

namespace HapDB

namespace FilePicker

open FileIndexer

variable (inp : PickerInput)

/-- A file whose user-key range holds the user key of the lookup. -/
def HoldsKey (hit : ℕ × ℕ) : Prop :=
  ∃ f, (inp.levels.getD hit.1 [])[hit.2]? = some f ∧
    inp.ucmp inp.userKey f.smallest.userKey ≠ .lt ∧ inp.ucmp inp.userKey f.largest.userKey ≠ .gt

/-- With more than one level, every file the loop returns holds the user key:
a file whose range the key is outside of is passed over. -/
theorem getNextFileLoop_holdsKey (hlevels : 1 < inp.numLevels) :
    ∀ (fuel : ℕ) (p : FilePicker) {hit : ℕ × ℕ} {p' : FilePicker},
      getNextFileLoop inp fuel p = (some hit, p') → HoldsKey inp hit
  | 0, p, hit, p', h => by simp [getNextFileLoop] at h
  | fuel + 1, p, hit, p', h => by
      rw [getNextFileLoop] at h
      split at h
      · simp at h
      · dsimp only at h
        split at h
        · exact getNextFileLoop_holdsKey hlevels fuel _ h
        · rename_i f hf
          have hfilter : (decide (1 < inp.numLevels) || decide (3 < (inp.levels.getD p.currLevel []).length)) = true := by
            simp [hlevels]
          simp only [hfilter, Bool.true_and] at h
          generalize hcs : inp.ucmp inp.userKey f.smallest.userKey = cs at h
          generalize hcl : (if (cs != Ordering.lt) = true then inp.ucmp inp.userKey f.largest.userKey
            else Ordering.lt) = cl at h
          -- the bounds for the next level, which the rest does not look at
          generalize (if decide (0 < p.currLevel) = true then
            ({ p with searchLeftBound := (inp.fileIndexer.GetNextLevelIndex p.currLevel
                  p.currIndexInCurrLevel cs cl).1
                      searchRightBound := (inp.fileIndexer.GetNextLevelIndex p.currLevel
                  p.currIndexInCurrLevel cs cl).2 } : FilePicker) else p) = q at h
          split at h
          · -- the key is outside the file: the loop goes on
            split at h <;> exact getNextFileLoop_holdsKey hlevels fuel _ h
          · -- the file is returned
            rename_i hin
            have hcs' : cs ≠ .lt := by
              intro hc
              simp [hc] at hin
            have hcl' : cl ≠ .gt := by
              intro hc
              simp [hc] at hin
            have hlarge : inp.ucmp inp.userKey f.largest.userKey = cl := by
              rw [← hcl]
              simp [hcs']
            have hhit : hit = (p.currLevel, p.currIndexInCurrLevel) := by
              split at h <;> exact (Option.some.inj (Prod.mk.inj h).1).symm
            subst hhit
            exact ⟨f, hf, hcs ▸ hcs', hlarge ▸ hcl'⟩

/-- With more than one level, every file `Version::Get` is handed holds the
user key in its range. -/
theorem pickAll_holdsKey (hlevels : 1 < inp.numLevels) :
    ∀ (fuel : ℕ) (p : FilePicker), ∀ hit ∈ pickAll inp fuel p, HoldsKey inp hit
  | 0, _ => by simp [pickAll]
  | fuel + 1, p => by
      intro hit hmem
      rw [pickAll] at hmem
      split at hmem
      · rename_i hit' p' hnext
        rcases List.mem_cons.mp hmem with rfl | hmem
        · exact getNextFileLoop_holdsKey inp hlevels _ p hnext
        · exact pickAll_holdsKey hlevels fuel p' hit hmem
      · simp at hmem

/-- The file `f` ends before the key: its largest key is below it. -/
def EndsBefore (ucmp : Comparator) (key : InternalKey) (f : FileMetaData) : Bool :=
  internalKeyCompare ucmp f.largest key == .lt

/-- On files whose largest keys are sorted, `FindFileInRange` finds, in
`[left, right]`, where the files that end before the key stop. -/
theorem FindFileInRange_spec (ucmp : Comparator) (files : List FileMetaData) (key : InternalKey)
    {left right : ℕ} (hlr : left ≤ right)
    (hsorted : LowerBound.PrefixOn (EndsBefore ucmp key) files left right) :
    left ≤ FindFileInRange ucmp files key left right ∧ FindFileInRange ucmp files key left right ≤ right ∧
      (∀ k, left ≤ k → k < FindFileInRange ucmp files key left right →
        (files[k]?.map (EndsBefore ucmp key)).getD false = true) ∧
      (∀ k, FindFileInRange ucmp files key left right ≤ k → k < right →
        (files[k]?.map (EndsBefore ucmp key)).getD false = false) :=
  LowerBound.search_spec (right - left) left right hlr (Nat.le_refl _) hsorted

/-- A level `≥ 1` searched whole, whose largest keys are sorted: when every
file ends before the key, the level is passed over with the whole next level
to search; otherwise the picker starts at the first file that does not end
before the key. -/
theorem prepareLevels_whole_level {p : FilePicker} (fuel : ℕ)
    (hlevel : p.currLevel < inp.numLevels) (hpos : 0 < p.currLevel)
    (hne : inp.levels.getD p.currLevel [] ≠ [])
    (hleft : p.searchLeftBound = 0) (hright : p.searchRightBound = kLevelMaxIndex)
    (hsorted : LowerBound.PrefixOn (EndsBefore inp.ucmp inp.ikey) (inp.levels.getD p.currLevel [])
      0 (inp.levels.getD p.currLevel []).length) :
    ((∀ k < (inp.levels.getD p.currLevel []).length,
        ((inp.levels.getD p.currLevel [])[k]?.map (EndsBefore inp.ucmp inp.ikey)).getD false = true) ∧
      prepareLevels inp (fuel + 1) p = prepareLevels inp fuel
        { p with searchLeftBound := 0, searchRightBound := kLevelMaxIndex, currLevel := p.currLevel + 1 }) ∨
    ∃ start < (inp.levels.getD p.currLevel []).length,
      (∀ k < start,
        ((inp.levels.getD p.currLevel [])[k]?.map (EndsBefore inp.ucmp inp.ikey)).getD false = true) ∧
      ((inp.levels.getD p.currLevel [])[start]?.map (EndsBefore inp.ucmp inp.ikey)).getD false = false ∧
      prepareLevels inp (fuel + 1) p = (true, { p with
        searchRightBound := ((inp.levels.getD p.currLevel []).length : ℤ) - 1
        startIndexInCurrLevel := start, currIndexInCurrLevel := start }) := by
  generalize hfiles : inp.levels.getD p.currLevel [] = files at hne hsorted ⊢
  have hlen : 0 < files.length := List.length_pos_iff.mpr hne
  have hmax : (0 : ℤ) ≤ kLevelMaxIndex := by decide
  -- the binary search runs over the whole level
  have hright' : (((files.length : ℤ) - 1).toNat + 1) = files.length := by omega
  obtain ⟨-, hle, hbefore, hafter⟩ :=
    FindFileInRange_spec inp.ucmp files inp.ikey (Nat.zero_le files.length) hsorted
  rw [prepareLevels, if_pos hlevel]
  rw [hfiles, if_neg (by omega), if_neg (by omega), hleft, hright, if_pos hmax, if_pos rfl]
  dsimp only
  rw [hright', Int.toNat_zero]
  by_cases hall : FindFileInRange inp.ucmp files inp.ikey 0 files.length = files.length
  · left
    refine ⟨fun k hk => hbefore k (Nat.zero_le k) (by omega), ?_⟩
    rw [if_pos (by omega)]
  · right
    have hlt : FindFileInRange inp.ucmp files inp.ikey 0 files.length < files.length := by omega
    refine ⟨_, hlt, fun k hk => hbefore k (Nat.zero_le k) hk,
      hafter _ (Nat.le_refl _) hlt, ?_⟩
    rw [if_neg (by omega)]

/-! ## A user key over two files of two levels -/

/-- A file with the given smallest and largest keys. -/
def fileOf (smallest largest : InternalKey) : FileMetaData :=
  { smallest := smallest, largest := largest }

/-- Level 1 holds `c@9 .. c@8` and `c@7 .. d@6`, level 2 holds `a@3 .. c@6` and
`c@5 .. e@2`: each level is sorted and its files are disjoint by internal key,
and the newer versions of `c` are on level 1. -/
def straddleLevels : List (List FileMetaData) :=
  [[],
   [fileOf (InternalKey.make [99] 9 .kTypeMerge) (InternalKey.make [99] 8 .kTypeMerge),
    fileOf (InternalKey.make [99] 7 .kTypeMerge) (InternalKey.make [100] 6 .kTypeValue)],
   [fileOf (InternalKey.make [97] 3 .kTypeValue) (InternalKey.make [99] 6 .kTypeValue),
    fileOf (InternalKey.make [99] 5 .kTypeValue) (InternalKey.make [101] 2 .kTypeValue)]]

/-- A lookup of `c` at the newest sequence number over those levels, with the
file indexer `UpdateIndex` builds for them. -/
def straddle : PickerInput :=
  { levels := straddleLevels, numLevels := 3, userKey := [99]
    ikey := LookupKey.internalKey [99] kMaxSequenceNumber
    fileIndexer := UpdateIndex bytewiseCompare 3 straddleLevels, ucmp := bytewiseCompare }

set_option maxRecDepth 100000 in
/-- The lookup is handed the two files of level 1 and the second file of
level 2, and then nothing more.  The first file of level 2 holds `c` in its
range and ends at `c@6`, not before the lookup key, yet it is never returned:
the second file of level 1 starts with `c`, and the bounds it gives for
level 2 are `[1, 1]`. -/
theorem straddled_key_skips_lower_file :
    pickAll straddle 8 (make straddle) = [(1, 0), (1, 1), (2, 1)] ∧
    HoldsKey straddle (2, 0) ∧
    EndsBefore bytewiseCompare straddle.ikey
      (fileOf (InternalKey.make [97] 3 .kTypeValue) (InternalKey.make [99] 6 .kTypeValue)) = false ∧
    straddle.fileIndexer.GetNextLevelIndex 1 1 .eq .lt = (1, 1) :=
  ⟨by decide +kernel, ⟨_, rfl, by decide, by decide⟩, by decide, by decide +kernel⟩

end FilePicker

end HapDB
