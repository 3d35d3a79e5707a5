import HapDB.Db.FileIndexer
import HapDB.Lib.LowerBound

/-!
# `db/version_set.cc`: `FilePicker`, the files a point lookup reads

`Version::Get` asks a `FilePicker` for file after file (`GetNextFile`) until
it has its answer.  The picker goes level by level.  Level 0 is read whole,
newest file first.  On a level `≥ 1` the files are sorted, and the picker
starts at the first file whose largest key is not below the lookup key
(`FindFileInRange`, a binary search), narrowed to the bounds that the file it
looked at last on the level above gave (`FileIndexer::GetNextLevelIndex`); it
goes on to the next file while the user key is the file's largest user key, and
to the next level once a file ends after the key.

Every loop here runs on fuel: `PrepareNextLevel` has one round per level and
`GetNextFile` one per file and level, which is what each needs.  The levels are
the `LevelFilesBrief`s of `num_non_empty_levels_` levels, a file's
`FdWithKeyRange` is read from its `FileMetaData`, and the statistics the picker
keeps (`hit_file_level_`, `is_hit_file_last_in_level_`, the debug checks) are
left out.
-/

namespace HapDB

/-- `PackSequenceAndType(seq, t)`. -/
def PackSequenceAndType (seq : UInt64) (t : ValueType) : UInt64 := (seq <<< 8) ||| t.toByte.toUInt64

/-- `InternalKey(user_key, s, t)`. -/
def InternalKey.make (userKey : Bytes) (s : UInt64) (t : ValueType) : InternalKey :=
  ⟨userKey ++ encodeFixed64 (PackSequenceAndType s t)⟩

/-- `kValueTypeForSeek`: the largest type, so that the lookup key of sequence
`s` sorts before every entry of its user key with sequence `s`. -/
def kValueTypeForSeek : ValueType := .kTypeMergeIndex

/-- `LookupKey(user_key, s).internal_key()`. -/
def LookupKey.internalKey (userKey : Bytes) (s : UInt64) : InternalKey :=
  InternalKey.make userKey s kValueTypeForSeek

/-- `FindFileInRange(icmp, file_level, key, left, right)`: `lower_bound_ex_n`
over `[left, right)` of the files by largest key, the first whose largest key
is not below `key`. -/
def FindFileInRange (ucmp : Comparator) (files : List FileMetaData) (key : InternalKey)
    (left right : ℕ) : ℕ :=
  LowerBound.search (fun f => internalKeyCompare ucmp f.largest key == .lt) files (right - left)
    left right

/-- What a picker reads and never changes: the files of each level, the number
of levels, the user key and the lookup key, the file indexer and the user
comparator. -/
structure PickerInput where
  levels : List (List FileMetaData)
  numLevels : ℕ
  userKey : Bytes
  ikey : InternalKey
  fileIndexer : FileIndexer
  ucmp : Comparator

/-- The state of a `FilePicker`: the level it reads, the bounds for the binary
search of the next level, whether the search has ended, and the file it reads
next on the current level and where it started there. -/
structure FilePicker where
  currLevel : ℕ
  searchLeftBound : ℤ
  searchRightBound : ℤ
  searchEnded : Bool
  currIndexInCurrLevel : ℕ
  startIndexInCurrLevel : ℕ
  deriving DecidableEq, Repr

namespace FilePicker

open FileIndexer

variable (inp : PickerInput)

/-- The loop of `PrepareNextLevel` from `currLevel` on: an empty level passes
the whole next level on; level 0 is read from its first file; a level `≥ 1`
is searched in the bounds the level above gave, and passed over, with the whole
next level to search, when the key is after every file in the bounds or the
bounds are empty.  Whether a level to read was found. -/
def prepareLevels : ℕ → FilePicker → Bool × FilePicker
  | 0, p => (false, p)
  | fuel + 1, p =>
      if p.currLevel < inp.numLevels then
        let files := inp.levels.getD p.currLevel []
        let next := { p with searchLeftBound := 0, searchRightBound := kLevelMaxIndex
                             currLevel := p.currLevel + 1 }
        if files.length = 0 then prepareLevels fuel next
        else if p.currLevel = 0 then
          (true, { p with startIndexInCurrLevel := 0, currIndexInCurrLevel := 0 })
        else if p.searchLeftBound ≤ p.searchRightBound then
          let right : ℤ :=
            if p.searchRightBound = kLevelMaxIndex then (files.length : ℤ) - 1 else p.searchRightBound
          let startIndex := FindFileInRange inp.ucmp files inp.ikey p.searchLeftBound.toNat
            (right.toNat + 1)
          if (startIndex : ℤ) = right + 1 then prepareLevels fuel next
          else (true, { p with searchRightBound := right, startIndexInCurrLevel := startIndex
                               currIndexInCurrLevel := startIndex })
        else prepareLevels fuel next
      else (false, p)

/-- `PrepareNextLevel`: `curr_level_++`, then the loop. -/
def PrepareNextLevel (p : FilePicker) : Bool × FilePicker :=
  prepareLevels inp (inp.numLevels + 1) { p with currLevel := p.currLevel + 1 }

/-- `search_ended_ = !PrepareNextLevel()`. -/
def nextLevel (p : FilePicker) : FilePicker :=
  let (found, p) := PrepareNextLevel inp p
  { p with searchEnded := !found }

/-- `FilePicker(...)`: `curr_level_` starts at `-1`, so the first
`PrepareNextLevel` starts the loop at level 0, with the whole level to search. -/
def make : FilePicker :=
  let (found, p) := prepareLevels inp (inp.numLevels + 1) ⟨0, 0, kLevelMaxIndex, false, 0, 0⟩
  { p with searchEnded := !found }

/-- The loops of `GetNextFile`: the next file to read, as its level and
position, or none once the search has ended. -/
def getNextFileLoop : ℕ → FilePicker → Option (ℕ × ℕ) × FilePicker
  | 0, p => (none, p)
  | fuel + 1, p =>
      if p.searchEnded then (none, p)
      else
        let files := inp.levels.getD p.currLevel []
        match files[p.currIndexInCurrLevel]? with
        -- the level is read: start searching the next one
        | none => getNextFileLoop fuel (nextLevel inp p)
        | some f =>
            let hit := (p.currLevel, p.currIndexInCurrLevel)
            -- the key is compared with the file's range unless the only level has at most three files
            let filter := decide (1 < inp.numLevels) || decide (3 < files.length)
            let cmpSmallest := inp.ucmp inp.userKey f.smallest.userKey
            let cmpLargest :=
              if filter && cmpSmallest != .lt then inp.ucmp inp.userKey f.largest.userKey else .lt
            let p :=
              if filter && decide (0 < p.currLevel) then
                let (left, right) := inp.fileIndexer.GetNextLevelIndex p.currLevel
                  p.currIndexInCurrLevel cmpSmallest cmpLargest
                { p with searchLeftBound := left, searchRightBound := right }
              else p
            if filter && (cmpSmallest == .lt || cmpLargest == .gt) then
              if p.currLevel = 0 then
                getNextFileLoop fuel { p with currIndexInCurrLevel := p.currIndexInCurrLevel + 1 }
              else getNextFileLoop fuel (nextLevel inp p)
            else if 0 < p.currLevel ∧ cmpLargest = .lt then (some hit, nextLevel inp p)
            else (some hit, { p with currIndexInCurrLevel := p.currIndexInCurrLevel + 1 })

/-- `FilePicker::GetNextFile`, with a round for every file and level. -/
def GetNextFile (p : FilePicker) : Option (ℕ × ℕ) × FilePicker :=
  getNextFileLoop inp ((inp.levels.map List.length).sum + inp.numLevels + 1) p

/-- The files of successive `GetNextFile` calls until it returns none: those
`Version::Get` reads when no file gives it its answer, at most `fuel` of them. -/
def pickAll : ℕ → FilePicker → List (ℕ × ℕ)
  | 0, _ => []
  | fuel + 1, p =>
      match GetNextFile inp p with
      | (some hit, p) => hit :: pickAll fuel p
      | (none, _) => []

end FilePicker

end HapDB
