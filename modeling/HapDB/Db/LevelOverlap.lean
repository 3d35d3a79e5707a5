import HapDB.Db.FilePicker

/-!
# `db/version_set.cc`: which files of a level meet a key range

`GetOverlappingInputs(level, begin, end)` collects the files of a level whose
range meets `[begin, end]`, a missing bound meaning no bound.  Above level 0
the files are sorted and do not overlap: `GetOverlappingInputsRangeBinarySearch`
finds one file that meets the range by binary search and extends the run from
it backwards and forwards (`ExtendFileRangeOverlappingInterval`), or, for
`GetCleanInputsWithinInterval`, finds one file inside the range, takes the run
around it and shrinks it to the files inside the range that share no boundary
user key with the files next to them (`ExtendFileRangeWithinInterval`).  On
level 0 the files may overlap, and with `expand_range` every file taken widens
the range, so the scan repeats until a pass takes nothing.

Keys are compared by `sstableKeyCompare`: by user key, the range deletion
sentinel first among the keys of one user key; a null `begin` is below every
key and a null `end` above.

The out-parameters are values passed in and returned (`OverlapOut`): the
files taken, `*file_index` when the caller passes `file_index`, and, when the
caller passes `next_smallest`, the `InternalKey*` it points to, `none` for a
null pointer.  The source writes a key through `*next_smallest`; through a
null pointer that is undefined, and the model leaves the pointer null.
-/

namespace HapDB

/-- `ExtractInternalKeyFooter`: the packed sequence number and type. -/
def InternalKey.footer (k : InternalKey) : UInt64 := decodeFixed64 (k.rep.drop (k.rep.length - 8))

/-- `kRangeTombstoneSentinel`: the footer of a range deletion at the largest
sequence number. -/
def kRangeTombstoneSentinel : UInt64 := PackSequenceAndType kMaxSequenceNumber .kTypeRangeDeletion

/-- `sstableKeyCompare(user_cmp, a, b)`: by user key, then only the sentinel
footer first. -/
def sstableKeyCompare (ucmp : Comparator) (a b : InternalKey) : Ordering :=
  match ucmp a.userKey b.userKey with
  | .eq =>
      if a.footer = kRangeTombstoneSentinel then
        if b.footer ≠ kRangeTombstoneSentinel then .lt else .eq
      else if b.footer = kRangeTombstoneSentinel then .gt else .eq
  | o => o

/-- The overload with a pointer first: a null key is below every key. -/
def sstableKeyCompareFrom (ucmp : Comparator) (a : Option InternalKey) (b : InternalKey) : Ordering :=
  match a with
  | none => .lt
  | some a => sstableKeyCompare ucmp a b

/-- The overload with a pointer second: a null key is above every key. -/
def sstableKeyCompareTo (ucmp : Comparator) (a : InternalKey) (b : Option InternalKey) : Ordering :=
  match b with
  | none => .lt
  | some b => sstableKeyCompare ucmp a b

/-- The out-parameters of the overlap queries: the files taken, `*file_index`
if the caller passes `file_index`, and the key `*next_smallest` points to
(`none` for null) if the caller passes `next_smallest`. -/
structure OverlapOut where
  inputs : List FileMetaData
  fileIndex : Option ℤ
  nextSmallest : Option (Option InternalKey)
  deriving Repr

/-- The files of positions `[startIndex, endIndex]`, pushed in order. -/
def levelRun (files : List FileMetaData) (startIndex endIndex : ℤ) : List FileMetaData :=
  (files.drop startIndex.toNat).take (endIndex + 1 - startIndex).toNat

namespace LevelOverlap

variable (ucmp : Comparator)

/-- The binary search of `GetOverlappingInputsRangeBinarySearch` over
positions `[min, max]`, on fuel: a file that meets the range, or with
`within_interval` one that lies inside it. -/
def overlapSearch (files : List FileMetaData) (begin end_ : Option InternalKey)
    (withinInterval : Bool) : ℕ → ℤ → ℤ → Option ℤ
  | 0, _, _ => none
  | fuel + 1, min, max =>
      if min ≤ max then
        let mid := (min + max) / 2
        let f := files.getD mid.toNat {}
        if (!withinInterval && sstableKeyCompareFrom ucmp begin f.largest == .gt) ||
            (withinInterval && sstableKeyCompareFrom ucmp begin f.smallest == .gt) then
          overlapSearch files begin end_ withinInterval fuel (mid + 1) max
        else if (!withinInterval && sstableKeyCompareTo ucmp f.smallest end_ == .gt) ||
            (withinInterval && sstableKeyCompareTo ucmp f.largest end_ == .gt) then
          overlapSearch files begin end_ withinInterval fuel min (mid - 1)
        else some mid
      else none

/-- The backward loop of `ExtendFileRangeOverlappingInterval`: from position
`i` down, the run starts at every file whose largest key is not below
`begin`, until one is. -/
def extendBackward (files : List FileMetaData) (begin : Option InternalKey) : ℕ → ℕ → ℕ
  | 0, startIndex =>
      if sstableKeyCompareFrom ucmp begin (files.getD 0 {}).largest != .gt then 0 else startIndex
  | i + 1, startIndex =>
      if sstableKeyCompareFrom ucmp begin (files.getD (i + 1) {}).largest != .gt then
        extendBackward files begin i (i + 1)
      else startIndex

/-- The forward loop of `ExtendFileRangeOverlappingInterval`: from position
`i` on, the run ends at every file whose smallest key is not above `end`,
until one is; `fuel` bounds the positions left. -/
def extendForward (files : List FileMetaData) (end_ : Option InternalKey) : ℕ → ℕ → ℕ → ℕ
  | 0, _, endIndex => endIndex
  | fuel + 1, i, endIndex =>
      if i < files.length then
        if sstableKeyCompareTo ucmp (files.getD i {}).smallest end_ != .gt then
          extendForward files end_ fuel (i + 1) i
        else endIndex
      else endIndex

/-- `ExtendFileRangeOverlappingInterval(begin, end, mid_index)`: the run of
files around `mid_index` that meet the range, as `(start_index, end_index)`. -/
def ExtendFileRangeOverlappingInterval (files : List FileMetaData) (begin end_ : Option InternalKey)
    (midIndex : ℕ) : ℕ × ℕ :=
  (extendBackward ucmp files begin midIndex (midIndex + 1),
    extendForward ucmp files end_ files.length (midIndex + 1) midIndex)

/-- The first shrinking loop of `ExtendFileRangeWithinInterval`: drop files at
the left end that start before `begin` or share their smallest user key with
the largest key of the file before them. -/
def shrinkLeft (files : List FileMetaData) (begin : Option InternalKey) : ℕ → ℤ → ℤ → ℤ
  | 0, left, _ => left
  | fuel + 1, left, right =>
      if left ≤ right then
        let smallest := (files.getD left.toNat {}).smallest
        if sstableKeyCompareFrom ucmp begin smallest == .gt then
          shrinkLeft files begin fuel (left + 1) right
        else if 0 < left &&
            sstableKeyCompare ucmp smallest (files.getD (left - 1).toNat {}).largest == .eq then
          shrinkLeft files begin fuel (left + 1) right
        else left
      else left

/-- The second shrinking loop: drop files at the right end that end after
`end` or share their largest user key with the smallest key of the file after
them. -/
def shrinkRight (files : List FileMetaData) (end_ : Option InternalKey) : ℕ → ℤ → ℤ → ℤ
  | 0, _, right => right
  | fuel + 1, left, right =>
      if left ≤ right then
        let largest := (files.getD right.toNat {}).largest
        if sstableKeyCompareTo ucmp largest end_ == .gt then
          shrinkRight files end_ fuel left (right - 1)
        else if right < (files.length : ℤ) - 1 &&
            sstableKeyCompare ucmp (files.getD (right + 1).toNat {}).smallest largest == .eq then
          shrinkRight files end_ fuel left (right - 1)
        else right
      else right

/-- `ExtendFileRangeWithinInterval(begin, end, mid_index)`: the overlapping
run around `mid_index`, shrunk to a clean run inside the range. -/
def ExtendFileRangeWithinInterval (files : List FileMetaData) (begin end_ : Option InternalKey)
    (midIndex : ℕ) : ℤ × ℤ :=
  let run := ExtendFileRangeOverlappingInterval ucmp files begin end_ midIndex
  let left := shrinkLeft ucmp files begin files.length run.1 run.2
  let right := shrinkRight ucmp files end_ files.length left run.2
  (left, right)

/-- `GetOverlappingInputsRangeBinarySearch(level, begin, end, inputs,
hint_index, file_index, within_interval, next_smallest)`. -/
def GetOverlappingInputsRangeBinarySearch (files : List FileMetaData)
    (begin end_ : Option InternalKey) (out : OverlapOut) (hintIndex : ℤ)
    (withinInterval : Bool) : OverlapOut :=
  let found := if hintIndex ≠ -1 then some hintIndex
    else overlapSearch ucmp files begin end_ withinInterval (files.length + 1) 0 (files.length - 1)
  match found with
  -- no file meets the range: the source then sets its own copy of the
  -- pointer `next_smallest` to null, which the caller never sees
  | none => out
  | some mid =>
      let run : ℤ × ℤ := if withinInterval then ExtendFileRangeWithinInterval ucmp files begin end_ mid.toNat
        else
          let run := ExtendFileRangeOverlappingInterval ucmp files begin end_ mid.toNat
          (run.1, run.2)
      { inputs := out.inputs ++ levelRun files run.1 run.2
        fileIndex := out.fileIndex.map fun _ => mid
        nextSmallest := out.nextSmallest.map fun p =>
          if run.2 + 1 < files.length then p.map fun _ => (files.getD (run.2 + 1).toNat {}).smallest
          else none }

/-- The state of a pass of the level-0 scan: the range, widened as files are
taken, what is taken, whether the pass took a file, and the positions left. -/
structure Level0Scan where
  userBegin : Bytes
  userEnd : Bytes
  out : OverlapOut
  found : Bool
  rest : List ℕ

/-- One position of a pass of the level-0 scan: a file entirely before or
after the range stays for the next pass, one that meets it is taken. -/
def level0Step (files : List FileMetaData) (hasBegin hasEnd expandRange : Bool) (s : Level0Scan)
    (i : ℕ) : Level0Scan :=
  let f := files.getD i {}
  let fileStart := f.smallest.userKey
  let fileLimit := f.largest.userKey
  if hasBegin && ucmp fileLimit s.userBegin == .lt then { s with rest := s.rest ++ [i] }
  else if hasEnd && ucmp fileStart s.userEnd == .gt then { s with rest := s.rest ++ [i] }
  else
    let s := { s with
      out := { s.out with
        inputs := s.out.inputs ++ [f]
        fileIndex := s.out.fileIndex.map fun fi => if fi = -1 then (i : ℤ) else fi }
      found := true }
    if expandRange then
      let s := if hasBegin && ucmp fileStart s.userBegin == .lt then { s with userBegin := fileStart }
        else s
      if hasEnd && ucmp fileLimit s.userEnd == .gt then { s with userEnd := fileLimit } else s
    else s

/-- The passes of the level-0 scan, on fuel: until no position is left or a
pass takes nothing. -/
def level0Loop (files : List FileMetaData) (hasBegin hasEnd expandRange : Bool) :
    ℕ → List ℕ → Bytes → Bytes → OverlapOut → OverlapOut
  | 0, _, _, _, out => out
  | fuel + 1, index, userBegin, userEnd, out =>
      if index.isEmpty then out
      else
        let s := index.foldl (level0Step ucmp files hasBegin hasEnd expandRange)
          ⟨userBegin, userEnd, out, false, []⟩
        if s.found then level0Loop files hasBegin hasEnd expandRange fuel s.rest s.userBegin s.userEnd s.out
        else s.out

/-- `GetOverlappingInputs(level, begin, end, inputs, hint_index, file_index,
expand_range, next_smallest)` over the files of every level and
`num_non_empty_levels_`. -/
def GetOverlappingInputs (levels : List (List FileMetaData)) (numNonEmptyLevels level : ℕ)
    (begin end_ : Option InternalKey) (out : OverlapOut) (hintIndex : ℤ) (expandRange : Bool) :
    OverlapOut :=
  if numNonEmptyLevels ≤ level then out
  else
    let out := { out with inputs := [], fileIndex := out.fileIndex.map fun _ => -1 }
    let files := levels.getD level []
    if 0 < level then GetOverlappingInputsRangeBinarySearch ucmp files begin end_ out hintIndex false
    else
      let out := { out with nextSmallest := out.nextSmallest.map fun _ => none }
      level0Loop ucmp files begin.isSome end_.isSome expandRange (files.length + 1)
        (List.range files.length) ((begin.map InternalKey.userKey).getD [])
        ((end_.map InternalKey.userKey).getD []) out

/-- `GetCleanInputsWithinInterval(level, begin, end, inputs, hint_index,
file_index)`: a null bound is the level's first or last key; the caller passes
no `next_smallest`. -/
def GetCleanInputsWithinInterval (levels : List (List FileMetaData)) (numNonEmptyLevels level : ℕ)
    (begin end_ : Option InternalKey) (out : OverlapOut) (hintIndex : ℤ) : OverlapOut :=
  let out := { out with inputs := [], fileIndex := out.fileIndex.map fun _ => -1, nextSmallest := none }
  let files := levels.getD level []
  if numNonEmptyLevels ≤ level || level = 0 || files.isEmpty then out
  else
    let begin := some (begin.getD (files.getD 0 {}).smallest)
    let end_ := some (end_.getD (files.getD (files.length - 1) {}).largest)
    GetOverlappingInputsRangeBinarySearch ucmp files begin end_ out hintIndex true

end LevelOverlap

end HapDB
