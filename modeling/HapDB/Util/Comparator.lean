import HapDB.Db.FilePicker

/-!
# `util/comparator.cc`: the key-shortening hooks

`FindShortestSeparator(start, limit)` may replace `start` by a shorter key that
still lies in `[start, limit)`, and `FindShortSuccessor(key)` may replace `key`
by a shorter key that is not below it; the table builder stores these shorter
keys as the boundaries of its data blocks.

* `BytewiseComparatorImpl` increments the first byte where `start` and `limit`
  differ and cuts `start` after it.  When that would reach `limit` (the byte is
  one less than `limit`'s, and `limit` ends there) it skips that byte and
  increments the first later byte below `0xff` instead.
* `ReverseBytewiseComparatorImpl` compares the other way and only cuts `start`
  after the first differing byte; its `FindShortSuccessor` does nothing.
* `InternalKeyComparator` (`db/dbformat.cc`) shortens the user key with the
  user comparator and, when the result is no longer but compares larger,
  appends the footer of `(kMaxSequenceNumber, kValueTypeForSeek)`.

Strings are byte lists, and each loop over an index is a recursion on that
index.  Of a user comparator only the three methods that
`InternalKeyComparator`'s hooks call are kept (`UserComparator`).
-/

namespace HapDB

/-- `Slice::difference_offset`: the length of the common prefix, which is also
what the first loop of both `FindShortestSeparator`s computes. -/
def differenceOffset : Bytes → Bytes → ℕ
  | a :: s, b :: t => if a = b then differenceOffset s t + 1 else 0
  | _, _ => 0

/-- The loop of `FindShortestSeparator`'s second phase and of
`FindShortSuccessor`: from index `i` on, increment the first byte below `0xff`
and cut the string after it; a run of `0xff`s to the end is left alone. -/
def incrementFirstFrom (key : Bytes) (i : ℕ) : Bytes :=
  if h : i < key.length then
    if key[i] < 0xff then (key.set i (key[i] + 1)).take (i + 1)
    else incrementFirstFrom key (i + 1)
  else key
termination_by key.length - i

namespace BytewiseComparatorImpl

/-- `BytewiseComparatorImpl::FindShortestSeparator`. -/
def findShortestSeparator (start limit : Bytes) : Bytes :=
  let minLength := min start.length limit.length
  let diffIndex := differenceOffset start limit
  if diffIndex ≥ minLength then
    -- one string is a prefix of the other
    start
  else
    let startByte := start[diffIndex]!
    let limitByte := limit[diffIndex]!
    if startByte ≥ limitByte then start
    -- `start_byte + 1` is computed in `int`
    else if diffIndex < limit.length - 1 ∨ startByte.toNat + 1 < limitByte.toNat then
      (start.set diffIndex (startByte + 1)).take (diffIndex + 1)
    else
      incrementFirstFrom start (diffIndex + 1)

/-- `BytewiseComparatorImpl::FindShortSuccessor`; its test `byte != 0xff` is
`byte < 0xff` on a byte. -/
def findShortSuccessor (key : Bytes) : Bytes := incrementFirstFrom key 0

/-- `BytewiseComparatorImpl::IsSameLengthImmediateSuccessor`. -/
def isSameLengthImmediateSuccessor (s t : Bytes) : Bool :=
  if s.length ≠ t.length ∨ s.length = 0 then false
  else
    let diffInd := differenceOffset s t
    if diffInd ≥ s.length then false
    else
      let byteS := s[diffInd]!
      let byteT := t[diffInd]!
      if byteS ≠ 0xff ∧ byteS.toNat + 1 = byteT.toNat then
        -- every later byte is `0xff` in `s` and `0x00` in `t`
        ((s.drop (diffInd + 1)).zip (t.drop (diffInd + 1))).all
          fun p => p.1 == 0xff && p.2 == 0x00
      else false

end BytewiseComparatorImpl

/-- `ReverseBytewiseComparatorImpl::Compare`: `-a.compare(b)`. -/
def reverseBytewiseCompare : Comparator := fun a b => (bytewiseCompare a b).swap

namespace ReverseBytewiseComparatorImpl

/-- `ReverseBytewiseComparatorImpl::FindShortestSeparator`: cut `start` after
the first byte where it is larger than `limit`, unless that byte is its last. -/
def findShortestSeparator (start limit : Bytes) : Bytes :=
  let minLength := min start.length limit.length
  let diffIndex := differenceOffset start limit
  if diffIndex = minLength then start
  else
    let startByte := start[diffIndex]!
    let limitByte := limit[diffIndex]!
    if startByte > limitByte ∧ diffIndex < start.length - 1 then start.take (diffIndex + 1)
    else start

/-- `ReverseBytewiseComparatorImpl::FindShortSuccessor` does nothing. -/
def findShortSuccessor (key : Bytes) : Bytes := key

end ReverseBytewiseComparatorImpl

/-- The methods of a user comparator that `InternalKeyComparator`'s hooks call. -/
structure UserComparator where
  compare : Comparator
  findShortestSeparator : Bytes → Bytes → Bytes
  findShortSuccessor : Bytes → Bytes

/-- `BytewiseComparator()`. -/
def BytewiseComparator : UserComparator :=
  ⟨bytewiseCompare, BytewiseComparatorImpl.findShortestSeparator,
    BytewiseComparatorImpl.findShortSuccessor⟩

/-- `ReverseBytewiseComparator()`. -/
def ReverseBytewiseComparator : UserComparator :=
  ⟨reverseBytewiseCompare, ReverseBytewiseComparatorImpl.findShortestSeparator,
    ReverseBytewiseComparatorImpl.findShortSuccessor⟩

namespace InternalKeyComparator

/-- The common tail of both hooks: when the shortened user key `tmp` is no
longer than `key`'s and compares larger, the internal key of `tmp` with the
footer `PackSequenceAndType(kMaxSequenceNumber, kValueTypeForSeek)`, the first
among those of `tmp`; otherwise `key` itself. -/
def replaceUserKey (ucmp : UserComparator) (key : InternalKey) (tmp : Bytes) : InternalKey :=
  if tmp.length ≤ key.userKey.length ∧ ucmp.compare key.userKey tmp = .lt then
    ⟨tmp ++ encodeFixed64 (PackSequenceAndType kMaxSequenceNumber kValueTypeForSeek)⟩
  else key

/-- `InternalKeyComparator::FindShortestSeparator`. -/
def findShortestSeparator (ucmp : UserComparator) (start limit : InternalKey) : InternalKey :=
  replaceUserKey ucmp start (ucmp.findShortestSeparator start.userKey limit.userKey)

/-- `InternalKeyComparator::FindShortSuccessor`. -/
def findShortSuccessor (ucmp : UserComparator) (key : InternalKey) : InternalKey :=
  replaceUserKey ucmp key (ucmp.findShortSuccessor key.userKey)

end InternalKeyComparator

end HapDB
