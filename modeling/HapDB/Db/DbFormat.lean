import HapDB.Util.Coding

/-!
# `db/dbformat.h`: value types and internal keys

Every record the store writes carries a one-byte `ValueType`.  The byte values
are on disk (in write batches, WAL records and internal keys) and must not
change; `ValueType.toByte` lists them, and `ValueType.ofByte?` is the `switch`
of a decoder, `none` for a byte that names no type.

An internal key is a user key followed by eight bytes: the sequence number
shifted left by eight, with the type in the low byte.  `parseInternalKey`
splits one; it accepts exactly the keys whose type is an extended value type
(`IsExtendedValueType`), which is what `InternalKey::Valid` asks of the keys
in a `VersionEdit`.
-/

namespace HapDB

/-- `enum ValueType`. -/
inductive ValueType where
  | kTypeDeletion
  | kTypeValue
  | kTypeMerge
  | kTypeLogData
  | kTypeColumnFamilyDeletion
  | kTypeColumnFamilyValue
  | kTypeColumnFamilyMerge
  | kTypeSingleDeletion
  | kTypeColumnFamilySingleDeletion
  | kTypeBeginPrepareXID
  | kTypeEndPrepareXID
  | kTypeCommitXID
  | kTypeRollbackXID
  | kTypeNoop
  | kTypeColumnFamilyRangeDeletion
  | kTypeRangeDeletion
  | kTypeValueIndex
  | kTypeMergeIndex
  | kTypeBeginPersistedPrepareXID
  | kTypeBeginUnprepareXID
  deriving DecidableEq, Repr

namespace ValueType

/-- The on-disk byte of each type. -/
def toByte : ValueType → UInt8
  | kTypeDeletion => 0x0
  | kTypeValue => 0x1
  | kTypeMerge => 0x2
  | kTypeLogData => 0x3
  | kTypeColumnFamilyDeletion => 0x4
  | kTypeColumnFamilyValue => 0x5
  | kTypeColumnFamilyMerge => 0x6
  | kTypeSingleDeletion => 0x7
  | kTypeColumnFamilySingleDeletion => 0x8
  | kTypeBeginPrepareXID => 0x9
  | kTypeEndPrepareXID => 0xA
  | kTypeCommitXID => 0xB
  | kTypeRollbackXID => 0xC
  | kTypeNoop => 0xD
  | kTypeColumnFamilyRangeDeletion => 0xE
  | kTypeRangeDeletion => 0xF
  | kTypeValueIndex => 0x10
  | kTypeMergeIndex => 0x11
  | kTypeBeginPersistedPrepareXID => 0x12
  | kTypeBeginUnprepareXID => 0x13

/-- The type a byte names, if any. -/
def ofByte? (b : UInt8) : Option ValueType :=
  match b.toNat with
  | 0x0 => some kTypeDeletion
  | 0x1 => some kTypeValue
  | 0x2 => some kTypeMerge
  | 0x3 => some kTypeLogData
  | 0x4 => some kTypeColumnFamilyDeletion
  | 0x5 => some kTypeColumnFamilyValue
  | 0x6 => some kTypeColumnFamilyMerge
  | 0x7 => some kTypeSingleDeletion
  | 0x8 => some kTypeColumnFamilySingleDeletion
  | 0x9 => some kTypeBeginPrepareXID
  | 0xA => some kTypeEndPrepareXID
  | 0xB => some kTypeCommitXID
  | 0xC => some kTypeRollbackXID
  | 0xD => some kTypeNoop
  | 0xE => some kTypeColumnFamilyRangeDeletion
  | 0xF => some kTypeRangeDeletion
  | 0x10 => some kTypeValueIndex
  | 0x11 => some kTypeMergeIndex
  | 0x12 => some kTypeBeginPersistedPrepareXID
  | 0x13 => some kTypeBeginUnprepareXID
  | _ => none

@[simp] theorem ofByte?_toByte (t : ValueType) : ofByte? t.toByte = some t := by
  cases t <;> rfl

theorem toByte_injective : Function.Injective toByte := by
  intro a b h
  have := congrArg ofByte? h
  simpa using this

/-- `IsValueType`: the types of entries in memtables and data blocks. -/
def IsValueType (t : ValueType) : Bool :=
  t.toByte ≤ kTypeMerge.toByte || t == kTypeSingleDeletion || t == kTypeValueIndex ||
    t == kTypeMergeIndex

/-- `IsExtendedValueType`: a value type or a range deletion. -/
def IsExtendedValueType (t : ValueType) : Bool := IsValueType t || t == kTypeRangeDeletion

end ValueType

/-- `kMaxSequenceNumber`: sequence numbers take the 56 bits above the type byte. -/
def kMaxSequenceNumber : UInt64 := 2 ^ 56 - 1

/-- `ParsedInternalKey`. -/
structure ParsedInternalKey where
  userKey : Bytes
  sequence : UInt64
  type : ValueType
  deriving DecidableEq, Repr

/-- `ParseInternalKey`: the last eight bytes hold `(sequence << 8) | type`; a key
shorter than eight bytes, or whose type byte is not an extended value type,
does not parse. -/
def parseInternalKey (internalKey : Bytes) : Option ParsedInternalKey :=
  let n := internalKey.length
  if n < 8 then none
  else
    let num := decodeFixed64 (internalKey.drop (n - 8))
    match ValueType.ofByte? (UInt8.ofNat (num.toNat % 256)) with
    | some t =>
        if t.IsExtendedValueType then some ⟨internalKey.take (n - 8), num >>> 8, t⟩ else none
    | none => none

/-- `InternalKey::Valid`. -/
def internalKeyValid (rep : Bytes) : Bool := (parseInternalKey rep).isSome

end HapDB
