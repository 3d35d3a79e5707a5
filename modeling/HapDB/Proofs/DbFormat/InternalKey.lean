import HapDB.Db.InternalKeyComparator
import HapDB.Proofs.RangeDel.Fragments

/-!
# The internal-key format is faithful and keeps the order

An internal key is its user key followed by the footer
`PackSequenceAndType(s, t) = (s << 8) | t`.  For a sequence number of at most
56 bits (`kMaxSequenceNumber`) the footer is `s * 256 + t` as a number
(`toNat_PackSequenceAndType`), and everything below follows from that:

| lemma | content |
|---|---|
| `parseInternalKey_appendInternalKey` | the footer's low byte is `t`, the rest `s` |
| `internalKeyCompare_appendInternalKey` | footers compare as `(s, t)` lexicographically |
| `compareKeySeq_appendInternalKey` | `>> 8` leaves `s` alone |
| `lookupKey_le_of_le`, `lookupKey_gt_of_lt` | `kValueTypeForSeek` is the largest extended type |

The comparison lemmas need nothing of the user comparator; the lookup key's
place needs only that the comparator finds a user key equal to itself.
-/

namespace HapDB

/-! ## The footer as a number -/

theorem toNat_lt_of_le_kMaxSequenceNumber {s : UInt64} (hs : s ≤ kMaxSequenceNumber) :
    s.toNat < 2 ^ 56 := by
  have h := UInt64.le_iff_toNat_le.mp hs
  have hmax : kMaxSequenceNumber.toNat = 2 ^ 56 - 1 := rfl
  omega

/-- A footer is `sequence * 256 + type`. -/
theorem toNat_PackSequenceAndType {s : UInt64} (hs : s ≤ kMaxSequenceNumber) (t : ValueType) :
    (PackSequenceAndType s t).toNat = s.toNat * 256 + t.toByte.toNat := by
  have hs' := toNat_lt_of_le_kMaxSequenceNumber hs
  -- the shift does not overflow: the sequence number has 56 bits
  have hshift : (s <<< 8).toNat = s.toNat <<< 8 := by
    rw [UInt64.toNat_shiftLeft, show (8 : UInt64).toNat % 64 = 8 from rfl,
      Nat.mod_eq_of_lt (by rw [Nat.shiftLeft_eq]; omega)]
  -- and the type byte lies below the shifted bits, so `|||` adds it
  rw [PackSequenceAndType, UInt64.toNat_or, hshift, UInt8.toNat_toUInt64,
    ← Nat.shiftLeft_add_eq_or_of_lt t.toByte.toNat_lt, Nat.shiftLeft_eq]


section Pack

variable {s sa sb : UInt64} {t ta tb : ValueType}

theorem PackSequenceAndType_shiftRight (hs : s ≤ kMaxSequenceNumber) :
    PackSequenceAndType s t >>> 8 = s := by
  have ht := t.toByte.toNat_lt
  apply UInt64.toNat_inj.mp
  rw [UInt64.toNat_shiftRight, show (8 : UInt64).toNat % 64 = 8 from rfl, Nat.shiftRight_eq_div_pow,
    toNat_PackSequenceAndType hs]
  omega

theorem PackSequenceAndType_typeByte (hs : s ≤ kMaxSequenceNumber) :
    UInt8.ofNat ((PackSequenceAndType s t).toNat % 256) = t.toByte := by
  have ht := t.toByte.toNat_lt
  have hmod : (s.toNat * 256 + t.toByte.toNat) % 256 = t.toByte.toNat := by omega
  rw [toNat_PackSequenceAndType hs, hmod, UInt8.ofNat_toNat]

/-- Footers compare as their sequence numbers, then as their type bytes. -/
theorem PackSequenceAndType_lt_iff (ha : sa ≤ kMaxSequenceNumber) (hb : sb ≤ kMaxSequenceNumber) :
    PackSequenceAndType sa ta < PackSequenceAndType sb tb ↔
      sa < sb ∨ sa = sb ∧ ta.toByte < tb.toByte := by
  have := ta.toByte.toNat_lt
  have := tb.toByte.toNat_lt
  rw [UInt64.lt_iff_toNat_lt, toNat_PackSequenceAndType ha, toNat_PackSequenceAndType hb,
    UInt64.lt_iff_toNat_lt, ← UInt64.toNat_inj, UInt8.lt_iff_toNat_lt]
  omega

end Pack

/-! ## The two halves of an encoded key -/

@[simp] theorem userKey_appendInternalKey (k : ParsedInternalKey) :
    (InternalKey.mk (appendInternalKey [] k)).userKey = k.userKey := by
  simp [InternalKey.userKey, appendInternalKey]

@[simp] theorem footer_appendInternalKey (k : ParsedInternalKey) :
    decodeFixed64 ((appendInternalKey [] k).drop ((appendInternalKey [] k).length - 8)) =
      PackSequenceAndType k.sequence k.type := by
  have hdrop : (appendInternalKey [] k).drop ((appendInternalKey [] k).length - 8) =
      encodeFixed64 (PackSequenceAndType k.sequence k.type) ++ [] := by
    simp [appendInternalKey]
  rw [hdrop, decodeFixed64_encodeFixed64]

theorem InternalKey.make_eq (u : Bytes) (s : UInt64) (t : ValueType) :
    InternalKey.make u s t = ⟨appendInternalKey [] ⟨u, s, t⟩⟩ := rfl

/-- `ParseInternalKey` undoes `AppendInternalKey`. -/
theorem parseInternalKey_appendInternalKey (k : ParsedInternalKey)
    (hs : k.sequence ≤ kMaxSequenceNumber) (ht : k.type.IsExtendedValueType) :
    parseInternalKey (appendInternalKey [] k) = some k := by
  have hlen : ¬(appendInternalKey [] k).length < 8 := by simp [appendInternalKey]
  have hkey : (appendInternalKey [] k).take ((appendInternalKey [] k).length - 8) = k.userKey :=
    userKey_appendInternalKey k
  simp only [parseInternalKey, hlen, if_false, footer_appendInternalKey,
    PackSequenceAndType_typeByte hs, ValueType.ofByte?_toByte, ht, if_true, hkey,
    PackSequenceAndType_shiftRight hs]

/-! ## Comparing encoded keys -/

/-- `InternalKeyComparator::Compare` on two encoded keys is the comparison of
the parsed keys. -/
theorem internalKeyCompare_appendInternalKey (ucmp : Comparator) {a b : ParsedInternalKey}
    (ha : a.sequence ≤ kMaxSequenceNumber) (hb : b.sequence ≤ kMaxSequenceNumber) :
    internalKeyCompare ucmp ⟨appendInternalKey [] a⟩ ⟨appendInternalKey [] b⟩ =
      parsedInternalKeyCompare ucmp a b := by
  simp only [internalKeyCompare, parsedInternalKeyCompare, userKey_appendInternalKey,
    footer_appendInternalKey]
  cases ucmp a.userKey b.userKey with
  | eq =>
    -- both sides order `(sequence, type)` lexicographically, larger first
    simp only [gt_iff_lt, PackSequenceAndType_lt_iff ha hb, PackSequenceAndType_lt_iff hb ha,
      UInt64.lt_iff_toNat_lt, UInt8.lt_iff_toNat_lt, ← UInt64.toNat_inj]
    split_ifs <;> first | rfl | omega
  | lt | gt => rfl

/-- `CompareKeySeq` on two encoded keys compares them as if both had the
first key's type. -/
theorem compareKeySeq_appendInternalKey (ucmp : Comparator) {a b : ParsedInternalKey}
    (ha : a.sequence ≤ kMaxSequenceNumber) (hb : b.sequence ≤ kMaxSequenceNumber) :
    compareKeySeq ucmp ⟨appendInternalKey [] a⟩ ⟨appendInternalKey [] b⟩ =
      parsedInternalKeyCompare ucmp a { b with type := a.type } := by
  simp only [compareKeySeq, parsedInternalKeyCompare, userKey_appendInternalKey,
    footer_appendInternalKey]
  cases ucmp a.userKey b.userKey with
  | eq =>
    -- the type byte is shifted out on the left and equal on the right
    simp only [PackSequenceAndType_shiftRight ha, PackSequenceAndType_shiftRight hb, gt_iff_lt,
      UInt8.lt_irrefl, ↓reduceIte]
  | lt | gt => rfl

/-- Every extended value type is at most `kValueTypeForSeek`. -/
theorem toByte_le_kValueTypeForSeek {t : ValueType} (ht : t.IsExtendedValueType) :
    t.toByte ≤ kValueTypeForSeek.toByte := by
  cases t <;> first | decide | exact absurd ht (by decide)

section LookupKey

variable (ucmp : Comparator) [Std.ReflCmp ucmp] (u : Bytes) {s : UInt64}

/-- The lookup key of sequence `s` sorts no later than a stored key of the same
user key written at or below `s`. -/
theorem lookupKey_le_of_le (hs : s ≤ kMaxSequenceNumber) {s' : UInt64} (hle : s' ≤ s)
    {t' : ValueType} (ht' : t'.IsExtendedValueType) :
    internalKeyCompare ucmp (LookupKey.internalKey u s) (InternalKey.make u s' t') ≠ .gt := by
  have hs' : s' ≤ kMaxSequenceNumber := UInt64.le_trans hle hs
  have ht := toByte_le_kValueTypeForSeek ht'
  rw [LookupKey.internalKey, InternalKey.make_eq, InternalKey.make_eq,
    internalKeyCompare_appendInternalKey ucmp hs hs']
  simp only [parsedInternalKeyCompare, Std.ReflCmp.compare_self]
  -- the footer of the stored key is not larger: neither its sequence nor its type is
  split_ifs with _ hlt _ hty
  · decide
  · exact absurd hlt (UInt64.not_lt.mpr hle)
  · decide
  · exact absurd hty (UInt8.not_lt.mpr ht)
  · decide

/-- The lookup key of sequence `s` sorts after every stored key of the same
user key written above `s`. -/
theorem lookupKey_gt_of_lt (hs : s ≤ kMaxSequenceNumber) {s'' : UInt64} (hlt : s < s'')
    (hs'' : s'' ≤ kMaxSequenceNumber) (t'' : ValueType) :
    internalKeyCompare ucmp (LookupKey.internalKey u s) (InternalKey.make u s'' t'') = .gt := by
  rw [LookupKey.internalKey, InternalKey.make_eq, InternalKey.make_eq,
    internalKeyCompare_appendInternalKey ucmp hs hs'']
  simp only [parsedInternalKeyCompare, Std.ReflCmp.compare_self]
  rw [if_neg (UInt64.not_lt.mpr (UInt64.le_of_lt hlt)), if_pos hlt]

end LookupKey

/-- The internal-key format: parsing undoes `AppendInternalKey`, comparing two
encoded keys is comparing the parsed keys (and `CompareKeySeq` is that with the
type left out), and a lookup key lands between the versions of its user key
written above its sequence number and those written at or below it. -/
theorem internalKey_encoding_faithful (ucmp : Comparator) [Std.ReflCmp ucmp] :
    (∀ k : ParsedInternalKey, k.sequence ≤ kMaxSequenceNumber → k.type.IsExtendedValueType →
      parseInternalKey (appendInternalKey [] k) = some k) ∧
    (∀ a b : ParsedInternalKey, a.sequence ≤ kMaxSequenceNumber →
      b.sequence ≤ kMaxSequenceNumber →
      internalKeyCompare ucmp ⟨appendInternalKey [] a⟩ ⟨appendInternalKey [] b⟩ =
          parsedInternalKeyCompare ucmp a b ∧
        compareKeySeq ucmp ⟨appendInternalKey [] a⟩ ⟨appendInternalKey [] b⟩ =
          parsedInternalKeyCompare ucmp a { b with type := a.type }) ∧
    (∀ (u : Bytes) (s s' : UInt64) (t' : ValueType), s ≤ kMaxSequenceNumber → s' ≤ s →
      t'.IsExtendedValueType →
      internalKeyCompare ucmp (LookupKey.internalKey u s) (InternalKey.make u s' t') ≠ .gt) ∧
    (∀ (u : Bytes) (s s'' : UInt64) (t'' : ValueType), s ≤ kMaxSequenceNumber → s < s'' →
      s'' ≤ kMaxSequenceNumber →
      internalKeyCompare ucmp (LookupKey.internalKey u s) (InternalKey.make u s'' t'') = .gt) := by
  refine ⟨?_, ?_, ?_, ?_⟩
  · intro k hs ht
    exact parseInternalKey_appendInternalKey k hs ht
  · intro a b ha hb
    exact ⟨internalKeyCompare_appendInternalKey ucmp ha hb,
      compareKeySeq_appendInternalKey ucmp ha hb⟩
  · intro u s s' t' hs hle ht'
    exact lookupKey_le_of_le ucmp u hs hle ht'
  · intro u s s'' t'' hs hlt hs''
    exact lookupKey_gt_of_lt ucmp u hs hlt hs'' t''

/-- The format under the bytewise comparator. -/
theorem internalKey_encoding_bytewise :
    (∀ k : ParsedInternalKey, k.sequence ≤ kMaxSequenceNumber → k.type.IsExtendedValueType →
      parseInternalKey (appendInternalKey [] k) = some k) ∧
    (∀ a b : ParsedInternalKey, a.sequence ≤ kMaxSequenceNumber →
      b.sequence ≤ kMaxSequenceNumber →
      internalKeyCompare bytewiseCompare ⟨appendInternalKey [] a⟩ ⟨appendInternalKey [] b⟩ =
          parsedInternalKeyCompare bytewiseCompare a b ∧
        compareKeySeq bytewiseCompare ⟨appendInternalKey [] a⟩ ⟨appendInternalKey [] b⟩ =
          parsedInternalKeyCompare bytewiseCompare a { b with type := a.type }) ∧
    (∀ (u : Bytes) (s s' : UInt64) (t' : ValueType), s ≤ kMaxSequenceNumber → s' ≤ s →
      t'.IsExtendedValueType →
      internalKeyCompare bytewiseCompare (LookupKey.internalKey u s) (InternalKey.make u s' t') ≠
        .gt) ∧
    (∀ (u : Bytes) (s s'' : UInt64) (t'' : ValueType), s ≤ kMaxSequenceNumber → s < s'' →
      s'' ≤ kMaxSequenceNumber →
      internalKeyCompare bytewiseCompare (LookupKey.internalKey u s) (InternalKey.make u s'' t'') =
        .gt) :=
  internalKey_encoding_faithful bytewiseCompare

end HapDB
