import HapDB.Lib.ByteCoding

/-!
# `util/coding.h`: fixed-width words, varints and length-prefixed slices

A `Slice` or a `std::string` is a list of bytes here.  The `Put*` functions
append to their destination, the `Get*` functions read from the front of their
input and return what they read with the rest of the input, or `none` where the
C++ returns `false` (or `nullptr`).

The varint encoders are instances of `Codec.encodeGroups`: `EncodeVarint64` is
its loop with nine continuation bytes at most, and `EncodeVarint32` unrolls the
same loop into five cases (`encodeVarint32_eq`).  The decoders are instances of
`Codec.decodeGroups` with the bounds of their `for` loops: `shift <= 28` into a
32-bit result and `shift <= 63` into a 64-bit one.  The fast path of
`GetVarint32Ptr` (a first byte with a clear top bit) is the first step of the
same loop (`getVarint32Ptr_eq`).

The round-trip lemmas at the end are what every record format of the store is
built on: a value written by `Put*` is read back by `Get*`, whatever follows it.
-/

namespace HapDB

/-- The bytes of a `Slice` or a `std::string`. -/
abbrev Bytes := List UInt8

/-- `kMaxVarint64Length`. -/
def kMaxVarint64Length : ℕ := 10

/-! ## Fixed width -/

def encodeFixed32 (value : UInt32) : Bytes := Codec.encodeLE 4 value.toNat

def encodeFixed64 (value : UInt64) : Bytes := Codec.encodeLE 8 value.toNat

/-- `DecodeFixed32`: the word in the first four bytes. -/
def decodeFixed32 (ptr : Bytes) : UInt32 := UInt32.ofNat (Codec.decodeLE (ptr.take 4))

/-- `DecodeFixed64`: the word in the first eight bytes. -/
def decodeFixed64 (ptr : Bytes) : UInt64 := UInt64.ofNat (Codec.decodeLE (ptr.take 8))

def putFixed32 (dst : Bytes) (value : UInt32) : Bytes := dst ++ encodeFixed32 value

def putFixed64 (dst : Bytes) (value : UInt64) : Bytes := dst ++ encodeFixed64 value

/-- `DecodeFixed16`: the word in the first two bytes. -/
def decodeFixed16 (ptr : Bytes) : UInt16 := UInt16.ofNat (Codec.decodeLE (ptr.take 2))

def getFixed32 (input : Bytes) : Option (UInt32 × Bytes) :=
  if input.length < 4 then none else some (decodeFixed32 input, input.drop 4)

def getFixed64 (input : Bytes) : Option (UInt64 × Bytes) :=
  if input.length < 8 then none else some (decodeFixed64 input, input.drop 8)

/-! ## Varints -/

/-- `EncodeVarint32`: the five cases of the source, by the size of `v`.  A byte
`v | B` stores the low eight bits of `v` with the top bit set. -/
def encodeVarint32 (v : UInt32) : Bytes :=
  let n := v.toNat
  if n < 2 ^ 7 then [UInt8.ofNat n]
  else if n < 2 ^ 14 then [UInt8.ofNat n ||| 128, UInt8.ofNat (n >>> 7)]
  else if n < 2 ^ 21 then
    [UInt8.ofNat n ||| 128, UInt8.ofNat (n >>> 7) ||| 128, UInt8.ofNat (n >>> 14)]
  else if n < 2 ^ 28 then
    [UInt8.ofNat n ||| 128, UInt8.ofNat (n >>> 7) ||| 128, UInt8.ofNat (n >>> 14) ||| 128,
      UInt8.ofNat (n >>> 21)]
  else
    [UInt8.ofNat n ||| 128, UInt8.ofNat (n >>> 7) ||| 128, UInt8.ofNat (n >>> 14) ||| 128,
      UInt8.ofNat (n >>> 21) ||| 128, UInt8.ofNat (n >>> 28)]

/-- `EncodeVarint64`: `while (v >= 128) { emit (v & 127) | 128; v >>= 7; }
emit v;`.  A 64-bit value needs at most nine continuation bytes. -/
def encodeVarint64 (v : UInt64) : Bytes := Codec.encodeGroups 9 v.toNat

def putVarint32 (dst : Bytes) (v : UInt32) : Bytes := dst ++ encodeVarint32 v

def putVarint64 (dst : Bytes) (v : UInt64) : Bytes := dst ++ encodeVarint64 v

def putVarint32Varint32 (dst : Bytes) (v1 v2 : UInt32) : Bytes :=
  dst ++ encodeVarint32 v1 ++ encodeVarint32 v2

def putVarint32Varint32Varint32 (dst : Bytes) (v1 v2 v3 : UInt32) : Bytes :=
  dst ++ encodeVarint32 v1 ++ encodeVarint32 v2 ++ encodeVarint32 v3

def putVarint32Varint64 (dst : Bytes) (v1 : UInt32) (v2 : UInt64) : Bytes :=
  dst ++ encodeVarint32 v1 ++ encodeVarint64 v2

def putVarint64Varint64 (dst : Bytes) (v1 v2 : UInt64) : Bytes :=
  dst ++ encodeVarint64 v1 ++ encodeVarint64 v2

def putVarint32Varint32Varint64 (dst : Bytes) (v1 v2 : UInt32) (v3 : UInt64) : Bytes :=
  dst ++ encodeVarint32 v1 ++ encodeVarint32 v2 ++ encodeVarint64 v3

/-- `GetVarint32PtrFallback`: `for (shift = 0; shift <= 28 && p < limit; shift += 7)`,
accumulating into a `uint32_t`. -/
def getVarint32PtrFallback (p : Bytes) : Option (UInt32 × Bytes) :=
  (Codec.decodeGroups 28 32 0 0 p).map fun r => (UInt32.ofNat r.1, r.2)

/-- `GetVarint32Ptr`: a first byte with a clear top bit is the value itself;
anything else goes to the fallback loop. -/
def getVarint32Ptr (p : Bytes) : Option (UInt32 × Bytes) :=
  match p with
  | b :: rest => if b &&& 128 = 0 then some (b.toUInt32, rest) else getVarint32PtrFallback p
  | [] => getVarint32PtrFallback p

/-- `GetVarint64Ptr`: `for (shift = 0; shift <= 63 && p < limit; shift += 7)`,
accumulating into a `uint64_t`. -/
def getVarint64Ptr (p : Bytes) : Option (UInt64 × Bytes) :=
  (Codec.decodeGroups 63 64 0 0 p).map fun r => (UInt64.ofNat r.1, r.2)

/-- `VarintLength`: `len = 1; while (v >= 128) { v >>= 7; len++; }`. -/
def varintLength (v : UInt64) : ℕ := if v < 128 then 1 else varintLength (v >>> 7) + 1
termination_by v.toNat
decreasing_by
  have hpos : 0 < v.toNat := by
    have : ¬v.toNat < 128 := fun h => by simp_all [UInt64.lt_iff_toNat_lt]
    omega
  rw [UInt64.toNat_shiftRight, Nat.shiftRight_eq_div_pow]
  exact Nat.div_lt_self hpos (Nat.one_lt_two_pow (by decide))

/-- `i64ToZigzag`: `(static_cast<uint64_t>(l) << 1) ^ static_cast<uint64_t>(l >> 63)`, where
`l >> 63` shifts the sign bit through the word. -/
def i64ToZigzag (l : Int64) : UInt64 := (l.toUInt64 <<< 1) ^^^ (l >>> 63).toUInt64

/-- `zigzagToI64`: `(n >> 1) ^ -static_cast<int64_t>(n & 1)`, computed in `uint64_t` and
returned as `int64_t`. -/
def zigzagToI64 (n : UInt64) : Int64 := ((n >>> 1) ^^^ (-(n &&& 1).toInt64).toUInt64).toInt64

def getVarint32 (input : Bytes) : Option (UInt32 × Bytes) := getVarint32Ptr input

def getVarint64 (input : Bytes) : Option (UInt64 × Bytes) := getVarint64Ptr input

/-! ## Fixed-point fractions -/

/-- `kFloatingPrecision`: fractions are kept in units of `2 ^ -20`. -/
def kFloatingPrecision : UInt64 := (1 : UInt64) <<< 20

/-- `DoubleToU64`: the value in units of `2 ^ -20`, truncated. -/
def doubleToU64 (value : Float) : UInt64 := (value * kFloatingPrecision.toFloat).toUInt64

/-- `U64ToDouble`. -/
def u64ToDouble (value : UInt64) : Float := value.toFloat / kFloatingPrecision.toFloat

/-! ## Length-prefixed slices -/

/-- `PutLengthPrefixedSlice`: the length, cast to `uint32_t`, then the bytes. -/
def putLengthPrefixedSlice (dst value : Bytes) : Bytes :=
  putVarint32 dst (UInt32.ofNat value.length) ++ value

/-- `GetLengthPrefixedSlice`: a varint length, then that many bytes if the
input has them. -/
def getLengthPrefixedSlice (input : Bytes) : Option (Bytes × Bytes) :=
  match getVarint32 input with
  | none => none
  | some (len, rest) =>
      if len.toNat ≤ rest.length then some (rest.take len.toNat, rest.drop len.toNat) else none

/-! ## Equations -/

@[simp] theorem putFixed32_eq (dst : Bytes) (v : UInt32) :
    putFixed32 dst v = dst ++ encodeFixed32 v := rfl

@[simp] theorem putFixed64_eq (dst : Bytes) (v : UInt64) :
    putFixed64 dst v = dst ++ encodeFixed64 v := rfl

@[simp] theorem putVarint32_eq (dst : Bytes) (v : UInt32) :
    putVarint32 dst v = dst ++ encodeVarint32 v := rfl

@[simp] theorem putVarint64_eq (dst : Bytes) (v : UInt64) :
    putVarint64 dst v = dst ++ encodeVarint64 v := rfl

@[simp] theorem putVarint32Varint32_eq (dst : Bytes) (v1 v2 : UInt32) :
    putVarint32Varint32 dst v1 v2 = dst ++ encodeVarint32 v1 ++ encodeVarint32 v2 := rfl

@[simp] theorem putVarint32Varint32Varint32_eq (dst : Bytes) (v1 v2 v3 : UInt32) :
    putVarint32Varint32Varint32 dst v1 v2 v3 =
      dst ++ encodeVarint32 v1 ++ encodeVarint32 v2 ++ encodeVarint32 v3 := rfl

@[simp] theorem putVarint32Varint64_eq (dst : Bytes) (v1 : UInt32) (v2 : UInt64) :
    putVarint32Varint64 dst v1 v2 = dst ++ encodeVarint32 v1 ++ encodeVarint64 v2 := rfl

@[simp] theorem putVarint64Varint64_eq (dst : Bytes) (v1 v2 : UInt64) :
    putVarint64Varint64 dst v1 v2 = dst ++ encodeVarint64 v1 ++ encodeVarint64 v2 := rfl

@[simp] theorem putVarint32Varint32Varint64_eq (dst : Bytes) (v1 v2 : UInt32) (v3 : UInt64) :
    putVarint32Varint32Varint64 dst v1 v2 v3 =
      dst ++ encodeVarint32 v1 ++ encodeVarint32 v2 ++ encodeVarint64 v3 := rfl

@[simp] theorem putLengthPrefixedSlice_eq (dst value : Bytes) :
    putLengthPrefixedSlice dst value = dst ++ encodeVarint32 (UInt32.ofNat value.length) ++ value :=
  rfl

@[simp] theorem length_encodeFixed32 (v : UInt32) : (encodeFixed32 v).length = 4 := by
  simp [encodeFixed32]

@[simp] theorem length_encodeFixed64 (v : UInt64) : (encodeFixed64 v).length = 8 := by
  simp [encodeFixed64]

/-! ## The unrolled encoder is the loop -/

set_option maxRecDepth 8000 in
/-- A byte `v | B`: the low seven bits of `v` under the top bit. -/
private theorem ofNat_or_128 (n : ℕ) : UInt8.ofNat n ||| 128 = UInt8.ofNat (n % 128 + 128) := by
  have hbyte : ∀ x : UInt8, x ||| 128 = UInt8.ofNat (x.toNat % 128 + 128) := by
    decide +revert
  rw [hbyte, UInt8.toNat_ofNat', Nat.mod_mod_of_dvd n (by norm_num : 128 ∣ 2 ^ 8)]

theorem encodeVarint32_eq (v : UInt32) : encodeVarint32 v = Codec.encodeGroups 4 v.toNat := by
  have hv := v.toNat_lt
  simp only [encodeVarint32, ofNat_or_128, Nat.shiftRight_eq_div_pow]
  -- each case of the source is the loop unrolled as far as `v` needs
  have h7 : ∀ n : ℕ, n / 2 ^ 7 = n / 128 := fun _ => rfl
  have h14 : ∀ n : ℕ, n / 2 ^ 14 = n / 128 / 128 := fun n => by
    simp only [Nat.div_div_eq_div_mul]; norm_num
  have h21 : ∀ n : ℕ, n / 2 ^ 21 = n / 128 / 128 / 128 := fun n => by
    simp only [Nat.div_div_eq_div_mul]; norm_num
  have h28 : ∀ n : ℕ, n / 2 ^ 28 = n / 128 / 128 / 128 / 128 := fun n => by
    simp only [Nat.div_div_eq_div_mul]; norm_num
  simp only [h7, h14, h21, h28]
  split_ifs with c1 c2 c3 c4
  · rw [Codec.encodeGroups_of_lt _ (by omega)]
  · rw [Codec.encodeGroups_succ_of_le _ (by omega), Codec.encodeGroups_of_lt _ (by omega)]
  · rw [Codec.encodeGroups_succ_of_le _ (by omega), Codec.encodeGroups_succ_of_le _ (by omega),
      Codec.encodeGroups_of_lt _ (by omega)]
  · rw [Codec.encodeGroups_succ_of_le _ (by omega), Codec.encodeGroups_succ_of_le _ (by omega),
      Codec.encodeGroups_succ_of_le _ (by omega), Codec.encodeGroups_of_lt _ (by omega)]
  · rw [Codec.encodeGroups_succ_of_le _ (by omega), Codec.encodeGroups_succ_of_le _ (by omega),
      Codec.encodeGroups_succ_of_le _ (by omega), Codec.encodeGroups_succ_of_le _ (by omega)]
    rfl

set_option maxRecDepth 8000 in
/-- `byte & 128 == 0` is a byte below `128`. -/
private theorem and_128_eq_zero_iff (b : UInt8) : b &&& 128 = 0 ↔ b.toNat < 128 := by
  revert b
  decide

/-- The fast path of `GetVarint32Ptr` is the first turn of the fallback loop. -/
theorem getVarint32Ptr_eq (p : Bytes) : getVarint32Ptr p = getVarint32PtrFallback p := by
  cases p with
  | nil => rfl
  | cons b rest =>
      simp only [getVarint32Ptr]
      split
      · rename_i hclear
        have hb : b.toNat < 128 := (and_128_eq_zero_iff b).mp hclear
        have hb32 : b.toUInt32 = UInt32.ofNat b.toNat := by
          apply UInt32.toNat_inj.mp
          rw [UInt8.toNat_toUInt32, UInt32.toNat_ofNat', Nat.mod_eq_of_lt (by omega)]
        simp only [getVarint32PtrFallback, Codec.decodeGroups]
        rw [if_neg (by omega), if_neg (by omega)]
        simp only [Option.map_some, pow_zero, mul_one, zero_add]
        rw [Nat.mod_eq_of_lt (by omega), hb32]
      · rfl

/-! ## Round trips -/

theorem getVarint32_encodeVarint32 (v : UInt32) (rest : Bytes) :
    getVarint32 (encodeVarint32 v ++ rest) = some (v, rest) := by
  have hv := v.toNat_lt
  have hdecode := @Codec.decodeGroups_encodeGroups 28 32 4 v.toNat 0 0
    rest (by norm_num; omega) (by norm_num) (by norm_num) (by norm_num; omega)
  simp only [getVarint32, getVarint32Ptr_eq, getVarint32PtrFallback, encodeVarint32_eq, hdecode]
  simp

theorem getVarint64_encodeVarint64 (v : UInt64) (rest : Bytes) :
    getVarint64 (encodeVarint64 v ++ rest) = some (v, rest) := by
  have hv := v.toNat_lt
  have hdecode := @Codec.decodeGroups_encodeGroups 63 64 9 v.toNat 0 0
    rest (by norm_num; omega) (by norm_num) (by norm_num) (by norm_num; omega)
  simp only [getVarint64, getVarint64Ptr, encodeVarint64, hdecode]
  simp

theorem decodeFixed32_encodeFixed32 (v : UInt32) (rest : Bytes) :
    decodeFixed32 (encodeFixed32 v ++ rest) = v := by
  have hv := v.toNat_lt
  simp only [decodeFixed32, encodeFixed32]
  rw [List.take_append_of_le_length (by simp), List.take_of_length_le (by simp),
    Codec.decodeLE_encodeLE 4 _ (by norm_num; omega)]
  simp

/-- The fixed32 read from four bytes writes them back. -/
theorem encodeFixed32_decodeFixed32 (ptr : Bytes) (h : 4 ≤ ptr.length) :
    encodeFixed32 (decodeFixed32 ptr) = ptr.take 4 := by
  have hlen : (ptr.take 4).length = 4 := by simp [h]
  have hlt : Codec.decodeLE (ptr.take 4) < 2 ^ 32 := by
    have := Codec.decodeLE_lt (ptr.take 4)
    rw [hlen] at this
    norm_num at this ⊢
    exact this
  simp only [encodeFixed32, decodeFixed32, UInt32.toNat_ofNat', Nat.mod_eq_of_lt hlt]
  have henc := Codec.encodeLE_decodeLE (ptr.take 4)
  rwa [hlen] at henc

theorem getFixed32_encodeFixed32 (v : UInt32) (rest : Bytes) :
    getFixed32 (encodeFixed32 v ++ rest) = some (v, rest) := by
  simp [getFixed32, decodeFixed32_encodeFixed32]

theorem decodeFixed64_encodeFixed64 (v : UInt64) (rest : Bytes) :
    decodeFixed64 (encodeFixed64 v ++ rest) = v := by
  have hv := v.toNat_lt
  simp only [decodeFixed64, encodeFixed64]
  rw [List.take_append_of_le_length (by simp), List.take_of_length_le (by simp),
    Codec.decodeLE_encodeLE 8 _ (by norm_num; omega)]
  simp

theorem getFixed64_encodeFixed64 (v : UInt64) (rest : Bytes) :
    getFixed64 (encodeFixed64 v ++ rest) = some (v, rest) := by
  simp [getFixed64, decodeFixed64_encodeFixed64]

/-- A slice shorter than `2 ^ 32` bytes reads back from its length prefix; a
longer one would have its length cut to 32 bits by the `static_cast`. -/
theorem getLengthPrefixedSlice_encode (value rest : Bytes) (hlen : value.length < 2 ^ 32) :
    getLengthPrefixedSlice (putLengthPrefixedSlice [] value ++ rest) = some (value, rest) := by
  have hcast : (UInt32.ofNat value.length).toNat = value.length := by
    rw [UInt32.toNat_ofNat', Nat.mod_eq_of_lt hlen]
  simp only [putLengthPrefixedSlice_eq, List.nil_append, List.append_assoc, getLengthPrefixedSlice,
    getVarint32_encodeVarint32, hcast]
  simp

theorem encodeVarint32_ne_nil (v : UInt32) : encodeVarint32 v ≠ [] := by
  rw [encodeVarint32_eq]
  exact Codec.encodeGroups_ne_nil 4 _

theorem encodeVarint64_ne_nil (v : UInt64) : encodeVarint64 v ≠ [] :=
  Codec.encodeGroups_ne_nil 9 _

/-! ## Readers consume their input

A record reader recurses on what is left of its input; these lemmas give its
measure. -/

@[grind →] theorem length_lt_of_getVarint32 {input rest : Bytes} {v : UInt32}
    (h : getVarint32 input = some (v, rest)) : rest.length < input.length := by
  simp only [getVarint32, getVarint32Ptr_eq, getVarint32PtrFallback, Option.map_eq_some_iff] at h
  obtain ⟨⟨n, r⟩, hdec, hpair⟩ := h
  cases hpair
  exact Codec.decodeGroups_length hdec

@[grind →] theorem length_lt_of_getVarint64 {input rest : Bytes} {v : UInt64}
    (h : getVarint64 input = some (v, rest)) : rest.length < input.length := by
  simp only [getVarint64, getVarint64Ptr, Option.map_eq_some_iff] at h
  obtain ⟨⟨n, r⟩, hdec, hpair⟩ := h
  cases hpair
  exact Codec.decodeGroups_length hdec

@[grind →] theorem length_lt_of_getLengthPrefixedSlice {input rest slice : Bytes}
    (h : getLengthPrefixedSlice input = some (slice, rest)) : rest.length < input.length := by
  unfold getLengthPrefixedSlice at h
  split at h
  · cases h
  · rename_i len r hvar
    split at h
    · cases h
      have := length_lt_of_getVarint32 hvar
      simp only [List.length_drop]
      omega
    · cases h

/-! ## Readers ignore what follows

A reader stops at the end of what it reads, so bytes appended to its input are
left, unread, after what it left.  This is what makes a record format prefix
free: a record that reads completely cannot be read with anything after it. -/

theorem getVarint32_append {input rest : Bytes} {v : UInt32}
    (h : getVarint32 input = some (v, rest)) (extra : Bytes) :
    getVarint32 (input ++ extra) = some (v, rest ++ extra) := by
  simp only [getVarint32, getVarint32Ptr_eq, getVarint32PtrFallback, Option.map_eq_some_iff] at h ⊢
  obtain ⟨⟨n, r⟩, hdec, hpair⟩ := h
  cases hpair
  exact ⟨(n, r ++ extra), Codec.decodeGroups_append hdec extra, rfl⟩

theorem getVarint64_append {input rest : Bytes} {v : UInt64}
    (h : getVarint64 input = some (v, rest)) (extra : Bytes) :
    getVarint64 (input ++ extra) = some (v, rest ++ extra) := by
  simp only [getVarint64, getVarint64Ptr, Option.map_eq_some_iff] at h ⊢
  obtain ⟨⟨n, r⟩, hdec, hpair⟩ := h
  cases hpair
  exact ⟨(n, r ++ extra), Codec.decodeGroups_append hdec extra, rfl⟩

theorem getLengthPrefixedSlice_append {input rest slice : Bytes}
    (h : getLengthPrefixedSlice input = some (slice, rest)) (extra : Bytes) :
    getLengthPrefixedSlice (input ++ extra) = some (slice, rest ++ extra) := by
  unfold getLengthPrefixedSlice at h ⊢
  split at h
  · cases h
  · rename_i len r hvar
    split at h
    · rename_i hle
      cases h
      -- the slice lies inside `r`, so `take` and `drop` do not reach `extra`
      have hle' : len.toNat ≤ (r ++ extra).length := by
        simp only [List.length_append]
        omega
      rw [getVarint32_append hvar extra]
      dsimp only
      rw [if_pos hle', List.take_append_of_le_length hle, List.drop_append_of_le_length hle]
    · cases h

/-! ## Lengths

`VarintLength` counts the bytes the encoders write: ten at most for a 64-bit
value, and five for a 32-bit one. -/

/-- `VarintLength` runs the loop of `EncodeVarint64` without its output. -/
theorem varintLength_eq (v : UInt64) : varintLength v = Codec.groupCount 9 v.toNat := by
  fun_induction varintLength v with
  | case1 v hsmall =>
    have hv : v.toNat < 128 := UInt64.lt_iff_toNat_lt.mp hsmall
    simp [Codec.groupCount, hv]
  | case2 v hlarge ih =>
    have hv : 128 ≤ v.toNat := Nat.not_lt.mp fun h => hlarge (UInt64.lt_iff_toNat_lt.mpr h)
    have hshift : (v >>> 7).toNat = v.toNat / 128 := by
      rw [UInt64.toNat_shiftRight, Nat.shiftRight_eq_div_pow]
      rfl
    -- what is left after one group fits the eight groups that remain
    have hnext : v.toNat / 128 < 128 ^ (8 + 1) := by
      have := v.toNat_lt
      omega
    have hcount : Codec.groupCount 9 (v.toNat / 128) = Codec.groupCount 8 (v.toNat / 128) :=
      Codec.groupCount_succ_of_lt hnext
    have hsplit : Codec.groupCount 9 v.toNat = Codec.groupCount 8 (v.toNat / 128) + 1 := by
      rw [Codec.groupCount, if_neg (Nat.not_lt.mpr hv)]
    rw [ih, hshift, hcount, hsplit]

theorem length_encodeVarint64 (v : UInt64) : (encodeVarint64 v).length = varintLength v := by
  rw [encodeVarint64, Codec.length_encodeGroups, varintLength_eq]

/-- The unrolled 32-bit encoder writes as many bytes as the 64-bit loop. -/
theorem length_encodeVarint32 (v : UInt32) :
    (encodeVarint32 v).length = varintLength v.toUInt64 := by
  have hv : v.toNat < 128 ^ (4 + 1) := by
    have := v.toNat_lt
    norm_num at this ⊢
    omega
  have hcount : Codec.groupCount 9 v.toNat = Codec.groupCount 4 v.toNat :=
    Codec.groupCount_add_of_lt 5 hv
  rw [encodeVarint32_eq, Codec.length_encodeGroups, varintLength_eq, UInt32.toNat_toUInt64, hcount]

theorem varintLength_le (v : UInt64) : varintLength v ≤ kMaxVarint64Length := by
  rw [varintLength_eq]
  exact Codec.groupCount_le 9 _

theorem varintLength_toUInt64_le (v : UInt32) : varintLength v.toUInt64 ≤ 5 := by
  rw [← length_encodeVarint32, encodeVarint32_eq, Codec.length_encodeGroups]
  exact Codec.groupCount_le 4 _

/-! ## Truncated input

Bytes that all carry the continuation bit are a varint cut short: the loops
run out of input, or past their last shift, before the number ends. -/

theorem getVarint64Ptr_of_forall_continuation {p : Bytes} (h : ∀ b ∈ p, b &&& 128 ≠ 0) :
    getVarint64Ptr p = none := by
  have hcont : ∀ b ∈ p, 128 ≤ b.toNat := fun b hb =>
    Nat.not_lt.mp fun hlt => h b hb ((and_128_eq_zero_iff b).mpr hlt)
  simp [getVarint64Ptr, Codec.decodeGroups_of_forall_continuation hcont]

theorem getVarint32Ptr_of_forall_continuation {p : Bytes} (h : ∀ b ∈ p, b &&& 128 ≠ 0) :
    getVarint32Ptr p = none := by
  have hcont : ∀ b ∈ p, 128 ≤ b.toNat := fun b hb =>
    Nat.not_lt.mp fun hlt => h b hb ((and_128_eq_zero_iff b).mpr hlt)
  simp [getVarint32Ptr_eq, getVarint32PtrFallback, Codec.decodeGroups_of_forall_continuation hcont]

/-! ## Zigzag

Bit `i` of `i64ToZigzag l` is bit `i - 1` of `l` flipped by the sign bit, and
bit `0` is the sign bit.  `zigzagToI64` shifts back and flips by bit `0`, so
each bit is flipped twice. -/

theorem toBitVec_i64ToZigzag (l : Int64) :
    (i64ToZigzag l).toBitVec = l.toBitVec <<< 1 ^^^ l.toBitVec.sshiftRight 63 := by
  simp only [i64ToZigzag, UInt64.toBitVec_xor, UInt64.toBitVec_shiftLeft, Int64.toBitVec_toUInt64,
    Int64.toBitVec_shiftRight, BitVec.sshiftRight_eq']
  rfl

theorem getElem_i64ToZigzag (l : Int64) (i : ℕ) (hi : i < 64) :
    (i64ToZigzag l).toBitVec[i] =
      ((decide (0 < i) && l.toBitVec.getLsbD (i - 1)) ^^ l.toBitVec.msb) := by
  rw [toBitVec_i64ToZigzag]
  simp only [BitVec.getElem_xor, BitVec.getElem_sshiftRight, BitVec.getElem_shiftLeft]
  rcases Nat.eq_zero_or_pos i with rfl | hpos
  · -- bit 0 receives the sign bit
    simp [BitVec.msb_eq_getLsbD_last]
  · have hout : ¬63 + i < 64 := by omega
    have hlow : i - 1 < 64 := by omega
    simp [hout, hpos, Nat.not_lt.mpr hpos, BitVec.getLsbD_eq_getElem hlow]

/-- `-(n & 1)` is all ones or zero, by bit `0`. -/
private theorem neg_and_one (y : BitVec 64) :
    -(y &&& 1#64) = if y[0] then BitVec.allOnes 64 else 0#64 := by
  cases h : y[0]
  · have hzero : y &&& 1#64 = 0#64 := by
      ext i hi
      simp only [BitVec.getElem_and, BitVec.getElem_one, BitVec.getElem_zero]
      rcases Nat.eq_zero_or_pos i with rfl | hpos
      · simp [h]
      · simp [Nat.pos_iff_ne_zero.mp hpos]
    simp [hzero]
  · have hone : y &&& 1#64 = 1#64 := by
      ext i hi
      simp only [BitVec.getElem_and, BitVec.getElem_one]
      rcases Nat.eq_zero_or_pos i with rfl | hpos
      · simp [h]
      · simp [Nat.pos_iff_ne_zero.mp hpos]
    simp [hone, ← BitVec.neg_one_eq_allOnes]

theorem toBitVec_zigzagToI64 (n : UInt64) :
    (zigzagToI64 n).toBitVec =
      n.toBitVec >>> 1 ^^^ (if n.toBitVec[0] then BitVec.allOnes 64 else 0#64) := by
  simp only [zigzagToI64, UInt64.toBitVec_toInt64, UInt64.toBitVec_xor, UInt64.toBitVec_shiftRight,
    Int64.toBitVec_toUInt64, Int64.toBitVec_neg, UInt64.toBitVec_and]
  rw [← neg_and_one]
  rfl

theorem getElem_zigzagToI64 (n : UInt64) (i : ℕ) (hi : i < 64) :
    (zigzagToI64 n).toBitVec[i] = (n.toBitVec.getLsbD (i + 1) ^^ n.toBitVec[0]) := by
  rw [toBitVec_zigzagToI64]
  split
  · rename_i h0
    simp only [BitVec.getElem_xor, BitVec.getElem_allOnes, BitVec.getElem_ushiftRight, h0,
      Nat.add_comm]
  · rename_i h0
    simp only [BitVec.getElem_xor, BitVec.getElem_zero, BitVec.getElem_ushiftRight, Nat.add_comm]
    simp [h0]

theorem zigzagToI64_i64ToZigzag (l : Int64) : zigzagToI64 (i64ToZigzag l) = l := by
  apply Int64.toBitVec_inj.mp
  ext i hi
  rw [getElem_zigzagToI64 _ i hi, getElem_i64ToZigzag _ 0 (by omega)]
  by_cases hlast : i + 1 < 64
  · -- a bit below the top: flipped by the sign bit twice
    rw [BitVec.getLsbD_eq_getElem hlast, getElem_i64ToZigzag _ (i + 1) hlast]
    simp [BitVec.getLsbD_eq_getElem hi]
  · -- the top bit: shifted out, and restored from bit 0
    have h63 : i = 63 := by omega
    subst h63
    simp [BitVec.msb_eq_getLsbD_last]

theorem varint_and_zigzag_round_trip :
    (∀ (v : UInt32) (rest : Bytes), getVarint32Ptr (encodeVarint32 v ++ rest) = some (v, rest) ∧
      (encodeVarint32 v).length = varintLength v.toUInt64 ∧ varintLength v.toUInt64 ≤ 5) ∧
    (∀ (v : UInt64) (rest : Bytes), getVarint64Ptr (encodeVarint64 v ++ rest) = some (v, rest) ∧
      (encodeVarint64 v).length = varintLength v ∧ varintLength v ≤ kMaxVarint64Length) ∧
    (∀ l : Int64, zigzagToI64 (i64ToZigzag l) = l) ∧
    (∀ p : Bytes, (∀ b ∈ p, b &&& 128 ≠ 0) → getVarint32Ptr p = none ∧ getVarint64Ptr p = none) :=
  ⟨fun v rest => ⟨getVarint32_encodeVarint32 v rest, length_encodeVarint32 v,
      varintLength_toUInt64_le v⟩,
    fun v rest => ⟨getVarint64_encodeVarint64 v rest, length_encodeVarint64 v, varintLength_le v⟩,
    zigzagToI64_i64ToZigzag,
    fun _ h => ⟨getVarint32Ptr_of_forall_continuation h, getVarint64Ptr_of_forall_continuation h⟩⟩

theorem varint_reads_fail_on_continuation_bytes :
    getVarint32Ptr [128, 255] = none ∧ getVarint64Ptr [128, 255] = none :=
  varint_and_zigzag_round_trip.2.2.2 [128, 255] (by
    intro b hb
    simp only [List.mem_cons, List.not_mem_nil, or_false] at hb
    rcases hb with rfl | rfl <;> decide)

end HapDB
