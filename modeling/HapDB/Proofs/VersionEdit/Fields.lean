import HapDB.Db.VersionEdit

/-!
# The fields of a manifest record read back

The readers of `version_edit.cc` take back what the writers put, in front of
any rest of the input: lists of varints, internal keys, levels, the custom
fields of a `kNewFile4` entry and the property cache.  Each lemma here is the
round trip of one kind of field; `RoundTrip` puts them together into records.

Two fields do not come back as they went: `read_amp`, a `float` written as a
fixed-point number with 20 fraction bits (`TablePropertyCache.quantized`), and
the file descriptor, which is packed again from the number and path id it
gives (`FileDescriptor.make_getNumber_getPathId`: the same descriptor).
-/

namespace HapDB

/-! ## Varints and slices -/

/-- A length-prefixed slice, in the normal form of appends, with any prefix
that holds its length. -/
theorem getLengthPrefixedSlice_prefixed {n : UInt32} {value : Bytes} (hn : n.toNat = value.length)
    (rest : Bytes) :
    getLengthPrefixedSlice (encodeVarint32 n ++ (value ++ rest)) = some (value, rest) := by
  simp [getLengthPrefixedSlice, getVarint32_encodeVarint32, hn]

theorem toNat_ofNat_length_of_lt {value : Bytes} (hlen : value.length < 2 ^ 32) :
    (UInt32.ofNat value.length).toNat = value.length :=
  UInt32.toNat_ofNat_of_lt' hlen

/-- Varints written one after another. -/
theorem foldl_putVarint64 (vs : List UInt64) (s : Bytes) :
    vs.foldl putVarint64 s = s ++ (vs.map encodeVarint64).flatten := by
  induction vs generalizing s with
  | nil => simp
  | cons v vs ih =>
      rw [List.foldl_cons, ih]
      simp

theorem foldl_putVarint64_map {α : Type} (g : α → UInt64) (xs : List α) (s : Bytes) :
    xs.foldl (fun s x => putVarint64 s (g x)) s =
      s ++ (xs.map fun x => encodeVarint64 (g x)).flatten := by
  rw [← List.foldl_map, foldl_putVarint64, List.map_map]
  rfl

theorem getVarint64s_flatten (vs : List UInt64) (rest : Bytes) :
    getVarint64s vs.length ((vs.map encodeVarint64).flatten ++ rest) = some (vs, rest) := by
  induction vs with
  | nil => rfl
  | cons v vs ih =>
      simp only [List.length_cons, List.map_cons, List.flatten_cons, List.append_assoc]
      simp [getVarint64s, getVarint64_encodeVarint64, ih]

theorem getVarint64s_flatten_map {α : Type} (g : α → UInt64) (xs : List α) (rest : Bytes) :
    getVarint64s xs.length ((xs.map fun x => encodeVarint64 (g x)).flatten ++ rest) =
      some (xs.map g, rest) := by
  have h := getVarint64s_flatten (xs.map g) rest
  rwa [List.length_map, List.map_map] at h

theorem getVarint64s_append {n : ℕ} {input rest : Bytes} {vs : List UInt64}
    (h : getVarint64s n input = some (vs, rest)) (extra : Bytes) :
    getVarint64s n (input ++ extra) = some (vs, rest ++ extra) := by
  induction n generalizing input vs with
  | zero =>
      simp only [getVarint64s, Option.some.injEq, Prod.mk.injEq] at h
      obtain ⟨rfl, rfl⟩ := h
      rfl
  | succ n ih =>
      simp only [getVarint64s] at h
      split at h
      · cases h
      · rename_i v r hv
        split at h
        · cases h
        · rename_i vs' r' hvs
          cases h
          simp only [getVarint64s, getVarint64_append hv extra, ih hvs]

/-- The last varint of a field, with nothing after it. -/
theorem getVarint64_encodeVarint64_nil (v : UInt64) : getVarint64 (encodeVarint64 v) = some (v, []) := by
  simpa using getVarint64_encodeVarint64 v []

theorem toNat_ofNat_length {α : Type} (l : List α) (h : l.length < 2 ^ 64) :
    (UInt64.ofNat l.length).toNat = l.length :=
  UInt64.toNat_ofNat_of_lt' h

/-! ## Keys, levels and descriptors -/

theorem getInternalKey_encode (k : InternalKey) (rest : Bytes) (hvalid : k.valid = true)
    (hlen : k.rep.length < 2 ^ 32) :
    getInternalKey (encodeVarint32 (UInt32.ofNat k.rep.length) ++ (k.rep ++ rest)) =
      some (k, rest) := by
  unfold InternalKey.valid at hvalid
  simp [getInternalKey, getLengthPrefixedSlice_prefixed (toNat_ofNat_length_of_lt hlen), hvalid]

theorem getLevel_encode (e : VersionEdit) (level : Int32) (rest : Bytes) :
    e.getLevel (encodeVarint32 level.toUInt32 ++ rest) = some (level, rest, e.raiseMaxLevel level) := by
  simp [VersionEdit.getLevel, getVarint32_encodeVarint32]

/-- The path id: the packed word over `2 ^ 62`, below `4`. -/
theorem toNat_div_pathIdUnit (x : UInt64) : (x / (kFileNumberMask + 1)).toNat = x.toNat / 2 ^ 62 := by
  rw [UInt64.toNat_div]
  rfl

theorem toNat_div_two_pow_62_lt (x : UInt64) : x.toNat / 2 ^ 62 < 4 := by
  have hlt := x.toNat_lt
  rw [Nat.div_lt_iff_lt_mul (by norm_num)]
  omega

theorem FileDescriptor.toNat_getPathId (fd : FileDescriptor) :
    fd.getPathId.toNat = fd.packedNumberAndPathId.toNat / 2 ^ 62 := by
  have hq := toNat_div_two_pow_62_lt fd.packedNumberAndPathId
  rw [getPathId, UInt64.toNat_toUInt32, toNat_div_pathIdUnit, Nat.mod_eq_of_lt (by omega)]

theorem FileDescriptor.getPathId_le (fd : FileDescriptor) : fd.getPathId ≤ 3 := by
  have hq := toNat_div_two_pow_62_lt fd.packedNumberAndPathId
  rw [UInt32.le_iff_toNat_le, toNat_getPathId]
  simp only [UInt32.reduceToNat]
  omega

/-- **Packing again.**  The number and path id a descriptor gives pack back to
the same word. -/
theorem FileDescriptor.make_getNumber_getPathId (fd : FileDescriptor) :
    FileDescriptor.make fd.getNumber fd.getPathId fd.fileSize fd.smallestSeqno fd.largestSeqno = fd := by
  have hpath := fd.toNat_getPathId
  have hq := toNat_div_two_pow_62_lt fd.packedNumberAndPathId
  obtain ⟨x, size, smallestSeqno, largestSeqno⟩ := fd
  dsimp only at hpath hq
  simp only [make, FileDescriptor.mk.injEq, and_true]
  apply UInt64.toNat_inj.mp
  -- the low 62 bits and the top two bits are disjoint, so `|||` adds them
  have hlow : (x &&& kFileNumberMask).toNat = x.toNat % 2 ^ 62 := by
    rw [UInt64.toNat_and, show kFileNumberMask.toNat = 2 ^ 62 - 1 by rfl,
      Nat.and_two_pow_sub_one_eq_mod]
  have hhigh : ((getPathId ⟨x, size, smallestSeqno, largestSeqno⟩).toUInt64 * (kFileNumberMask + 1)).toNat =
      2 ^ 62 * (x.toNat / 2 ^ 62) := by
    rw [UInt64.toNat_mul, UInt32.toNat_toUInt64, hpath, show (kFileNumberMask + 1).toNat = 2 ^ 62 by rfl,
      Nat.mod_eq_of_lt (by omega : x.toNat / 2 ^ 62 * 2 ^ 62 < 2 ^ 64)]
    ring
  unfold packFileNumberAndPathId getNumber
  rw [UInt64.toNat_or, hlow, hhigh, Nat.lor_comm,
    ← Nat.two_pow_add_eq_or_of_lt (Nat.mod_lt _ (by norm_num)), Nat.div_add_mod]

/-! ## Single bytes -/

set_option maxRecDepth 8000 in
/-- `reverse_byte` undoes itself. -/
theorem reverseByte_reverseByte (v : UInt8) : reverseByte (reverseByte v) = v := by
  revert v
  decide

theorem charToUInt32_of_le {p : UInt32} (hp : p ≤ 3) : charToUInt32 p.toUInt8 = p := by
  have hp' : p.toNat ≤ 3 := hp
  unfold charToUInt32
  rw [if_pos (by rw [UInt8.lt_iff_toNat_lt, UInt32.toNat_toUInt8]; simp; omega)]
  apply UInt32.toNat_inj.mp
  simp
  omega

/-! ## The property cache -/

/-- The `read_amp` a manifest gives back: written as `DoubleToU64`, read as
`U64ToDouble` and stored into a `float`. -/
def quantizeReadAmp (readAmp : Float32) : Float32 := (u64ToDouble (doubleToU64 readAmp.toFloat)).toFloat32

/-- The property cache a manifest gives back. -/
def TablePropertyCache.quantized (p : TablePropertyCache) : TablePropertyCache :=
  { p with readAmp := quantizeReadAmp p.readAmp }

/-- The dependence read back in its two passes, the numbers and then the
counts. -/
theorem setEntryCounts_map (deps : List Dependence) :
    setEntryCounts ((deps.map Dependence.fileNumber).map fun n => ⟨n, 0⟩)
      (deps.map Dependence.entryCount) = deps := by
  induction deps with
  | nil => rfl
  | cons d deps ih =>
      simp only [setEntryCounts, List.map_cons, List.zipWith_cons_cons] at ih ⊢
      rw [ih]

theorem length_encodeVarint32_le (v : UInt32) : (encodeVarint32 v).length ≤ 5 := by
  rw [encodeVarint32_eq, Codec.length_encodeGroups]
  exact Codec.groupCount_le 4 _

theorem length_encodeVarint64_le (v : UInt64) : (encodeVarint64 v).length ≤ 10 := by
  rw [encodeVarint64, Codec.length_encodeGroups]
  exact Codec.groupCount_le 9 _

theorem length_flatten_map_encodeVarint64_le {α : Type} (g : α → UInt64) (xs : List α) :
    (xs.map fun x => encodeVarint64 (g x)).flatten.length ≤ 10 * xs.length := by
  induction xs with
  | nil => simp
  | cons x xs ih =>
      have hx := length_encodeVarint64_le (g x)
      simp only [List.map_cons, List.flatten_cons, List.length_append, List.length_cons]
      omega

/-- The `kPropertyCache` field is at most ten bytes a number: its length fits
the prefix when the dependence and the inheritance are short. -/
theorem length_encodePropertyCache_le (p : TablePropertyCache) :
    (VersionEdit.encodePropertyCache p).length ≤
      97 + 20 * p.dependence.length + 10 * p.inheritance.length := by
  have hdep := length_flatten_map_encodeVarint64_le Dependence.fileNumber p.dependence
  have hcounts := length_flatten_map_encodeVarint64_le Dependence.entryCount p.dependence
  have hinh : (p.inheritance.map encodeVarint64).flatten.length ≤ 10 * p.inheritance.length :=
    length_flatten_map_encodeVarint64_le id p.inheritance
  have h32 := length_encodeVarint32_le p.maxReadAmp.toUInt32
  have h1 := length_encodeVarint64_le (UInt64.ofNat p.dependence.length)
  have h2 := length_encodeVarint64_le p.numEntries
  have h3 := length_encodeVarint64_le (doubleToU64 p.readAmp.toFloat)
  have h4 := length_encodeVarint64_le (UInt64.ofNat p.inheritance.length)
  have h5 := length_encodeVarint64_le p.numDeletions
  have h6 := length_encodeVarint64_le p.rawKeySize
  have h7 := length_encodeVarint64_le p.rawValueSize
  have h8 := length_encodeVarint64_le p.earliestTimeBeginCompact
  have h9 := length_encodeVarint64_le p.latestTimeEndCompact
  simp only [VersionEdit.encodePropertyCache, foldl_putVarint64, foldl_putVarint64_map]
  simp only [putVarint64_eq, putVarint32Varint64_eq, putVarint64Varint64_eq, List.length_append,
    List.length_cons, List.length_nil]
  omega

/-- The lists of a property cache have lengths that fit a `uint64_t`. -/
def TablePropertyCache.Fits (p : TablePropertyCache) : Prop :=
  p.dependence.length < 2 ^ 64 ∧ p.inheritance.length < 2 ^ 64

/-- **The property cache round trip.**  Read into the properties of a fresh
file, every group is there, so each is read; only `read_amp` changes, by its
quantisation. -/
theorem decodePropertyCache_encode (p : TablePropertyCache) (hfits : p.Fits) :
    decodePropertyCache {} (VersionEdit.encodePropertyCache p) = .ok p.quantized := by
  obtain ⟨hdep, hinh⟩ := hfits
  -- the field as one chain of appends
  simp only [VersionEdit.encodePropertyCache, foldl_putVarint64, foldl_putVarint64_map]
  simp only [putVarint64_eq, putVarint32Varint64_eq, putVarint64Varint64_eq, List.append_assoc,
    List.cons_append, List.nil_append]
  -- the purpose and the dependence numbers
  simp only [decodePropertyCache, orError, getVarint64_encodeVarint64, Except.bind_ok,
    toNat_ofNat_length _ hdep, getVarint64s_flatten_map, List.nil_append]
  -- every later group finds bytes left, so each is read
  simp only [decodePropertyCacheGroups, orError, getVarint64_encodeVarint64, Except.bind_ok,
    List.isEmpty_iff, List.append_eq_nil_iff, encodeVarint64_ne_nil, encodeVarint32_ne_nil,
    reduceCtorEq, getVarint32_encodeVarint32, toNat_ofNat_length _ hinh, getVarint64s_flatten,
    getVarint64s_flatten_map, List.length_map, if_false, pure_bind, and_false,
    getVarint64_encodeVarint64_nil, setEntryCounts_map, UInt16.toUInt16_toUInt32]
  rfl

end HapDB
