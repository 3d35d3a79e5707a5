import HapDB.Proofs.Bloom.FullFilter

/-!
# `BloomFilterPolicy`: the block-based filter

`CreateFilter` appends a bit array to `dst` and then the number of probes.
The array has `bytes = (max(n * bits_per_key, 64) + 7) / 8` bytes.
`KeyMayMatch` takes the number of bits from the filter's length and the number
of probes from its last byte.  Both walk the same probes: `h % bits`, with `h`
stepped by its rotation `delta` (`policyProbes`).  The filter therefore has no
false negatives, provided the `size_t` product `n * bits_per_key` does not
wrap (`KeyMayMatch_CreateFilter_of_mem`).

The full filter of `FullFilterBitsBuilder` does not share that guarantee.
`fullFilter_overruns_space_and_forgets_keys` collects its two failures, from
`Space` and `FullFilter`.
-/

namespace HapDB

namespace BloomFilterPolicy

/-! ## The probes of one key -/

/-- The bits the probes of one key touch in `CreateFilter` and `KeyMayMatch`:
`j` probes from hash `h`, each at `h % bits`, stepping the hash by `delta`. -/
def policyProbes (bits : UInt64) (delta : UInt32) : ℕ → UInt32 → List ℕ
  | 0, _ => []
  | j + 1, h => (h.toUInt64 % bits).toUInt32.toNat :: policyProbes bits delta j (h + delta)

theorem createFilterLoop_eq_foldl (initSize : ℕ) (bits : UInt64) (delta : UInt32) (j : ℕ)
    (h : UInt32) (dst : Bytes) :
    createFilterLoop initSize bits delta j h dst =
      ((policyProbes bits delta j h).map (initSize * 8 + ·)).foldl ByteBits.setBit dst := by
  induction j generalizing h dst with
  | zero => rfl
  | succ j ih => rw [createFilterLoop, ih, policyProbes, List.map_cons, List.foldl_cons]

theorem keyMayMatchLoop_eq_all (array : Bytes) (bits : UInt64) (delta : UInt32) (j : ℕ)
    (h : UInt32) :
    keyMayMatchLoop array bits delta j h = (policyProbes bits delta j h).all (ByteBits.getBit array) := by
  induction j generalizing h with
  | zero => rfl
  | succ j ih =>
    rw [keyMayMatchLoop, ih, policyProbes, List.all_cons]
    cases ByteBits.getBit array (h.toUInt64 % bits).toUInt32.toNat <;> rfl

/-- Every probe is one of the `bits` bits. -/
theorem policyProbes_lt {bits : UInt64} (hbits : 0 < bits.toNat) {delta : UInt32} {j : ℕ}
    {h : UInt32} {q : ℕ} (hq : q ∈ policyProbes bits delta j h) : q < bits.toNat := by
  induction j generalizing h with
  | zero => exact absurd hq List.not_mem_nil
  | succ j ih =>
    rcases List.mem_cons.mp hq with rfl | hq
    · -- a 32-bit hash modulo `bits` fits back in 32 bits
      have hh := UInt32.toNat_lt h
      have hmod : h.toNat % bits.toNat < bits.toNat := Nat.mod_lt _ hbits
      have hle : h.toNat % bits.toNat ≤ h.toNat := Nat.mod_le _ _
      simp only [UInt64.toNat_toUInt32, UInt64.toNat_mod, UInt32.toNat_toUInt64]
      omega
    · exact ih hq

/-! ## The filter's sizes -/

/-- The number of bytes `CreateFilter` gives the bits of `n` keys. -/
def filterBytes (p : BloomFilterPolicy) (n : ℕ) : UInt64 :=
  let bits := UInt64.ofNat n * p.bitsPerKey
  let bits := if bits < 64 then 64 else bits
  (bits + 7) / 8

/-- The hash step of one key: its hash rotated right 17 bits. -/
def keyDelta (key : Bytes) : UInt32 := (BloomHash key >>> 17) ||| (BloomHash key <<< 15)

/-- `CreateFilter` with its sizes named: the probes of every key, into the
zeroed bytes appended to `dst`, and the number of probes after them. -/
theorem CreateFilter_eq (p : BloomFilterPolicy) (keys : List Bytes) (dst : Bytes) :
    p.CreateFilter keys dst =
      keys.foldl (fun d key => createFilterLoop dst.length (p.filterBytes keys.length * 8)
          (keyDelta key) p.numProbes.toNat (BloomHash key) d)
        (dst ++ List.replicate (p.filterBytes keys.length).toNat 0 ++ [p.numProbes.toUInt8]) :=
  rfl

/-- With fewer than `2 ^ 31` keys of fewer than `2 ^ 31` bits each, nothing
wraps: at least eight bytes, and `8` times their number is the bit count. -/
theorem filterBytes_bounds (p : BloomFilterPolicy) {n : ℕ} (hbpk : p.bitsPerKey.toNat < 2 ^ 31)
    (hn : n < 2 ^ 31) :
    8 ≤ (p.filterBytes n).toNat ∧ (p.filterBytes n).toNat < 2 ^ 60 ∧
      (p.filterBytes n * 8).toNat = (p.filterBytes n).toNat * 8 := by
  have hprod : n * p.bitsPerKey.toNat < 2 ^ 62 := by
    calc n * p.bitsPerKey.toNat < 2 ^ 31 * 2 ^ 31 := Nat.mul_lt_mul'' hn hbpk
      _ = 2 ^ 62 := by norm_num
  have hbits : (UInt64.ofNat n * p.bitsPerKey).toNat = n * p.bitsPerKey.toNat := by
    rw [UInt64.toNat_mul, UInt64.toNat_ofNat', Nat.mod_eq_of_lt (show n < 2 ^ 64 by omega),
      Nat.mod_eq_of_lt (by omega)]
  have hbytes : 8 ≤ (p.filterBytes n).toNat ∧ (p.filterBytes n).toNat < 2 ^ 60 := by
    simp only [filterBytes]
    split_ifs with hlt
    · decide
    · rw [UInt64.lt_iff_toNat_lt, hbits] at hlt
      simp only [UInt64.toNat_ofNat, Nat.reducePow, Nat.reduceMod] at hlt
      simp only [UInt64.toNat_div, UInt64.toNat_add, hbits, UInt64.toNat_ofNat, Nat.reducePow,
        Nat.reduceMod]
      omega
  refine ⟨hbytes.1, hbytes.2, ?_⟩
  rw [UInt64.toNat_mul]
  simp only [UInt64.toNat_ofNat, Nat.reducePow, Nat.reduceMod]
  omega

/-! ## Creating and matching -/

/-- The bits the probes of `key` touch. -/
def keyProbes (bits : UInt64) (numProbes : ℕ) (key : Bytes) : List ℕ :=
  policyProbes bits (keyDelta key) numProbes (BloomHash key)

section Keys

variable {bits : UInt64} (hbits : 0 < bits.toNat) (h8 : bits.toNat % 8 = 0) (initSize numProbes : ℕ)
include hbits h8

/-- The probes of a key fall in the `bits / 8` bytes after `initSize`. -/
theorem keyProbes_div_lt {key : Bytes} {q : ℕ} (hq : q ∈ keyProbes bits numProbes key) :
    (initSize * 8 + q) / 8 < initSize + bits.toNat / 8 := by
  have := policyProbes_lt hbits hq
  omega

/-- The keys' probes leave what follows the bit array alone. -/
theorem foldl_createFilterLoop_append (keys : List Bytes) {xs : Bytes}
    (hxs : xs.length = initSize + bits.toNat / 8) (ys : Bytes) :
    keys.foldl (fun d key => createFilterLoop initSize bits (keyDelta key) numProbes (BloomHash key) d)
        (xs ++ ys) =
      keys.foldl (fun d key => createFilterLoop initSize bits (keyDelta key) numProbes
        (BloomHash key) d) xs ++ ys := by
  induction keys generalizing xs with
  | nil => rfl
  | cons key keys ih =>
    have hin : ∀ p ∈ (policyProbes bits (keyDelta key) numProbes (BloomHash key)).map
        (initSize * 8 + ·), p / 8 < xs.length := by
      intro p hp
      obtain ⟨q, hq, rfl⟩ := List.mem_map.mp hp
      rw [hxs]
      exact keyProbes_div_lt hbits h8 initSize numProbes hq
    rw [List.foldl_cons, List.foldl_cons, createFilterLoop_eq_foldl, createFilterLoop_eq_foldl]
    rw [ByteBits.foldl_setBit_append ys hin]
    exact ih (by rw [ByteBits.length_foldl_setBit, hxs])

/-- After the keys, every probe of each of them is set, and so is every bit set
before. -/
theorem getBit_foldl_createFilterLoop (keys : List Bytes) {data : Bytes}
    (hdata : data.length = initSize + bits.toNat / 8) {key : Bytes} {q : ℕ}
    (hq : q ∈ keyProbes bits numProbes key)
    (hkey : key ∈ keys ∨ ByteBits.getBit data (initSize * 8 + q) = true) :
    ByteBits.getBit (keys.foldl (fun d key => createFilterLoop initSize bits (keyDelta key)
      numProbes (BloomHash key) d) data) (initSize * 8 + q) = true := by
  induction keys generalizing data with
  | nil =>
    rcases hkey with hkey | hkey
    · exact absurd hkey List.not_mem_nil
    · exact hkey
  | cons key' keys ih =>
    have hin : ∀ p ∈ (policyProbes bits (keyDelta key') numProbes (BloomHash key')).map
        (initSize * 8 + ·), p / 8 < data.length := by
      intro p hp
      obtain ⟨q', hq', rfl⟩ := List.mem_map.mp hp
      rw [hdata]
      exact keyProbes_div_lt hbits h8 initSize numProbes hq'
    rw [List.foldl_cons]
    apply ih (by rw [createFilterLoop_eq_foldl, ByteBits.length_foldl_setBit, hdata])
    rw [createFilterLoop_eq_foldl]
    rcases hkey with hkey | hkey
    · rcases List.mem_cons.mp hkey with rfl | hkey
      · exact .inr (ByteBits.getBit_foldl_setBit hin (.inl (List.mem_map_of_mem hq)))
      · exact .inl hkey
    · exact .inr (ByteBits.getBit_foldl_setBit hin (.inr hkey))

end Keys

@[simp] theorem length_foldl_createFilterLoop (initSize : ℕ) (bits : UInt64) (numProbes : ℕ)
    (keys : List Bytes) (data : Bytes) :
    (keys.foldl (fun d key => createFilterLoop initSize bits (keyDelta key) numProbes
      (BloomHash key) d) data).length = data.length := by
  induction keys generalizing data with
  | nil => rfl
  | cons key keys ih => rw [List.foldl_cons, ih, createFilterLoop_eq_foldl, ByteBits.length_foldl_setBit]

/-- No false negatives for the block-based filter: a key that was added
matches the filter `CreateFilter` appended to `dst`.  The sizes are those at
which the `size_t` bit count does not wrap. -/
theorem KeyMayMatch_CreateFilter_of_mem (p : BloomFilterPolicy) (hbpk : p.bitsPerKey.toNat < 2 ^ 31)
    (keys : List Bytes) (hkeys : keys.length < 2 ^ 31) (dst : Bytes) {key : Bytes} (hk : key ∈ keys) :
    p.KeyMayMatch key ((p.CreateFilter keys dst).drop dst.length) = true := by
  rw [CreateFilter_eq]
  obtain ⟨hge8, hlt, hbits⟩ := p.filterBytes_bounds hbpk hkeys
  generalize p.filterBytes keys.length = B at hge8 hlt hbits ⊢
  have hpos : 0 < (B * 8).toNat := by omega
  have h8 : (B * 8).toNat % 8 = 0 := by omega
  have hdata : (dst ++ List.replicate B.toNat 0).length = dst.length + (B * 8).toNat / 8 := by
    simp only [List.length_append, List.length_replicate]
    omega
  rw [foldl_createFilterLoop_append hpos h8 _ _ keys hdata]
  -- the probes of `key` are set in the bit array, which the number of probes follows
  have hset := fun q (hq : q ∈ keyProbes (B * 8) p.numProbes.toNat key) =>
    getBit_foldl_createFilterLoop hpos h8 dst.length p.numProbes.toNat keys hdata hq (.inl hk)
  have hlenG := length_foldl_createFilterLoop dst.length (B * 8) p.numProbes.toNat keys
    (dst ++ List.replicate B.toNat 0)
  set G := keys.foldl (fun d key => createFilterLoop dst.length (B * 8) (keyDelta key)
    p.numProbes.toNat (BloomHash key) d) (dst ++ List.replicate B.toNat 0)
  clear_value G
  rw [hdata] at hlenG
  rw [List.drop_append_of_le_length (by omega)]
  have hlenF : (G.drop dst.length).length = B.toNat := by
    rw [List.length_drop, hlenG]
    omega
  have hbits' : UInt64.ofNat ((G.drop dst.length ++ [p.numProbes.toUInt8]).length - 1) * 8 =
      B * 8 := by
    rw [List.length_append, hlenF, List.length_singleton, Nat.add_sub_cancel, UInt64.ofNat_toNat]
  have hk' : charToSizeT ((G.drop dst.length ++ [p.numProbes.toUInt8]).getD
      ((G.drop dst.length ++ [p.numProbes.toUInt8]).length - 1) 0) = p.numProbes := by
    have hnp := UInt64.le_iff_toNat_le.mp p.numProbes_le
    rw [List.length_append, List.length_singleton, Nat.add_sub_cancel, List.getD_eq_getElem?_getD,
      List.getElem?_append_right (le_refl _), Nat.sub_self]
    exact FullFilterBitsReader.charToSizeT_toUInt8 (by simp at hnp; omega)
  have hlen2 : ¬ (G.drop dst.length ++ [p.numProbes.toUInt8]).length < 2 := by
    rw [List.length_append, hlenF, List.length_singleton]
    omega
  have hnot : ¬ p.numProbes > 30 := fun h => UInt64.not_le.mpr h p.numProbes_le
  rw [KeyMayMatch, if_neg hlen2, hk', if_neg hnot, hbits', keyMayMatchLoop_eq_all,
    List.all_eq_true]
  intro q hq
  -- every probe is in the bit array, read at byte `dst.length` of the buffer
  have hqlt := policyProbes_lt hpos hq
  rw [ByteBits.getBit_append_of_lt _ (by omega), ByteBits.getBit_drop]
  exact hset q hq

end BloomFilterPolicy

/-- **The full filter breaks both of its guarantees.**  For every builder,
`CalculateNumEntry(1)` returns a count whose filter needs more than one byte.
And a key added among `2 ^ 32` hashes is not matched by the filter `Finish`
writes, whatever the bits per key and number of probes. -/
theorem fullFilter_overruns_space_and_forgets_keys :
    (∀ b : FullFilterBitsBuilder, 1 < (b.CalculateSpace (b.CalculateNumEntry 1)).1) ∧
    ([] : Bytes) ∈ (List.replicate (2 ^ 31) [[], [0]]).flatten ∧
    ∀ bitsPerKey numProbes : UInt64,
      (FullFilterBitsReader.new ((List.replicate (2 ^ 31) [[], [0]]).flatten.foldl
        FullFilterBitsBuilder.AddKey (FullFilterBitsBuilder.new bitsPerKey numProbes)).Finish.1
        ).MayMatch [] = false := by
  refine ⟨fun b => b.space_lt_CalculateSpace_CalculateNumEntry (by decide), ?_,
    MayMatch_false_after_two_pow_32_hashes⟩
  exact List.mem_flatten.mpr ⟨[[], [0]], List.mem_replicate.mpr ⟨by norm_num, rfl⟩,
    List.mem_cons_self⟩

end HapDB
