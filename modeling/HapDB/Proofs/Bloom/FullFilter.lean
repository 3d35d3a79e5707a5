import HapDB.Proofs.Bloom.Space
import HapDB.Lib.ByteBits

/-!
# The full filter has no false negatives

`MayMatch_Finish_of_mem`: the reader on the filter `Finish` writes answers
`true` for every key that was added, as long as fewer than `2 ^ 32` keys were
added and there are fewer than 128 probes.  Builder and reader compute the
probe positions differently, and the reader has to recover the cache-line
size, so the proof goes through the following steps.

## Strategy

* **Where the probes go.**  `probeBits` lists the bits of one hash's probe
  loop.  `AddHash` sets exactly those bits (`AddHash_eq_foldl`), and all of
  them lie inside the hash's cache line (`hashProbes_lt`).
* **What `Finish` writes.**  For a count other than zero, `Finish` writes the
  bits of `l` lines followed by the five bytes of metadata
  (`Finish_fst_of_ne_zero`).  The probes never reach the metadata
  (`foldl_AddHash_append`), and every hash kept has all its probes set
  (`getBit_filterBits`).  `AddKey` keeps the hash of every key added
  (`mem_hashEntries_foldl_AddKey`), and its case lemma `AddKey_cases` is the
  only place that unfolds it.
* **What the reader reads.**  The reader gets back the number of probes and
  `l` (`new_filter`).  Its search for the cache-line size stops at `6`
  (`findLog2CacheLineSize_of_lines`), because every shift below leaves a
  multiple of `2 * l`.
* **Shifts and masks.**  With that size, the reader's shift is the builder's
  product and its mask is the builder's remainder (`shiftLeft_log2_eq_mul`,
  `and_mask_log2_eq_mod`).  So the reader tests exactly the bits the builder
  set (`hashMayMatchLoop_eq_all`).

The count is an `int`.  With `2 ^ 32` hashes kept it wraps to `0`, and
`Finish` writes the empty filter (`Finish_fst_of_length_two_pow`).  Two keys
of different hashes, added in turn `2 ^ 31` times, keep that many hashes
(`hashEntries_foldl_alternating`).  The reader then answers `false` for both
of them (`MayMatch_false_after_two_pow_32_hashes`).
-/

namespace HapDB

namespace FullFilterBitsBuilder

/-! ## The probes of one hash -/

/-- The bits the probes of one hash touch: `i` probes from hash `h`, each at
`b + h % (CACHE_LINE_SIZE * 8)`, stepping the hash by `delta`. -/
def probeBits (b delta : UInt32) : ℕ → UInt32 → List ℕ
  | 0, _ => []
  | i + 1, h => (b + h % (CACHE_LINE_SIZE * 8)).toNat :: probeBits b delta i (h + delta)

theorem addHashLoop_eq_foldl (b delta : UInt32) (i : ℕ) (h : UInt32) (data : Bytes) :
    addHashLoop b delta i h data = (probeBits b delta i h).foldl ByteBits.setBit data := by
  induction i generalizing h data with
  | zero => rfl
  | succ i ih => rw [addHashLoop, ih, probeBits, List.foldl_cons]

/-- The probes of a hash in cache line `k` stay in that line. -/
theorem probeBits_lt {b delta : UInt32} {k : ℕ} (hb : b.toNat = k * 512)
    (hk : (k + 1) * 512 ≤ 2 ^ 32)
    {i : ℕ} {h : UInt32} {p : ℕ} (hp : p ∈ probeBits b delta i h) : p < (k + 1) * 512 := by
  induction i generalizing h with
  | zero => exact absurd hp List.not_mem_nil
  | succ i ih =>
    rcases List.mem_cons.mp hp with rfl | hp
    · simp only [cacheLineBits, UInt32.toNat_add, UInt32.toNat_mod, hb, UInt32.toNat_ofNat,
        Nat.reducePow, Nat.reduceMod]
      have := Nat.mod_lt h.toNat (by decide : 0 < 512)
      omega
    · exact ih hp


/-- The probes of hash `h` in a filter of `numLines` lines, as `AddHash` and
`HashMayMatch` place them. -/
def hashProbes (numLines : UInt32) (numProbes : ℕ) (h : UInt32) : List ℕ :=
  probeBits ((h % numLines) * (CACHE_LINE_SIZE * 8)) ((h >>> 17) ||| (h <<< 15)) numProbes h

theorem AddHash_eq_foldl (bld : FullFilterBitsBuilder) (h : UInt32) (data : Bytes)
    (numLines : UInt32) :
    bld.AddHash h data numLines =
      (hashProbes numLines bld.numProbes.toNat h).foldl ByteBits.setBit data := by
  rw [AddHash, addHashLoop_eq_foldl, hashProbes]

/-- Each probe of a hash falls inside the `l` lines of the filter. -/
theorem hashProbes_lt {l : ℕ} (hpos : 0 < l) (hl : l < 2 ^ 23) {n : ℕ} {h : UInt32} {p : ℕ}
    (hp : p ∈ hashProbes (UInt32.ofNat l) n h) : p < l * 512 := by
  have hmod : h.toNat % l < l := Nat.mod_lt _ hpos
  have hb : ((h % UInt32.ofNat l) * (CACHE_LINE_SIZE * 8)).toNat = h.toNat % l * 512 := by
    simp only [cacheLineBits, UInt32.toNat_mul, UInt32.toNat_mod, UInt32.toNat_ofNat',
      UInt32.toNat_ofNat, Nat.reducePow, Nat.reduceMod]
    rw [Nat.mod_eq_of_lt (show l < 4294967296 by omega)]
    exact Nat.mod_eq_of_lt (by omega)
  have := probeBits_lt hb (by omega) hp
  calc p < (h.toNat % l + 1) * 512 := this
    _ ≤ l * 512 := Nat.mul_le_mul_right _ hmod


/-! ## The builder -/

/-- What `AddKey` does: append the key's hash, or drop it when it is the last
hash kept. -/
theorem AddKey_cases (b : FullFilterBitsBuilder) (key : Bytes) :
    b.AddKey key = { b with hashEntries := b.hashEntries ++ [BloomHash key] } ∨
      (b.AddKey key = b ∧ b.hashEntries.getLast? = some (BloomHash key)) := by
  dsimp only [AddKey]
  split
  · exact .inl rfl
  · rename_i hcond
    simp only [Bool.or_eq_true, beq_iff_eq, bne_iff_ne, ne_eq, not_or, not_not] at hcond
    exact .inr ⟨rfl, hcond.2⟩

@[simp] theorem numProbes_AddKey (b : FullFilterBitsBuilder) (key : Bytes) :
    (b.AddKey key).numProbes = b.numProbes := by
  rcases b.AddKey_cases key with h | ⟨h, -⟩ <;> rw [h]

@[simp] theorem numProbes_foldl_AddKey (keys : List Bytes) (b : FullFilterBitsBuilder) :
    (keys.foldl AddKey b).numProbes = b.numProbes := by
  induction keys generalizing b with
  | nil => rfl
  | cons key keys ih => rw [List.foldl_cons, ih, numProbes_AddKey]

/-- `AddKey` keeps every hash it had, and has the new key's. -/
theorem hashEntries_AddKey (b : FullFilterBitsBuilder) (key : Bytes) :
    BloomHash key ∈ (b.AddKey key).hashEntries ∧
      b.hashEntries ⊆ (b.AddKey key).hashEntries := by
  rcases b.AddKey_cases key with h | ⟨h, hlast⟩ <;> rw [h]
  · exact ⟨List.mem_append_right _ (List.mem_singleton_self _), List.subset_append_left _ _⟩
  · exact ⟨List.mem_of_getLast? hlast, List.Subset.refl _⟩

theorem length_hashEntries_AddKey_le (b : FullFilterBitsBuilder) (key : Bytes) :
    (b.AddKey key).hashEntries.length ≤ b.hashEntries.length + 1 := by
  rcases b.AddKey_cases key with h | ⟨h, -⟩ <;> rw [h]
  · simp
  · omega

theorem mem_hashEntries_foldl_AddKey (keys : List Bytes) {b : FullFilterBitsBuilder} {k : Bytes}
    (hk : k ∈ keys ∨ BloomHash k ∈ b.hashEntries) :
    BloomHash k ∈ (keys.foldl AddKey b).hashEntries := by
  induction keys generalizing b with
  | nil => simpa using hk
  | cons key keys ih =>
    apply ih
    obtain ⟨hnew, hold⟩ := b.hashEntries_AddKey key
    rcases hk with hk | hk
    · rcases List.mem_cons.mp hk with rfl | hk
      · exact .inr hnew
      · exact .inl hk
    · exact .inr (hold hk)

theorem length_hashEntries_foldl_AddKey_le (keys : List Bytes) (b : FullFilterBitsBuilder) :
    (keys.foldl AddKey b).hashEntries.length ≤ b.hashEntries.length + keys.length := by
  induction keys generalizing b with
  | nil => simp
  | cons key keys ih =>
    have := ih (b.AddKey key)
    have := b.length_hashEntries_AddKey_le key
    simp only [List.foldl_cons, List.length_cons]
    omega

/-- The bit part of a full filter of `l` lines: the probes of every hash, in
`l` zeroed cache lines. -/
def filterBits (bld : FullFilterBitsBuilder) (l : ℕ) : Bytes :=
  bld.hashEntries.foldl (fun data h => bld.AddHash h data (UInt32.ofNat l))
    (List.replicate (l * 64) 0)

theorem length_filterBits (bld : FullFilterBitsBuilder) (l : ℕ) :
    (bld.filterBits l).length = l * 64 := by
  unfold filterBits
  generalize hinit : List.replicate (l * 64) (0 : UInt8) = init
  have hlen : init.length = l * 64 := by rw [← hinit, List.length_replicate]
  clear hinit
  induction bld.hashEntries generalizing init with
  | nil => exact hlen
  | cons h hs ih =>
    rw [List.foldl_cons]
    exact ih _ (by rw [AddHash_eq_foldl, ByteBits.length_foldl_setBit, hlen])



section Lines

variable (bld : FullFilterBitsBuilder) {l : ℕ} (hpos : 0 < l) (hl : l < 2 ^ 23)
include hpos hl

/-- The probes of every hash stay in the first `l * 64` bytes, so what follows
them is left alone. -/
theorem foldl_AddHash_append (hs : List UInt32) {xs : Bytes} (hxs : xs.length = l * 64)
    (ys : Bytes) :
    hs.foldl (fun data h => bld.AddHash h data (UInt32.ofNat l)) (xs ++ ys) =
      hs.foldl (fun data h => bld.AddHash h data (UInt32.ofNat l)) xs ++ ys := by
  induction hs generalizing xs with
  | nil => rfl
  | cons h hs ih =>
    have hin : ∀ p ∈ hashProbes (UInt32.ofNat l) bld.numProbes.toNat h, p / 8 < xs.length := by
      intro p hp
      have := hashProbes_lt hpos hl hp
      omega
    rw [List.foldl_cons, List.foldl_cons, AddHash_eq_foldl bld h (xs ++ ys),
      AddHash_eq_foldl bld h xs,
      ByteBits.foldl_setBit_append ys hin]
    exact ih (by rw [ByteBits.length_foldl_setBit, hxs])

/-- After the hashes `hs`, every probe of each of them is set, and so is every
bit set before. -/
theorem getBit_foldl_AddHash (hs : List UInt32) {data : Bytes} (hdata : data.length = l * 64)
    {h : UInt32} {p : ℕ} (hp : p ∈ hashProbes (UInt32.ofNat l) bld.numProbes.toNat h)
    (hh : h ∈ hs ∨ ByteBits.getBit data p = true) :
    ByteBits.getBit (hs.foldl (fun data h => bld.AddHash h data (UInt32.ofNat l)) data) p =
      true := by
  induction hs generalizing data with
  | nil =>
    rcases hh with hh | hh
    · exact absurd hh List.not_mem_nil
    · exact hh
  | cons h' hs ih =>
    rw [List.foldl_cons]
    have hin :
        ∀ q ∈ hashProbes (UInt32.ofNat l) bld.numProbes.toNat h', q / 8 < data.length := by
      intro q hq
      have := hashProbes_lt hpos hl hq
      omega
    apply ih (by rw [AddHash_eq_foldl, ByteBits.length_foldl_setBit, hdata])
    rw [AddHash_eq_foldl]
    rcases hh with hh | hh
    · rcases List.mem_cons.mp hh with rfl | hh
      · exact .inr (ByteBits.getBit_foldl_setBit hin (.inl hp))
      · exact .inl hh
    · exact .inr (ByteBits.getBit_foldl_setBit hin (.inr hh))

/-- Every probe of every hash kept is set in the bit part of the filter. -/
theorem getBit_filterBits {h : UInt32} (hh : h ∈ bld.hashEntries) {p : ℕ}
    (hp : p ∈ hashProbes (UInt32.ofNat l) bld.numProbes.toNat h) :
    ByteBits.getBit (bld.filterBits l) p = true :=
  bld.getBit_foldl_AddHash hpos hl _ List.length_replicate hp (.inl hh)

end Lines

/-- What `Finish` writes for a nonzero count: the bits of `l` lines, then the
number of probes and `l` as a fixed32, exactly filling the buffer that
`CalculateSpace` sized. -/
theorem Finish_fst_of_ne_zero (bld : FullFilterBitsBuilder)
    (h : Int32.ofNat bld.hashEntries.length ≠ 0) :
    ∃ l : ℕ, l % 2 = 1 ∧ l < 2 ^ 23 ∧
      bld.Finish.1 =
        bld.filterBits l ++ bld.numProbes.toUInt8 :: encodeFixed32 (UInt32.ofNat l) := by
  obtain ⟨l, hodd, hlt, hspace⟩ := bld.CalculateSpace_of_ne_zero h
  have hpos : 0 < l := by omega
  refine ⟨l, hodd, hlt, ?_⟩
  -- the sizes as numbers
  have hl32 : l < 4294967296 := by omega
  have hsz : (UInt32.ofNat (l * 64 + 5)).toNat = l * 64 + 5 := by
    rw [UInt32.toNat_ofNat', Nat.mod_eq_of_lt (by omega)]
  have hbytes : (UInt32.ofNat (l * 512) / 8).toNat = l * 64 := by
    rw [UInt32.toNat_div, UInt32.toNat_ofNat', Nat.mod_eq_of_lt (by omega)]
    simp only [UInt32.toNat_ofNat, Nat.reducePow, Nat.reduceMod]
    omega
  have hone : (UInt32.ofNat (l * 512) / 8 + 1).toNat = l * 64 + 1 := by
    rw [UInt32.toNat_add, hbytes, UInt32.toNat_one, Nat.mod_eq_of_lt (by omega)]
  have hfive : (UInt32.ofNat (l * 512) / 8 + 5).toNat = l * 64 + 5 := by
    rw [UInt32.toNat_add, hbytes]
    simp only [UInt32.toNat_ofNat, Nat.reducePow, Nat.reduceMod]
    omega
  have hcond : (UInt32.ofNat (l * 512) != 0 && UInt32.ofNat l != 0) = true := by
    simp only [Bool.and_eq_true, bne_iff_ne, ne_eq, ← UInt32.toNat_inj, UInt32.toNat_ofNat',
      UInt32.toNat_zero]
    omega
  simp only [Finish, hspace, hsz, hbytes, hone, hfive, hcond, if_true]
  -- the five metadata bytes after the bits, then the two writes into them
  have hbits := bld.length_filterBits l
  rw [List.replicate_add, foldl_AddHash_append bld hpos hlt _ List.length_replicate, ← filterBits,
    List.set_append_right _ _ (by omega), hbits, Nat.sub_self]
  have hset : (List.replicate 5 (0 : UInt8)).set 0 bld.numProbes.toUInt8 =
      [bld.numProbes.toUInt8, 0, 0, 0, 0] := rfl
  have henc := length_encodeFixed32 (UInt32.ofNat l)
  have hsplit : bld.filterBits l ++ [bld.numProbes.toUInt8, 0, 0, 0, 0] =
      (bld.filterBits l ++ [bld.numProbes.toUInt8]) ++ [0, 0, 0, 0] := by simp
  have hhead : (bld.filterBits l ++ [bld.numProbes.toUInt8]).length = l * 64 + 1 := by simp [hbits]
  rw [hset, encodeFixed32At, hsplit, List.take_left' hhead,
    List.drop_eq_nil_of_le (by simp [hbits]), List.append_nil,
    List.take_of_length_le (by simp [hbits, henc])]
  simp


/-- `AddKey` appends the hash when it differs from the last one kept. -/
theorem AddKey_of_getLast?_ne (b : FullFilterBitsBuilder) {key : Bytes}
    (h : b.hashEntries.getLast? ≠ some (BloomHash key)) :
    b.AddKey key = { b with hashEntries := b.hashEntries ++ [BloomHash key] } := by
  rcases b.AddKey_cases key with hadd | ⟨-, hlast⟩
  · exact hadd
  · exact absurd hlast h

/-- Two keys of different hashes, added in turn `m` times, keep all `2 * m`
hashes: no hash equals the one before it. -/
theorem hashEntries_foldl_alternating {k₁ k₂ : Bytes} (hne : BloomHash k₁ ≠ BloomHash k₂)
    (bitsPerKey numProbes : UInt64) (m : ℕ) :
    ((List.replicate m [k₁, k₂]).flatten.foldl AddKey (new bitsPerKey numProbes)).hashEntries =
      (List.replicate m [BloomHash k₁, BloomHash k₂]).flatten := by
  induction m with
  | zero => rfl
  | succ m ih =>
    -- the last hash kept is the second key's, or there is none
    have hlast : ((List.replicate m [BloomHash k₁, BloomHash k₂]).flatten).getLast? ≠
        some (BloomHash k₁) := by
      cases m with
      | zero => simp
      | succ m =>
        rw [List.replicate_succ', List.flatten_append]
        simp [Ne.symm hne]
    rw [List.replicate_succ', List.flatten_append, List.foldl_append, List.flatten_singleton,
      List.foldl_cons, List.foldl_cons, List.foldl_nil]
    set b := (List.replicate m [k₁, k₂]).flatten.foldl AddKey (new bitsPerKey numProbes)
    rw [AddKey_of_getLast?_ne b (by rw [ih]; exact hlast), AddKey_of_getLast?_ne _ (by simp [hne])]
    simp [ih, List.replicate_succ', List.flatten_append]

/-- With `2 ^ 32` hashes the `int` count wraps to `0` and `Finish` writes the
empty filter. -/
theorem Finish_fst_of_length_two_pow (bld : FullFilterBitsBuilder)
    (h : bld.hashEntries.length = 2 ^ 32) :
    bld.Finish.1 = [bld.numProbes.toUInt8, 0, 0, 0, 0] := by
  have hzero : Int32.ofNat (2 ^ 32) = 0 := by decide
  simp only [Finish, h, hzero, CalculateSpace_zero]
  rfl

end FullFilterBitsBuilder

namespace FullFilterBitsReader

open FullFilterBitsBuilder

/-- With a cache line of `2 ^ 6` bytes the reader's shift is the builder's product. -/
theorem shiftLeft_log2_eq_mul (x : UInt32) :
    x <<< (6 + 3 : ℕ).toUInt32 = x * (CACHE_LINE_SIZE * 8) := by
  apply UInt32.toNat_inj.mp
  simp only [cacheLineBits, UInt32.toNat_shiftLeft, UInt32.toNat_mul, Nat.shiftLeft_eq]
  rfl

/-- ... and its mask is the builder's remainder. -/
theorem and_mask_log2_eq_mod (h : UInt32) :
    h &&& ((1 : UInt32) <<< (6 + 3 : ℕ).toUInt32 - 1) = h % (CACHE_LINE_SIZE * 8) := by
  have hmask : (1 : UInt32) <<< (6 + 3 : ℕ).toUInt32 - 1 = 2 ^ 9 - 1 := by decide
  apply UInt32.toNat_inj.mp
  rw [hmask, cacheLineBits, UInt32.toNat_and, UInt32.toNat_mod]
  exact Nat.and_two_pow_sub_one_eq_mod h.toNat 9

/-- The reader's probe loop, with the cache line found, tests exactly the bits
the builder's loop set. -/
theorem hashMayMatchLoop_eq_all (data : Bytes) (b delta : UInt32) (n : ℕ) (h : UInt32) :
    hashMayMatchLoop data 6 (b <<< (6 + 3 : ℕ).toUInt32) delta n h =
      (probeBits (b * (CACHE_LINE_SIZE * 8)) delta n h).all (ByteBits.getBit data) := by
  induction n generalizing h with
  | zero => rfl
  | succ n ih =>
    rw [hashMayMatchLoop, probeBits, List.all_cons, ih, and_mask_log2_eq_mod, shiftLeft_log2_eq_mul]
    cases ByteBits.getBit data (b * (CACHE_LINE_SIZE * 8) + h % (CACHE_LINE_SIZE * 8)).toNat <;> rfl


/-- The search for the cache-line size stops at `6` on a filter of `l` lines
of `64` bytes: every smaller shift leaves a multiple of `2 * l`. -/
theorem findLog2CacheLineSize_of_lines {dataLen numLines : UInt32} {l : ℕ} (hpos : 0 < l)
    (hlen : (dataLen - 5).toNat = l * 64) (hlines : numLines.toNat = l) :
    findLog2CacheLineSize dataLen numLines 0 = (6, true) := by
  -- from shift `6 - k` up, for `k` from `0` to `6`
  have hstep : ∀ k, k ≤ 6 → findLog2CacheLineSize dataLen numLines (6 - k) = (6, true) := by
    intro k
    induction k with
    | zero =>
      intro _
      rw [findLog2CacheLineSize]
      have hshift : (dataLen - 5).toNat >>> (6 - 0) = l := by
        rw [hlen, Nat.shiftRight_eq_div_pow]
        omega
      simp only [hshift, hlines, Nat.pos_iff_ne_zero.mp hpos, dite_false, if_true]
    | succ k ih =>
      intro hk
      rw [findLog2CacheLineSize]
      have hshift : (dataLen - 5).toNat >>> (6 - (k + 1)) = l * 2 ^ (k + 1) := by
        rw [hlen, Nat.shiftRight_eq_div_pow]
        have hpow : 64 = 2 ^ (6 - (k + 1)) * 2 ^ (k + 1) := by
          rw [← Nat.pow_add, Nat.sub_add_cancel hk]
        rw [hpow, ← Nat.mul_assoc, Nat.mul_comm l, Nat.mul_assoc,
          Nat.mul_div_cancel_left _ (Nat.two_pow_pos _)]
      have htwo : 2 ≤ 2 ^ (k + 1) := Nat.le_self_pow (by omega) 2
      have hne : l * 2 ^ (k + 1) ≠ 0 := Nat.mul_ne_zero (by omega) (by omega)
      have hgt : l * 2 ^ (k + 1) ≠ l := by
        have : l * 2 ≤ l * 2 ^ (k + 1) := Nat.mul_le_mul_left l htwo
        omega
      have hnext : 6 - (k + 1) + 1 = 6 - k := by omega
      simp only [hshift, hlines, hne, hgt, dite_false, if_false, hnext]
      exact ih (by omega)
  exact hstep 6 le_rfl

/-- The reader on a filter of `l ≠ 0` lines written as the builder writes it:
its metadata read back and the cache line found. -/
theorem new_filter {bits : Bytes} {l : ℕ} (hpos : 0 < l) (hl : l < 2 ^ 23)
    (hbits : bits.length = l * 64) (p : UInt8) :
    new (bits ++ p :: encodeFixed32 (UInt32.ofNat l)) =
      ⟨bits ++ p :: encodeFixed32 (UInt32.ofNat l), UInt32.ofNat (l * 64 + 5), charToSizeT p,
        UInt32.ofNat l, 6⟩ := by
  have hlength : (bits ++ p :: encodeFixed32 (UInt32.ofNat l)).length = l * 64 + 5 := by
    simp [hbits, length_encodeFixed32]
  have hlen : (UInt32.ofNat (l * 64 + 5)).toNat = l * 64 + 5 := by
    rw [UInt32.toNat_ofNat', Nat.mod_eq_of_lt (by omega)]
  have hlines : (UInt32.ofNat l).toNat = l := by
    rw [UInt32.toNat_ofNat', Nat.mod_eq_of_lt (by omega)]
  have hdata : (UInt32.ofNat (l * 64 + 5) - 5).toNat = l * 64 := by
    rw [UInt32.toNat_sub_of_le _ _ (by rw [UInt32.le_iff_toNat_le, hlen]; simp), hlen]
    simp
  have hfour : (UInt32.ofNat (l * 64 + 5) - 4).toNat = l * 64 + 1 := by
    rw [UInt32.toNat_sub_of_le _ _ (by rw [UInt32.le_iff_toNat_le, hlen]; simp), hlen]
    simp
  have hnot : ¬UInt32.ofNat (l * 64 + 5) ≤ 5 := by
    rw [UInt32.le_iff_toNat_le, hlen]
    simp only [UInt32.toNat_ofNat, Nat.reducePow, Nat.reduceMod]
    omega
  -- the metadata: the probe count at offset `l * 64`, the line count after it
  have hmeta : GetFilterMeta (bits ++ p :: encodeFixed32 (UInt32.ofNat l)) =
      (charToSizeT p, UInt32.ofNat l) := by
    have hp : (bits ++ p :: encodeFixed32 (UInt32.ofNat l)).getD (l * 64) 0 = p := by
      rw [List.getD_eq_getElem?_getD, List.getElem?_append_right (by omega), hbits, Nat.sub_self]
      rfl
    have hdrop : (bits ++ p :: encodeFixed32 (UInt32.ofNat l)).drop (l * 64 + 1) =
        encodeFixed32 (UInt32.ofNat l) := by
      rw [← hbits, List.drop_length_add_append]
      rfl
    have hdecode := decodeFixed32_encodeFixed32 (UInt32.ofNat l) []
    rw [List.append_nil] at hdecode
    simp only [GetFilterMeta, hlength, hnot, if_false, hdata, hfour, hp, hdrop, hdecode]
  have hnz : (UInt32.ofNat l != 0) = true := by
    simp only [bne_iff_ne, ne_eq, ← UInt32.toNat_inj, hlines, UInt32.toNat_zero]
    omega
  have hdiv : ((UInt32.ofNat (l * 64 + 5) - 5) % UInt32.ofNat l != 0) = false := by
    simp only [bne_eq_false_iff_eq, ← UInt32.toNat_inj, UInt32.toNat_mod, hdata, hlines,
      UInt32.toNat_zero]
    exact Nat.mul_mod_right l 64
  have hsearch := findLog2CacheLineSize_of_lines hpos hdata hlines
  simp only [new, hlength, hmeta, hnz, hdiv, Bool.true_and, Bool.false_eq_true, if_false, if_true,
    hsearch]

/-- A count below `128` is read back from its `char` unchanged. -/
theorem charToSizeT_toUInt8 {n : UInt64} (h : n.toNat < 128) : charToSizeT n.toUInt8 = n := by
  have hlt : n.toUInt8 < 128 := by
    rw [UInt8.lt_iff_toNat_lt, UInt64.toNat_toUInt8]
    simp only [UInt8.toNat_ofNat, Nat.reducePow, Nat.reduceMod]
    omega
  rw [charToSizeT, if_pos hlt]
  apply UInt64.toNat_inj.mp
  rw [UInt8.toNat_toUInt64, UInt64.toNat_toUInt8]
  omega

/-- The reader answers `true` for a key whose probes are all set. -/
theorem MayMatch_filter {bits : Bytes} {l : ℕ} (hpos : 0 < l) (hl : l < 2 ^ 23)
    (hbits : bits.length = l * 64) {numProbes : UInt64} (hprobes : numProbes.toNat < 128)
    {key : Bytes}
    (hset : ∀ p ∈ hashProbes (UInt32.ofNat l) numProbes.toNat (BloomHash key),
      ByteBits.getBit bits p = true) :
    (new (bits ++ numProbes.toUInt8 :: encodeFixed32 (UInt32.ofNat l))).MayMatch key = true := by
  have hlen : (UInt32.ofNat (l * 64 + 5)).toNat = l * 64 + 5 := by
    rw [UInt32.toNat_ofNat', Nat.mod_eq_of_lt (by omega)]
  have hnot : ¬UInt32.ofNat (l * 64 + 5) ≤ 5 := by
    rw [UInt32.le_iff_toNat_le, hlen]
    simp only [UInt32.toNat_ofNat, Nat.reducePow, Nat.reduceMod]
    omega
  have hlength :
      (bits ++ numProbes.toUInt8 :: encodeFixed32 (UInt32.ofNat l)).length = l * 64 + 5 := by
    simp [hbits, length_encodeFixed32]
  rw [new_filter hpos hl hbits, MayMatch, charToSizeT_toUInt8 hprobes]
  simp only [hnot, if_false]
  split
  · rfl
  · -- the probes the reader tests are the ones the builder set, all in the bits
    rw [HashMayMatch, hlength, if_neg hnot]
    dsimp only
    rw [hashMayMatchLoop_eq_all, List.all_eq_true]
    intro p hp
    have hlt := hashProbes_lt hpos hl hp
    rw [ByteBits.getBit_append_of_lt _ (by omega)]
    exact hset p hp

theorem dataLen_new (contents : Bytes) : (new contents).dataLen = UInt32.ofNat contents.length := by
  unfold new
  dsimp only
  split
  · rfl
  · split
    · split <;> rfl
    · rfl

/-- A filter of five bytes or fewer matches nothing. -/
theorem MayMatch_of_length_le_five {contents : Bytes} (h : contents.length ≤ 5) (key : Bytes) :
    (new contents).MayMatch key = false := by
  have hle : (new contents).dataLen ≤ 5 := by
    rw [dataLen_new, UInt32.le_iff_toNat_le, UInt32.toNat_ofNat', Nat.mod_eq_of_lt (by omega)]
    simp only [UInt32.toNat_ofNat, Nat.reducePow, Nat.reduceMod]
    exact h
  rw [MayMatch, if_pos hle]

end FullFilterBitsReader

/-- **The full filter has no false negatives.**  Fewer than `2 ^ 32` keys go
into a builder with fewer than 128 probes, whatever its bits per key; the
reader on the filter `Finish` returns matches every one of them. -/
theorem MayMatch_Finish_of_mem (bitsPerKey numProbes : UInt64) (hprobes : numProbes.toNat < 128)
    (keys : List Bytes) (hkeys : keys.length < 2 ^ 32) {k : Bytes} (hk : k ∈ keys) :
    (FullFilterBitsReader.new (keys.foldl FullFilterBitsBuilder.AddKey
      (FullFilterBitsBuilder.new bitsPerKey numProbes)).Finish.1).MayMatch k = true := by
  set bld :=
    keys.foldl FullFilterBitsBuilder.AddKey (FullFilterBitsBuilder.new bitsPerKey numProbes)
  have hmem : BloomHash k ∈ bld.hashEntries :=
    FullFilterBitsBuilder.mem_hashEntries_foldl_AddKey keys (.inl hk)
  -- between one and `2 ^ 32 - 1` hashes: the `int` count is not zero
  have hcount : Int32.ofNat bld.hashEntries.length ≠ 0 := by
    have hle : bld.hashEntries.length ≤ 0 + keys.length :=
      FullFilterBitsBuilder.length_hashEntries_foldl_AddKey_le keys _
    have hne := List.length_pos_of_mem hmem
    intro hzero
    have hzero' : (Int32.toUInt32 0).toNat = 0 := rfl
    have := congrArg (fun n : Int32 => n.toUInt32.toNat) hzero
    simp only [Int32.toUInt32_ofNat', UInt32.toNat_ofNat', hzero'] at this
    omega
  obtain ⟨l, hodd, hl, hfinish⟩ := bld.Finish_fst_of_ne_zero hcount
  have hpos : 0 < l := by omega
  have hnp : bld.numProbes = numProbes := FullFilterBitsBuilder.numProbes_foldl_AddKey keys _
  rw [hfinish, hnp]
  apply FullFilterBitsReader.MayMatch_filter hpos hl (bld.length_filterBits l) hprobes
  intro p hp
  rw [← hnp] at hp
  exact bld.getBit_filterBits hpos hl hmem hp


/-- **`2 ^ 32` hashes make the full filter forget every key.**  The keys `[]`
and `[0]`, added in turn `2 ^ 31` times, leave `2 ^ 32` hashes; the `int` count
wraps to `0`, `Finish` writes the empty filter, and the reader answers `false`
for a key that was added. -/
theorem MayMatch_false_after_two_pow_32_hashes (bitsPerKey numProbes : UInt64) :
    (FullFilterBitsReader.new ((List.replicate (2 ^ 31) [[], [0]]).flatten.foldl
      FullFilterBitsBuilder.AddKey (FullFilterBitsBuilder.new bitsPerKey numProbes)).Finish.1
      ).MayMatch [] = false := by
  have hne : BloomHash [] ≠ BloomHash [0] := by decide
  have hlen : ((List.replicate (2 ^ 31) [[], [0]]).flatten.foldl FullFilterBitsBuilder.AddKey
      (FullFilterBitsBuilder.new bitsPerKey numProbes)).hashEntries.length = 2 ^ 32 := by
    rw [FullFilterBitsBuilder.hashEntries_foldl_alternating hne, List.length_flatten,
      List.map_replicate, List.sum_replicate, smul_eq_mul, List.length_cons, List.length_cons,
      List.length_nil]
    norm_num
  rw [FullFilterBitsBuilder.Finish_fst_of_length_two_pow _ hlen]
  exact FullFilterBitsReader.MayMatch_of_length_le_five (by rw [List.length_cons]; decide) []

end HapDB
