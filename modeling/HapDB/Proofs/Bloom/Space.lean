import HapDB.Util.Bloom

/-!
# The size of a full filter

`CalculateSpace` sizes a filter from a count of entries, and
`CalculateNumEntry` goes the other way: the largest count whose filter fits in
a given space.  Both compute in `uint32_t` and `int`.

* `CalculateSpace_of_ne_zero`: for a count other than zero, the filter has an
  odd number `l < 2 ^ 23` of lines.  It has `512 * l` bits and `64 * l + 5`
  bytes, so none of these wraps, whatever the product of the count and the
  bits per key was (`toNat_GetTotalBitsForLocality`).  For a count of zero the
  filter is its five bytes of metadata (`CalculateSpace_zero`).
* `space_lt_CalculateSpace_CalculateNumEntry`: below five bytes no count
  fits, not even zero.  The loop of `CalculateNumEntry` then runs down to `0`
  (`calculateNumEntryLoop_of_none_fits`), and the count it returns needs more
  space than it was given.
-/

namespace HapDB

namespace FullFilterBitsBuilder

theorem cacheLineBits : CACHE_LINE_SIZE * 8 = 512 := by decide

/-- `GetTotalBitsForLocality` gives an odd number of lines below `2 ^ 23`,
whatever the product it is given: the rounding may wrap to zero lines, which
the odd rounding turns into one. -/
theorem toNat_GetTotalBitsForLocality (t : UInt32) :
    ∃ n : ℕ, n % 2 = 1 ∧ n < 2 ^ 23 ∧ (GetTotalBitsForLocality t).toNat = n * 512 := by
  simp only [GetTotalBitsForLocality, cacheLineBits]
  have ht := UInt32.toNat_lt t
  -- the number of lines before it is made odd is below `2 ^ 23`
  obtain ⟨n0, hn0, hlt⟩ : ∃ n0 : UInt32, (t + 512 - 1) / 512 = n0 ∧ n0.toNat < 2 ^ 23 := by
    refine ⟨_, rfl, ?_⟩
    simp only [UInt32.toNat_div, UInt32.toNat_sub, UInt32.toNat_add, UInt32.toNat_ofNat,
      Nat.reducePow, Nat.reduceMod]
    omega
  rw [hn0]
  by_cases heven : n0.toNat % 2 = 0
  · have hif : (n0 % 2 == 0) = true := by
      simp only [beq_iff_eq, ← UInt32.toNat_inj, UInt32.toNat_mod, UInt32.toNat_ofNat,
        Nat.reducePow, Nat.reduceMod]
      omega
    refine ⟨n0.toNat + 1, by omega, by omega, ?_⟩
    simp only [hif, if_true, UInt32.toNat_mul, UInt32.toNat_add, UInt32.toNat_ofNat,
      Nat.reducePow, Nat.reduceMod]
    rw [Nat.mod_eq_of_lt (by omega), Nat.mod_eq_of_lt (by omega)]
  · have hif : (n0 % 2 == 0) = false := by
      simp only [beq_eq_false_iff_ne, ne_eq, ← UInt32.toNat_inj, UInt32.toNat_mod,
        UInt32.toNat_ofNat, Nat.reducePow, Nat.reduceMod]
      omega
    refine ⟨n0.toNat, by omega, hlt, ?_⟩
    simp only [hif, Bool.false_eq_true, if_false, UInt32.toNat_mul, UInt32.toNat_ofNat,
      Nat.reducePow, Nat.reduceMod]
    rw [Nat.mod_eq_of_lt (by omega)]

/-- A filter of `n ≠ 0` entries has an odd number `l < 2 ^ 23` of lines,
`512 * l` bits and `64 * l + 5` bytes: nothing overflows. -/
theorem CalculateSpace_of_ne_zero (b : FullFilterBitsBuilder) {numEntry : Int32}
    (h : numEntry ≠ 0) :
    ∃ l : ℕ, l % 2 = 1 ∧ l < 2 ^ 23 ∧ b.CalculateSpace numEntry =
      (UInt32.ofNat (l * 64 + 5), UInt32.ofNat (l * 512), UInt32.ofNat l) := by
  obtain ⟨l, hodd, hlt, htotal⟩ :=
    toNat_GetTotalBitsForLocality (numEntry.toUInt32 * b.bitsPerKey.toUInt32)
  refine ⟨l, hodd, hlt, ?_⟩
  have hne : (numEntry != 0) = true := by simpa using h
  simp only [CalculateSpace, hne, if_true, cacheLineBits]
  generalize GetTotalBitsForLocality (numEntry.toUInt32 * b.bitsPerKey.toUInt32) = total at htotal
  refine Prod.ext ?_ (Prod.ext ?_ ?_) <;>
    simp only [← UInt32.toNat_inj, UInt32.toNat_add, UInt32.toNat_div, htotal, UInt32.toNat_ofNat,
      UInt32.toNat_ofNat', Nat.reducePow, Nat.reduceMod] <;>
    omega

/-- An empty filter is its five bytes of metadata. -/
theorem CalculateSpace_zero (b : FullFilterBitsBuilder) : b.CalculateSpace 0 = (5, 0, 0) := by
  simp [CalculateSpace]


/-- A count other than zero needs a cache line at least: 69 bytes. -/
theorem lt_CalculateSpace_of_ne_zero (b : FullFilterBitsBuilder) {n : Int32} (h : n ≠ 0) :
    68 < (b.CalculateSpace n).1.toNat := by
  obtain ⟨l, hodd, hlt, hspace⟩ := b.CalculateSpace_of_ne_zero h
  rw [hspace, UInt32.toNat_ofNat', Nat.mod_eq_of_lt (by omega)]
  omega

/-- When no positive count fits in `space`, the loop runs down to `0`. -/
theorem calculateNumEntryLoop_of_none_fits (b : FullFilterBitsBuilder) {space : UInt32}
    (hnone : ∀ m : Int32, m ≠ 0 → space < (b.CalculateSpace m).1) {n : Int32} (hn : 0 ≤ n) :
    b.calculateNumEntryLoop space n = 0 := by
  fun_induction b.calculateNumEntryLoop space n with
  | case1 n hpos hfits =>
    have hne : n ≠ 0 := by rintro rfl; exact absurd hpos (by decide)
    exact absurd hfits (UInt32.not_le.mpr (hnone n hne))
  | case2 n hpos _ ih =>
    apply ih
    rw [Int32.le_iff_toInt_le] at hpos ⊢
    rw [Int32.toInt_sub_of_le n 1 (by decide) (by rwa [Int32.le_iff_toInt_le])]
    simp only [Int32.toInt_zero, Int32.toInt_one] at hpos ⊢
    omega
  | case3 n hpos =>
    rw [Int32.le_iff_toInt_le] at hpos hn
    apply Int32.toInt_inj.mp
    simp only [Int32.toInt_zero, Int32.toInt_one] at hpos hn ⊢
    omega

/-- **`CalculateNumEntry` can return a count that does not fit.**  Below five
bytes not even the empty filter fits, the loop runs out at `0`, and
`CalculateSpace(0)` is the five bytes of metadata. -/
theorem space_lt_CalculateSpace_CalculateNumEntry (b : FullFilterBitsBuilder) {space : UInt32}
    (hsmall : space < 5) : space < (b.CalculateSpace (b.CalculateNumEntry space)).1 := by
  have hnone : ∀ m : Int32, m ≠ 0 → space < (b.CalculateSpace m).1 := by
    intro m hm
    have := b.lt_CalculateSpace_of_ne_zero hm
    rw [UInt32.lt_iff_toNat_lt] at hsmall ⊢
    simp only [UInt32.toNat_ofNat, Nat.reducePow, Nat.reduceMod] at hsmall
    omega
  -- `high` is at most `4 * 8 + 1`, a positive `int`
  have hhigh : 0 ≤ Int32.ofNat ((space * 8).toNat / b.bitsPerKey.toNat + 1) := by
    have hle : (space * 8).toNat / b.bitsPerKey.toNat ≤ 32 := by
      refine le_trans (Nat.div_le_self _ _) ?_
      rw [UInt32.lt_iff_toNat_lt] at hsmall
      simp only [UInt32.toNat_mul, UInt32.toNat_ofNat, Nat.reducePow, Nat.reduceMod] at hsmall ⊢
      omega
    rw [Int32.le_iff_toInt_le, Int32.toInt_ofNat_of_lt (by omega), Int32.toInt_zero]
    exact Int.natCast_nonneg _
  rw [CalculateNumEntry, b.calculateNumEntryLoop_of_none_fits hnone hhigh, CalculateSpace_zero]
  exact hsmall

end FullFilterBitsBuilder

end HapDB
