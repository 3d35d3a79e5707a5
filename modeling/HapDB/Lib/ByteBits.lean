import Mathlib

/-!
# Bit arrays stored in bytes

A filter keeps its bits in a byte array: bit `i` is bit `i % 8` of byte
`i / 8`.  The C code sets it with `data[i / 8] |= 1 << (i % 8)` (`setBit`)
and reads it with `data[i / 8] & (1 << (i % 8))` (`getBit`).

Setting bits only adds bits (`getBit_setBit_of_getBit`).  A bit that was set
reads back, provided its byte is in the array (`getBit_setBit_self`).
Writing another byte leaves it alone (`getBit_set_of_ne`).  Over a list of
positions, `getBit_foldl_setBit` is the form the filter proofs use: once
every position is set, each of them reads back, and so does every bit set
before.
-/

namespace ByteBits

/-- `1 << (i % 8)`, the mask of bit `i` within its byte. -/
def mask (i : ℕ) : UInt8 := 1 <<< (i % 8).toUInt8

/-- `data[i / 8] |= 1 << (i % 8)`. -/
def setBit (data : List UInt8) (i : ℕ) : List UInt8 := data.modify (i / 8) (· ||| mask i)

/-- `(data[i / 8] & (1 << (i % 8))) != 0`.  A byte past the end reads as
zero. -/
def getBit (data : List UInt8) (i : ℕ) : Bool := data.getD (i / 8) 0 &&& mask i != 0

@[simp] theorem length_setBit (data : List UInt8) (i : ℕ) :
    (setBit data i).length = data.length := by
  simp [setBit]

theorem mask_ne_zero (i : ℕ) : mask i ≠ 0 := by
  have hlt : i % 8 < 8 := Nat.mod_lt _ (by decide)
  unfold mask
  generalize i % 8 = k at hlt ⊢
  interval_cases k <;> decide

/-- Or-ing the mask in sets the bit, whatever the byte held. -/
theorem or_mask_and_mask (x : UInt8) (i : ℕ) : (x ||| mask i) &&& mask i = mask i := by
  apply UInt8.toBitVec_inj.mp
  apply BitVec.eq_of_getElem_eq
  intro j hj
  simp only [UInt8.toBitVec_and, UInt8.toBitVec_or, BitVec.getElem_and, BitVec.getElem_or]
  cases x.toBitVec[j] <;> cases (mask i).toBitVec[j] <;> rfl

/-- Or-ing any mask in keeps every bit the byte had. -/
theorem or_and_mask_ne_zero {x : UInt8} {j : ℕ} (m : UInt8) (h : x &&& mask j ≠ 0) :
    (x ||| m) &&& mask j ≠ 0 := by
  intro hzero
  apply h
  apply UInt8.toBitVec_inj.mp
  apply BitVec.eq_of_getElem_eq
  intro k hk
  have hk' := congrArg (fun y : UInt8 => y.toBitVec[k]) hzero
  simp only [UInt8.toBitVec_and, UInt8.toBitVec_or, BitVec.getElem_and, BitVec.getElem_or,
    UInt8.toBitVec_zero, BitVec.getElem_zero] at hk' ⊢
  cases hx : x.toBitVec[k] <;> simp_all

theorem getD_setBit (data : List UInt8) (i k : ℕ) :
    (setBit data i).getD k 0 = if i / 8 = k ∧ k < data.length then data.getD k 0 ||| mask i
      else data.getD k 0 := by
  simp only [setBit, List.getD_eq_getElem?_getD, List.getElem?_modify]
  by_cases hk : k < data.length
  · simp only [List.getElem?_eq_getElem hk, Option.map_eq_map, Option.map_some, Option.getD_some]
    split_ifs <;> simp_all
  · simp [hk]

/-- A bit set reads back. -/
theorem getBit_setBit_self {data : List UInt8} {i : ℕ} (h : i / 8 < data.length) :
    getBit (setBit data i) i = true := by
  simp only [getBit, getD_setBit, h, and_self, if_true, or_mask_and_mask, bne_iff_ne, ne_eq]
  exact mask_ne_zero i

/-- Setting a bit keeps the bits already set. -/
theorem getBit_setBit_of_getBit {data : List UInt8} {j : ℕ} (i : ℕ) (h : getBit data j = true) :
    getBit (setBit data i) j = true := by
  simp only [getBit, bne_iff_ne, ne_eq, getD_setBit] at h ⊢
  split_ifs
  · exact or_and_mask_ne_zero _ h
  · exact h

/-- Writing a byte other than bit `j`'s leaves bit `j` alone. -/
theorem getBit_set_of_ne {data : List UInt8} {j k : ℕ} (v : UInt8) (h : j / 8 ≠ k) :
    getBit (data.set k v) j = getBit data j := by
  simp only [getBit, List.getD_eq_getElem?_getD, List.getElem?_set_ne (Ne.symm h)]

/-- A bit of the first part of an array is set and read in that part alone. -/
theorem setBit_append_of_lt {xs : List UInt8} (ys : List UInt8) {i : ℕ} (h : i / 8 < xs.length) :
    setBit (xs ++ ys) i = setBit xs i ++ ys := by
  apply List.ext_getElem?
  intro k
  simp only [setBit, List.getElem?_modify, List.getElem?_append, List.length_modify]
  by_cases hk : k < xs.length
  · simp [hk]
  · have hne : i / 8 ≠ k := by omega
    simp [hk, hne]

theorem getBit_append_of_lt {xs : List UInt8} (ys : List UInt8) {j : ℕ} (h : j / 8 < xs.length) :
    getBit (xs ++ ys) j = getBit xs j := by
  simp only [getBit, List.getD_eq_getElem?_getD, List.getElem?_append_left h]

@[simp] theorem length_foldl_setBit (data : List UInt8) (ps : List ℕ) :
    (ps.foldl setBit data).length = data.length := by
  induction ps generalizing data with
  | nil => rfl
  | cons p ps ih => rw [List.foldl_cons, ih, length_setBit]

theorem foldl_setBit_append {xs : List UInt8} (ys : List UInt8) {ps : List ℕ}
    (hin : ∀ p ∈ ps, p / 8 < xs.length) :
    ps.foldl setBit (xs ++ ys) = ps.foldl setBit xs ++ ys := by
  induction ps generalizing xs with
  | nil => rfl
  | cons p ps ih =>
    rw [List.foldl_cons, List.foldl_cons, setBit_append_of_lt ys (hin p List.mem_cons_self)]
    exact ih (fun q hq => by simpa using hin q (List.mem_cons_of_mem p hq))

/-- A bit array that starts at byte `m` of a larger one. -/
theorem getBit_drop (data : List UInt8) (m j : ℕ) :
    getBit (data.drop m) j = getBit data (m * 8 + j) := by
  have hdiv : (m * 8 + j) / 8 = m + j / 8 := by omega
  have hmask : mask (m * 8 + j) = mask j := by
    have hmod : (m * 8 + j) % 8 = j % 8 := by omega
    rw [mask, mask, hmod]
  simp only [getBit, List.getD_eq_getElem?_getD, List.getElem?_drop, hdiv, hmask]

/-- Setting a list of positions: each of them is set afterwards, and every bit
set before stays set. -/
theorem getBit_foldl_setBit {data : List UInt8} {ps : List ℕ} {j : ℕ}
    (hin : ∀ p ∈ ps, p / 8 < data.length) (hj : j ∈ ps ∨ getBit data j = true) :
    getBit (ps.foldl setBit data) j = true := by
  induction ps generalizing data with
  | nil =>
    rcases hj with hj | hj
    · exact absurd hj List.not_mem_nil
    · exact hj
  | cons p ps ih =>
    rw [List.foldl_cons]
    apply ih (fun q hq => by simpa using hin q (List.mem_cons_of_mem p hq))
    rcases hj with hj | hj
    · rcases List.mem_cons.mp hj with rfl | hj
      · exact .inr (getBit_setBit_self (hin j List.mem_cons_self))
      · exact .inl hj
    · exact .inr (getBit_setBit_of_getBit p hj)

end ByteBits
