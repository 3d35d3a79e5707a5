import Mathlib

/-!
# Byte-level number formats

Two ways of writing a natural number as bytes, and what it takes to read it
back:

* fixed width, little endian: `n` bytes, least significant first
  (`encodeLE`, `decodeLE`);
* base 128 groups, little endian (LEB128): seven bits a byte, least
  significant group first, with the top bit of every byte but the last set
  (`encodeGroups`, `decodeGroups`).

The decoder of the second format is the loop every such reader runs: it reads
groups at bit offsets `shift, shift + 7, …`, stops at the first byte whose top
bit is clear, and gives up when the input ends or the offset passes a bound
`maxShift` first.  The accumulator is kept modulo `2 ^ width`, which is what a
fixed-width machine register does to it; since the groups occupy disjoint bit
ranges, the `|` of the machine code is the `+` written here.

`decodeGroups_encodeGroups` is the round trip, for every number that fits the
bound on the number of groups and every trailing input; the other lemmas say
how many bytes the encoding takes and that a reader never overruns an
encoding into what follows it.
-/

namespace Codec

/-! ## Fixed width -/

/-- The `n` low bytes of `v`, least significant first. -/
def encodeLE : ℕ → ℕ → List UInt8
  | 0, _ => []
  | n + 1, v => UInt8.ofNat (v % 256) :: encodeLE n (v / 256)

/-- The number whose little-endian bytes are `bytes`. -/
def decodeLE : List UInt8 → ℕ
  | [] => 0
  | b :: rest => b.toNat + 256 * decodeLE rest

@[simp] theorem length_encodeLE (n v : ℕ) : (encodeLE n v).length = n := by
  induction n generalizing v with
  | zero => rfl
  | succ n ih => simp [encodeLE, ih]

theorem decodeLE_encodeLE (n v : ℕ) (hv : v < 256 ^ n) : decodeLE (encodeLE n v) = v := by
  induction n generalizing v with
  | zero =>
      simp only [pow_zero, Nat.lt_one_iff] at hv
      simp [hv, encodeLE, decodeLE]
  | succ n ih =>
      have hdiv : v / 256 < 256 ^ n := by
        rw [pow_succ] at hv
        exact Nat.div_lt_of_lt_mul (by linarith)
      simp only [encodeLE, decodeLE, UInt8.toNat_ofNat', ih _ hdiv]
      omega

theorem decodeLE_lt (bytes : List UInt8) : decodeLE bytes < 256 ^ bytes.length := by
  induction bytes with
  | nil => simp [decodeLE]
  | cons b rest ih =>
      have hb := b.toNat_lt
      simp only [decodeLE, List.length_cons, pow_succ]
      omega

/-- Every list of bytes is the encoding of the number it reads as. -/
theorem encodeLE_decodeLE (bytes : List UInt8) : encodeLE bytes.length (decodeLE bytes) = bytes := by
  induction bytes with
  | nil => rfl
  | cons b rest ih =>
      have hb := b.toNat_lt
      have hmod : (b.toNat + 256 * decodeLE rest) % 256 = b.toNat := by omega
      have hdiv : (b.toNat + 256 * decodeLE rest) / 256 = decodeLE rest := by omega
      simp only [List.length_cons, encodeLE, decodeLE, hmod, hdiv, ih, UInt8.ofNat_toNat]

/-! ## Base 128 groups -/

/-- The groups of `v`, with at most `fuel` continuation bytes: while `v ≥ 128`
emit its low seven bits with the top bit set and go on with `v / 128`; then
emit what is left as one byte. -/
def encodeGroups : ℕ → ℕ → List UInt8
  | 0, v => [UInt8.ofNat v]
  | fuel + 1, v =>
      if v < 128 then [UInt8.ofNat v]
      else UInt8.ofNat (v % 128 + 128) :: encodeGroups fuel (v / 128)

/-- Read groups at bit offsets `shift, shift + 7, …` into a `width`-bit
accumulator `result`, while the offset stays at most `maxShift`.  Returns the
number and the input after its last byte, or `none` when the input ends or the
offset passes `maxShift` before a byte with a clear top bit. -/
def decodeGroups (maxShift width : ℕ) : ℕ → ℕ → List UInt8 → Option (ℕ × List UInt8)
  | _, _, [] => none
  | shift, result, b :: rest =>
      if maxShift < shift then none
      else if 128 ≤ b.toNat then
        decodeGroups maxShift width (shift + 7) ((result + b.toNat % 128 * 2 ^ shift) % 2 ^ width)
          rest
      else some ((result + b.toNat * 2 ^ shift) % 2 ^ width, rest)

/-- The number of bytes `v` takes, at most `fuel + 1`. -/
def groupCount : ℕ → ℕ → ℕ
  | 0, _ => 1
  | fuel + 1, v => if v < 128 then 1 else groupCount fuel (v / 128) + 1

theorem encodeGroups_of_lt {v : ℕ} (fuel : ℕ) (hv : v < 128) :
    encodeGroups fuel v = [UInt8.ofNat v] := by
  cases fuel with
  | zero => rfl
  | succ fuel => simp [encodeGroups, hv]

theorem encodeGroups_succ_of_le {v : ℕ} (fuel : ℕ) (hv : 128 ≤ v) :
    encodeGroups (fuel + 1) v = UInt8.ofNat (v % 128 + 128) :: encodeGroups fuel (v / 128) := by
  simp [encodeGroups, Nat.not_lt.mpr hv]

@[simp] theorem length_encodeGroups (fuel v : ℕ) :
    (encodeGroups fuel v).length = groupCount fuel v := by
  induction fuel generalizing v with
  | zero => rfl
  | succ fuel ih =>
      unfold encodeGroups groupCount
      split <;> simp [ih]

theorem encodeGroups_ne_nil (fuel v : ℕ) : encodeGroups fuel v ≠ [] := by
  cases fuel with
  | zero => simp [encodeGroups]
  | succ fuel => unfold encodeGroups; split <;> simp

/-- More fuel does not change the count of a value it already covers. -/
theorem groupCount_succ_of_lt {fuel v : ℕ} (hv : v < 128 ^ (fuel + 1)) :
    groupCount (fuel + 1) v = groupCount fuel v := by
  induction fuel generalizing v with
  | zero =>
    have hv' : v < 128 := by simpa using hv
    simp [groupCount, hv']
  | succ fuel ih =>
    unfold groupCount
    split
    · rfl
    · -- the rest of the value needs one group less
      have hnext : v / 128 < 128 ^ (fuel + 1) := by
        rw [pow_succ] at hv
        exact Nat.div_lt_of_lt_mul (by linarith)
      rw [ih hnext]

theorem groupCount_add_of_lt {fuel v : ℕ} (k : ℕ) (hv : v < 128 ^ (fuel + 1)) :
    groupCount (fuel + k) v = groupCount fuel v := by
  induction k with
  | zero => rfl
  | succ k ih =>
    have hv' : v < 128 ^ (fuel + k + 1) :=
      lt_of_lt_of_le hv (Nat.pow_le_pow_right (by norm_num) (by omega))
    rw [← Nat.add_assoc, groupCount_succ_of_lt hv', ih]

theorem groupCount_le (fuel v : ℕ) : groupCount fuel v ≤ fuel + 1 := by
  induction fuel generalizing v with
  | zero => simp [groupCount]
  | succ fuel ih =>
      unfold groupCount
      split
      · omega
      · have := ih (v / 128)
        omega

/-- Splitting off the low group: the arithmetic behind one step of the round
trip. -/
private theorem low_group_add (result v p : ℕ) :
    result + v % 128 * p + v / 128 * (2 ^ 7 * p) = result + v * p := by
  have hsplit : v % 128 + 128 * (v / 128) = v := Nat.mod_add_div v 128
  calc result + v % 128 * p + v / 128 * (2 ^ 7 * p)
      = result + (v % 128 + 128 * (v / 128)) * p := by ring
    _ = result + v * p := by rw [hsplit]

/-- A last byte: a value below `128` is one byte with a clear top bit. -/
private theorem decodeGroups_last {maxShift width shift result v : ℕ} (rest : List UInt8)
    (hv : v < 128) (hshift : shift ≤ maxShift) (hwidth : result + v * 2 ^ shift < 2 ^ width) :
    decodeGroups maxShift width shift result (UInt8.ofNat v :: rest) =
      some (result + v * 2 ^ shift, rest) := by
  have hbyte : (UInt8.ofNat v).toNat = v := by simp only [UInt8.toNat_ofNat']; omega
  simp only [decodeGroups, hbyte, Nat.mod_eq_of_lt hwidth]
  rw [if_neg (by omega), if_neg (by omega)]

/-- **Round trip.**  Reading the groups of `v` at offset `shift` into an
accumulator that holds only lower bits adds `v * 2 ^ shift` to it and stops
right after the encoding, whatever follows, provided every group lies at or
below `maxShift` and the sum fits `width` bits. -/
theorem decodeGroups_encodeGroups {maxShift width : ℕ} (fuel v shift result : ℕ)
    (rest : List UInt8) (hv : v < 128 ^ (fuel + 1)) (hshift : shift + 7 * fuel ≤ maxShift)
    (hresult : result < 2 ^ shift) (hwidth : result + v * 2 ^ shift < 2 ^ width) :
    decodeGroups maxShift width shift result (encodeGroups fuel v ++ rest) =
      some (result + v * 2 ^ shift, rest) := by
  induction fuel generalizing v shift result with
  | zero =>
      have hv' : v < 128 := by simpa using hv
      exact decodeGroups_last rest hv' (by omega) hwidth
  | succ fuel ih =>
      by_cases hsmall : v < 128
      · simp only [encodeGroups, if_pos hsmall, List.singleton_append]
        exact decodeGroups_last rest hsmall (by omega) hwidth
      -- a continuation byte: the low group goes into the accumulator
      have hbyte : (UInt8.ofNat (v % 128 + 128)).toNat = v % 128 + 128 := by
        simp only [UInt8.toNat_ofNat']; omega
      have hlow : v % 128 * 2 ^ shift ≤ v * 2 ^ shift :=
        Nat.mul_le_mul_right _ (Nat.mod_le v 128)
      have hacc : (result + (v % 128 + 128) % 128 * 2 ^ shift) % 2 ^ width =
          result + v % 128 * 2 ^ shift := by
        rw [Nat.add_mod_right, Nat.mod_mod, Nat.mod_eq_of_lt (by omega)]
      have hnext : v / 128 < 128 ^ (fuel + 1) := by
        rw [pow_succ] at hv
        exact Nat.div_lt_of_lt_mul (by linarith)
      have hpow : 2 ^ (shift + 7) = 2 ^ 7 * 2 ^ shift := by rw [pow_add, mul_comm]
      have hresult' : result + v % 128 * 2 ^ shift < 2 ^ (shift + 7) := by
        have hmod : v % 128 * 2 ^ shift ≤ 127 * 2 ^ shift :=
          Nat.mul_le_mul_right _ (by omega)
        rw [hpow]
        omega
      have hsum := low_group_add result v (2 ^ shift)
      simp only [encodeGroups, if_neg hsmall, List.cons_append, decodeGroups, hbyte]
      rw [if_neg (by omega), if_pos (by omega), hacc,
        ih (v / 128) (shift + 7) _ hnext (by omega) hresult' (by rw [hpow]; omega), hpow, hsum]

/-- The reader consumes exactly the encoding: what it leaves is a suffix of
its input that is shorter by the number of bytes it read. -/
theorem decodeGroups_length {maxShift width shift result : ℕ} {input rest : List UInt8} {v : ℕ}
    (h : decodeGroups maxShift width shift result input = some (v, rest)) :
    rest.length < input.length := by
  induction input generalizing shift result with
  | nil => simp [decodeGroups] at h
  | cons b tail ih =>
      simp only [decodeGroups] at h
      split at h
      · cases h
      · split at h
        · have := ih h
          simp only [List.length_cons]
          omega
        · cases h
          simp

/-- Input that ends before a byte with a clear top bit reads as nothing. -/
theorem decodeGroups_of_forall_continuation {maxShift width shift result : ℕ} {input : List UInt8}
    (h : ∀ b ∈ input, 128 ≤ b.toNat) : decodeGroups maxShift width shift result input = none := by
  induction input generalizing shift result with
  | nil => rfl
  | cons b tail ih =>
    simp only [decodeGroups]
    split
    · rfl
    · rw [if_pos (h b List.mem_cons_self)]
      exact ih fun c hc => h c (List.mem_cons_of_mem b hc)

/-- The reader stops at the end of the number: what follows its input does not
change what it reads, and is left after what it left. -/
theorem decodeGroups_append {maxShift width shift result : ℕ} {input rest : List UInt8} {v : ℕ}
    (h : decodeGroups maxShift width shift result input = some (v, rest)) (extra : List UInt8) :
    decodeGroups maxShift width shift result (input ++ extra) = some (v, rest ++ extra) := by
  induction input generalizing shift result with
  | nil => simp [decodeGroups] at h
  | cons b tail ih =>
      simp only [decodeGroups] at h
      simp only [List.cons_append, decodeGroups]
      split at h
      · cases h
      · rename_i hshift
        rw [if_neg hshift]
        split at h
        · rename_i hmore
          rw [if_pos hmore]
          exact ih h
        · rename_i hlast
          rw [if_neg hlast]
          cases h
          rfl

end Codec
