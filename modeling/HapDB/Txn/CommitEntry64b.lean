import HapDB.Txn.WritePrepared

/-!
# `CommitEntry64b`: a commit entry in one 64-bit word

A slot of the commit cache stores its entry packed into a `uint64_t`.  The
low `b` bits of the prepare sequence are the slot's index, so they are not
stored; the `56 - b` bits above them are stored shifted up by the eight pad
bits; the low `COMMIT_BITS = 8 + b` bits hold `delta = commit - prepare + 1`,
which is never zero, so that the zero word is an empty slot.

The widths are `size_t` and the word a `uint64_t`, both `UInt64` here: every
subtraction and shift is the machine's.  A shift of `1ull` by `64` or more is
undefined in C++; `UInt64` shifts by the amount modulo `64`, as the x86
instruction does.

* `Parse_new`: the zero word parses as empty.
* `pack_Parse_round_trip`: for `b ≤ 55`, where `COMMIT_BITS < 64`, a prepare
  sequence below `2 ^ 56` and a delta below `DELTA_UPPERBOUND` pack, and parse
  back at the slot index.  The proof reads the word bit by bit: the filter
  keeps the delta (`and_COMMIT_FILTER`), and the bits above it with the index
  make the prepare sequence (`prepSeq_eq`).

The bound `b ≤ 55` is the one the shifts need: at `56` index bits
`COMMIT_BITS` is `64` and `1ull << COMMIT_BITS` shifts by the full width.  No
running database gets there, since `WritePreparedTxnDB` allocates the cache as
`2 ^ b` slots of eight bytes, and `TransactionDB::Open` builds it with the
default `DEF_COMMIT_CACHE_BITS = 23`.
-/

namespace HapDB

/-- `CommitEntry64bFormat(index_bits)`: the widths follow from `INDEX_BITS`. -/
structure CommitEntry64bFormat where
  INDEX_BITS : UInt64
  deriving DecidableEq, Repr

namespace CommitEntry64bFormat

variable (format : CommitEntry64bFormat)

def PAD_BITS : UInt64 := 8

def PREP_BITS : UInt64 := 64 - PAD_BITS - format.INDEX_BITS

def COMMIT_BITS : UInt64 := 64 - format.PREP_BITS

def COMMIT_FILTER : UInt64 := (1 <<< format.COMMIT_BITS) - 1

def DELTA_UPPERBOUND : UInt64 := 1 <<< format.COMMIT_BITS

end CommitEntry64bFormat

/-- `CommitEntry64b`: the word `rep_`. -/
structure CommitEntry64b where
  rep : UInt64
  deriving DecidableEq, Repr

namespace CommitEntry64b

/-- `CommitEntry64b()`: the empty slot. -/
def new : CommitEntry64b := ⟨0⟩

/-- `CommitEntry64b(ps, cs, format)`.  The assertions on `ps` and `cs` are
debug checks; the distance check throws. -/
def pack (ps cs : UInt64) (format : CommitEntry64bFormat) : Except String CommitEntry64b :=
  let delta := cs - ps + 1
  if delta ≥ format.DELTA_UPPERBOUND then
    .error ("commit_seq >> prepare_seq. The allowed distance is " ++
      toString format.DELTA_UPPERBOUND ++ " commit_seq is " ++ toString cs ++
      " prepare_seq is " ++ toString ps)
  else .ok ⟨((ps <<< CommitEntry64bFormat.PAD_BITS) &&& ~~~format.COMMIT_FILTER) ||| delta⟩

/-- `Parse(indexed_seq, &entry, format)`: `none` where the source returns
`false`, for an empty slot. -/
def Parse (e : CommitEntry64b) (indexedSeq : UInt64) (format : CommitEntry64bFormat) :
    Option CommitEntry :=
  let delta := e.rep &&& format.COMMIT_FILTER
  if delta = 0 then none
  else
    let prepUp := (e.rep &&& ~~~format.COMMIT_FILTER) >>> CommitEntry64bFormat.PAD_BITS
    let prepSeq := prepUp ||| indexedSeq
    some ⟨prepSeq.toNat, (prepSeq + delta - 1).toNat⟩

theorem Parse_new (indexedSeq : UInt64) (format : CommitEntry64bFormat) :
    new.Parse indexedSeq format = none := by
  simp [Parse, new]

end CommitEntry64b

/-! ## The widths -/

namespace CommitEntry64bFormat

variable {b : ℕ} (hb : b ≤ 55)
include hb

theorem COMMIT_BITS_toNat : (mk (UInt64.ofNat b)).COMMIT_BITS.toNat = 8 + b := by
  have hbits : (UInt64.ofNat b).toNat = b := by
    rw [UInt64.toNat_ofNat', Nat.mod_eq_of_lt (by omega)]
  have h64 : (64 : UInt64).toNat = 64 := rfl
  have h8 : (8 : UInt64).toNat = 8 := rfl
  simp only [COMMIT_BITS, PREP_BITS, PAD_BITS, UInt64.toNat_sub, hbits, h64, h8]
  omega

theorem DELTA_UPPERBOUND_toNat : (mk (UInt64.ofNat b)).DELTA_UPPERBOUND.toNat = 2 ^ (8 + b) := by
  have hpow : 2 ^ (8 + b) < 2 ^ 64 := Nat.pow_lt_pow_right (by norm_num) (by omega)
  rw [DELTA_UPPERBOUND, UInt64.toNat_shiftLeft, COMMIT_BITS_toNat hb,
    Nat.mod_eq_of_lt (by omega : 8 + b < 64)]
  simp only [UInt64.toNat_one, Nat.shiftLeft_eq, one_mul]
  exact Nat.mod_eq_of_lt hpow

theorem COMMIT_FILTER_toNat : (mk (UInt64.ofNat b)).COMMIT_FILTER.toNat = 2 ^ (8 + b) - 1 := by
  have hbound := DELTA_UPPERBOUND_toNat hb
  have hpos : 0 < 2 ^ (8 + b) := Nat.two_pow_pos _
  have hle : (1 : UInt64) ≤ 1 <<< (mk (UInt64.ofNat b)).COMMIT_BITS := by
    rw [UInt64.le_iff_toNat_le, ← DELTA_UPPERBOUND, hbound, UInt64.toNat_one]
    omega
  rw [COMMIT_FILTER, UInt64.toNat_sub_of_le _ _ hle, ← DELTA_UPPERBOUND, hbound, UInt64.toNat_one]

/-- `COMMIT_FILTER` holds the low `8 + b` bits. -/
theorem getLsbD_COMMIT_FILTER (j : ℕ) :
    (mk (UInt64.ofNat b)).COMMIT_FILTER.toBitVec.getLsbD j = decide (j < 8 + b) := by
  rw [BitVec.getLsbD, UInt64.toNat_toBitVec, COMMIT_FILTER_toNat hb, Nat.testBit_two_pow_sub_one]

end CommitEntry64bFormat

/-! ## Packing and parsing -/

namespace CommitEntry64b

/-- A value below `2 ^ n` has no bit at `n` or above. -/
theorem getLsbD_eq_false_of_lt {x : UInt64} {n : ℕ} (hx : x.toNat < 2 ^ n) {j : ℕ} (hj : n ≤ j) :
    x.toBitVec.getLsbD j = false := by
  rw [BitVec.getLsbD, UInt64.toNat_toBitVec]
  exact Nat.testBit_eq_false_of_lt (lt_of_lt_of_le hx (Nat.pow_le_pow_right (by norm_num) hj))

/-- The slot index holds the low `b` bits of the prepare sequence. -/
theorem getLsbD_slot {b : ℕ} (ps : UInt64) (j : ℕ) :
    (UInt64.ofNat (ps.toNat % 2 ^ b)).toBitVec.getLsbD j =
      (decide (j < b) && ps.toBitVec.getLsbD j) := by
  have hlt : ps.toNat % 2 ^ b < 2 ^ 64 := lt_of_le_of_lt (Nat.mod_le _ _) ps.toNat_lt
  rw [BitVec.getLsbD, UInt64.toNat_toBitVec, UInt64.toNat_ofNat', Nat.mod_eq_of_lt hlt,
    Nat.testBit_mod_two_pow, BitVec.getLsbD, UInt64.toNat_toBitVec]

section RoundTrip

variable {b : ℕ} (hb : b ≤ 55)
include hb

/-- The filter keeps the delta and drops the shifted prepare sequence. -/
theorem and_COMMIT_FILTER (ps : UInt64) {delta : UInt64} (hdelta : delta.toNat < 2 ^ (8 + b)) :
    (((ps <<< 8) &&& ~~~(CommitEntry64bFormat.mk (UInt64.ofNat b)).COMMIT_FILTER) ||| delta) &&&
      (CommitEntry64bFormat.mk (UInt64.ofNat b)).COMMIT_FILTER = delta := by
  apply UInt64.toBitVec_inj.mp
  apply BitVec.eq_of_getLsbD_eq
  intro i hi
  simp only [UInt64.toBitVec_and, UInt64.toBitVec_or, UInt64.toBitVec_not, BitVec.getLsbD_and,
    BitVec.getLsbD_or, BitVec.getLsbD_not, CommitEntry64bFormat.getLsbD_COMMIT_FILTER hb]
  by_cases hlow : i < 8 + b
  · simp [hlow]
  · simp [hlow, getLsbD_eq_false_of_lt hdelta (Nat.not_lt.mp hlow)]

/-- The prepare sequence comes back from the bits above the filter, shifted
down, and the slot index. -/
theorem prepSeq_eq {ps : UInt64} (hps : ps.toNat < 2 ^ 56) {delta : UInt64}
    (hdelta : delta.toNat < 2 ^ (8 + b)) :
    (((((ps <<< 8) &&& ~~~(CommitEntry64bFormat.mk (UInt64.ofNat b)).COMMIT_FILTER) ||| delta) &&&
      ~~~(CommitEntry64bFormat.mk (UInt64.ofNat b)).COMMIT_FILTER) >>> 8) |||
      UInt64.ofNat (ps.toNat % 2 ^ b) = ps := by
  have h8 : ((8 : UInt64).toBitVec % 64).toNat = 8 := rfl
  apply UInt64.toBitVec_inj.mp
  apply BitVec.eq_of_getLsbD_eq
  intro i hi
  simp only [UInt64.toBitVec_and, UInt64.toBitVec_or, UInt64.toBitVec_not,
    UInt64.toBitVec_shiftRight, UInt64.toBitVec_shiftLeft, BitVec.ushiftRight_eq',
    BitVec.shiftLeft_eq', h8, BitVec.getLsbD_or, BitVec.getLsbD_and, BitVec.getLsbD_not,
    BitVec.getLsbD_ushiftRight, BitVec.getLsbD_shiftLeft, getLsbD_slot,
    CommitEntry64bFormat.getLsbD_COMMIT_FILTER hb]
  by_cases hlow : i < b
  · -- a bit of the index
    simp [hlow]
  · by_cases htop : 56 ≤ i
    · -- above every prepare sequence
      simp [hlow, getLsbD_eq_false_of_lt hps htop]
      omega
    · -- a stored bit: above the filter once shifted up, where the delta has none
      have hin : 8 + i < 64 := by omega
      have hd : delta.toBitVec.getLsbD (8 + i) = false :=
        getLsbD_eq_false_of_lt hdelta (by omega)
      rw [hd]
      simp [hlow, hin]

variable {ps cs : UInt64} (hle : ps ≤ cs) (hdelta : cs.toNat - ps.toNat + 1 < 2 ^ (8 + b))
include hle hdelta

/-- The delta does not wrap. -/
theorem delta_toNat : (cs - ps + 1).toNat = cs.toNat - ps.toNat + 1 := by
  have hpow : 2 ^ (8 + b) < 2 ^ 64 := Nat.pow_lt_pow_right (by norm_num) (by omega)
  rw [UInt64.toNat_add, UInt64.toNat_sub_of_le _ _ hle, UInt64.toNat_one,
    Nat.mod_eq_of_lt (by omega)]

/-- A delta below `DELTA_UPPERBOUND` is stored below the shifted prepare sequence. -/
theorem pack_eq :
    pack ps cs (CommitEntry64bFormat.mk (UInt64.ofNat b)) =
      .ok ⟨((ps <<< 8) &&& ~~~(CommitEntry64bFormat.mk (UInt64.ofNat b)).COMMIT_FILTER) |||
        (cs - ps + 1)⟩ := by
  have hfits : ¬(cs - ps + 1 ≥ (CommitEntry64bFormat.mk (UInt64.ofNat b)).DELTA_UPPERBOUND) := by
    rw [ge_iff_le, UInt64.le_iff_toNat_le, CommitEntry64bFormat.DELTA_UPPERBOUND_toNat hb,
      delta_toNat hb hle hdelta]
    omega
  simp only [pack, if_neg hfits]
  rfl

theorem Parse_pack_eq (hps : ps.toNat < 2 ^ 56) :
    Parse ⟨((ps <<< 8) &&& ~~~(CommitEntry64bFormat.mk (UInt64.ofNat b)).COMMIT_FILTER) |||
        (cs - ps + 1)⟩ (UInt64.ofNat (ps.toNat % 2 ^ b)) (CommitEntry64bFormat.mk (UInt64.ofNat b)) =
      some ⟨ps.toNat, cs.toNat⟩ := by
  have hD : (cs - ps + 1).toNat < 2 ^ (8 + b) := by
    rw [delta_toNat hb hle hdelta]
    exact hdelta
  -- the delta is at least one, so the slot is not read as empty
  have hne : cs - ps + 1 ≠ 0 := by
    intro h0
    have hzero := congrArg UInt64.toNat h0
    rw [delta_toNat hb hle hdelta] at hzero
    simp at hzero
  have hcommit : ps + (cs - ps + 1) - 1 = cs := by grind
  simp only [Parse, CommitEntry64bFormat.PAD_BITS]
  rw [and_COMMIT_FILTER hb ps hD, if_neg hne, prepSeq_eq hb hps hD, hcommit]

end RoundTrip

end CommitEntry64b

end HapDB
