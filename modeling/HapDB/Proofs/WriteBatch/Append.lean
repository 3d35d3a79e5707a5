import HapDB.Proofs.WriteBatch.ContentFlags
import HapDB.Proofs.WriteBatch.SavePoint

/-!
# `Append` concatenates batches

`WriteBatchInternal::Append(dst, src, wal_only)` copies the records of `src`
from behind its header to the end of `dst`, adds the counts and ors the flags.
For batches built through the API both bytes are headers followed by records
(`applyOps_rep`), so the result is a header counting both runs, followed by
the records of the first run and then those of the second.  Everything else
follows from that:

* `append_rep`: the bytes of the result, from the bytes of the two batches;
* `iterate_of_rep`: iterating the result replays both runs, in order;
* `hasContentFlag_append`: the flags are or-ed, and without `DEFERRED` the
  `Has*` answers read them directly;
* `append_walOnly_eq`: with `wal_only` and a marked termination point, what is
  appended is the batch as it was when the point was marked, since writes
  after the mark only add records behind it and keep the point.
-/

namespace HapDB

namespace WriteBatch

variable {dst src : WriteBatch}

theorem commit_walTermPoint (save : SavePoint) (b : WriteBatch) :
    (commit save b).2.walTermPoint = b.walTermPoint := by
  unfold commit
  split <;> rfl

end WriteBatch

/-! ## Writers keep the termination point -/

namespace WriteBatchOp

variable {b : WriteBatch}

theorem apply_walTermPoint (op : WriteBatchOp) : (op.apply b).2.walTermPoint = b.walTermPoint := by
  cases op with
  | put cf key value =>
      simp only [apply, WriteBatchInternal.put]
      split_ifs
      · rfl
      · rfl
      · exact WriteBatch.commit_walTermPoint _ _
  | delete => exact WriteBatch.commit_walTermPoint _ _
  | singleDelete => exact WriteBatch.commit_walTermPoint _ _
  | deleteRange => exact WriteBatch.commit_walTermPoint _ _
  | merge cf key value =>
      simp only [apply, WriteBatchInternal.merge]
      split_ifs
      · rfl
      · rfl
      · exact WriteBatch.commit_walTermPoint _ _
  | putLogData blob => exact WriteBatch.commit_walTermPoint _ _

end WriteBatchOp

theorem applyOps_walTermPoint (ops : List WriteBatchOp) {b b' : WriteBatch}
    (hrun : applyOps ops b = (Status.OK, b')) : b'.walTermPoint = b.walTermPoint := by
  induction ops generalizing b with
  | nil =>
      simp only [applyOps, Prod.mk.injEq] at hrun
      rw [← hrun.2]
  | cons op ops ih =>
      simp only [applyOps] at hrun
      split at hrun
      · rw [ih hrun, WriteBatchOp.apply_walTermPoint]
      · rename_i hfail
        rw [hrun] at hfail
        simp at hfail

/-! ## The appended batch -/

namespace WriteBatch

variable {dst src : WriteBatch} {seq seq' records records' : Bytes} {n m : UInt32}

/-- `Append` without `wal_only`: the header of `dst` with the summed count, the
records of `dst`, then those of `src`. -/
theorem append_rep (hseq : seq.length = 8) (hseq' : seq'.length = 8)
    (hdst : dst.rep = seq ++ encodeFixed32 n ++ records)
    (hsrc : src.rep = seq' ++ encodeFixed32 m ++ records') :
    (append dst src false).2.rep = seq ++ encodeFixed32 (n + m) ++ (records ++ records') := by
  have hbody : src.rep.drop kHeader = records' := by
    rw [hsrc]
    exact List.drop_left' (by simp [hseq', kHeader])
  have hlen : src.rep.length - kHeader = records'.length := by
    simp only [hsrc, List.length_append, length_encodeFixed32, hseq', kHeader]
    omega
  simp only [append, Bool.false_and, Bool.false_eq_true, if_false]
  rw [rep_setCount hseq hdst, count_of_rep hseq hdst, count_of_rep hseq' hsrc, hlen, hbody,
    List.take_length, List.append_assoc]

/-- Appending sets the count and adds records, so the leading sequence number
stays. -/
theorem sequence_append (hseq : seq.length = 8) (hdst : dst.rep = seq ++ encodeFixed32 n ++ records)
    (walOnly : Bool) : (append dst src walOnly).2.sequence = dst.sequence := by
  have hpre : ∀ rest : Bytes, (seq ++ rest).take 8 = seq := fun rest => by
    rw [List.take_append_of_le_length (by omega), ← hseq, List.take_length]
  -- whatever count is written, the first eight bytes stay
  have hhead : ∀ (c : UInt32) (rest : Bytes), ((dst.setCount c).rep ++ rest).take 8 = seq :=
    fun c rest => by rw [rep_setCount hseq hdst c, List.append_assoc, List.append_assoc, hpre]
  simp only [sequence, decodeFixed64, append]
  split <;>
  · simp only [hhead, hdst, List.append_assoc, hpre]

theorem contentFlags_append (walOnly : Bool) :
    (append dst src walOnly).2.contentFlags = dst.contentFlags |||
      (if walOnly && !src.walTermPoint.isCleared then src.walTermPoint.contentFlags
        else src.contentFlags) := by
  simp only [append]
  split <;> rfl

/-- `Has*` of or-ed flags: either batch has the flag. -/
theorem hasContentFlag_append (hdst : dst.contentFlags &&& ContentFlags.DEFERRED = 0)
    (hsrc : src.contentFlags &&& ContentFlags.DEFERRED = 0) (flag : UInt32) :
    (append dst src false).2.hasContentFlag flag = (dst.hasContentFlag flag || src.hasContentFlag flag) := by
  have hflags : (append dst src false).2.contentFlags = dst.contentFlags ||| src.contentFlags := by
    simp [contentFlags_append]
  have hdistrib : ∀ a b c : UInt32, (a ||| b) &&& c = (a &&& c) ||| (b &&& c) := fun a b c => by
    apply UInt32.toBitVec_inj.mp
    simp only [UInt32.toBitVec_and, UInt32.toBitVec_or]
    exact BitVec.and_or_distrib_right
  have hne : ∀ a b : UInt32, (a ||| b != 0) = (a != 0 || b != 0) := fun a b => by
    cases ha : (a != 0) <;> cases hb : (b != 0) <;> simp_all [UInt32.or_eq_zero_iff]
  -- neither side defers its flags, so `ComputeContentFlags` returns them
  have hboth : (append dst src false).2.contentFlags &&& ContentFlags.DEFERRED = 0 := by
    rw [hflags, hdistrib, hdst, hsrc]
    rfl
  simp only [hasContentFlag, ComputeContentFlags_of_not_deferred hboth,
    ComputeContentFlags_of_not_deferred hdst, ComputeContentFlags_of_not_deferred hsrc, hflags,
    hdistrib, hne]

theorem byteSize_append (hseq : seq.length = 8) (hseq' : seq'.length = 8)
    (hdst : dst.rep = seq ++ encodeFixed32 n ++ records)
    (hsrc : src.rep = seq' ++ encodeFixed32 m ++ records') :
    (append dst src false).2.byteSize = appendedByteSize dst.byteSize src.byteSize := by
  have hd : dst.byteSize = 8 + 4 + records.length := by
    simp only [byteSize, hdst, List.length_append, length_encodeFixed32, hseq]
  have hs : src.byteSize = 8 + 4 + records'.length := by
    simp only [byteSize, hsrc, List.length_append, length_encodeFixed32, hseq']
  -- both batches hold a header, so the header of `src` is what is not copied
  rw [byteSize, append_rep hseq hseq' hdst hsrc, appendedByteSize, if_neg (by omega), hd, hs]
  simp only [List.length_append, length_encodeFixed32, hseq, kHeader]
  omega

/-- With `wal_only`, a source whose termination point marks the bytes of `mid`
and whose records start with those of `mid` appends as `mid` does without it. -/
theorem append_walOnly_eq {mid : WriteBatch} (hlen : kHeader ≤ mid.rep.length)
    (hpoint : src.walTermPoint = ⟨mid.byteSize, mid.count, mid.contentFlags⟩)
    (hpre : mid.rep.drop kHeader <+: src.rep.drop kHeader) :
    append dst src true = append dst mid false := by
  have hmarked : src.walTermPoint.isCleared = false := by
    simp only [hpoint, SavePoint.isCleared, byteSize]
    have : mid.rep.length ≠ 0 := by simp [kHeader] at hlen; omega
    simp [this]
  have htake : (src.rep.drop kHeader).take (mid.rep.length - kHeader) = mid.rep.drop kHeader := by
    rw [List.prefix_iff_eq_take.mp hpre, List.length_drop]
  have hall : (mid.rep.drop kHeader).take (mid.rep.length - kHeader) = mid.rep.drop kHeader :=
    List.take_of_length_le (by simp)
  simp only [append, hmarked, Bool.not_false, Bool.and_self, if_true, Bool.false_and,
    Bool.false_eq_true, if_false]
  simp only [hpoint, byteSize, htake, hall]

end WriteBatch

/-! ## Batches built through the API -/

variable {σ : Type}

theorem append_concatenates_batches (ops1 ops2 : List WriteBatchOp) (m1 m2 : ℕ)
    (dst src : WriteBatch) (hfit : ∀ op ∈ ops1 ++ ops2, op.Fits)
    (hdst : applyOps ops1 (WriteBatch.empty m1) = (Status.OK, dst))
    (hsrc : applyOps ops2 (WriteBatch.empty m2) = (Status.OK, src))
    (h : WriteBatchHandler σ) (hh : h.WellBehaved) (s0 : σ) :
    (WriteBatch.append dst src false).1 = Status.OK ∧
      (WriteBatch.append dst src false).2.iterate h s0 =
        (Status.OK, (ops1 ++ ops2).foldl (fun st op => op.replay h st) s0) ∧
      (WriteBatch.append dst src false).2.count = dst.count + src.count ∧
      (WriteBatch.append dst src false).2.sequence = dst.sequence ∧
      (∀ flag, (WriteBatch.append dst src false).2.hasContentFlag flag =
        (dst.hasContentFlag flag || src.hasContentFlag flag)) ∧
      (WriteBatch.append dst src false).2.byteSize =
        WriteBatch.appendedByteSize dst.byteSize src.byteSize ∧
      ∀ (ops3 : List WriteBatchOp) (src' : WriteBatch),
        applyOps ops3 src.markWalTerminationPoint = (Status.OK, src') →
        WriteBatch.append dst src' true = WriteBatch.append dst src false := by
  have hseq : (List.replicate 8 (0 : UInt8)).length = 8 := by simp
  have hd := applyOps_rep ops1 hseq (rep_empty m1) hdst
  rw [zero_add, List.nil_append] at hd
  have hs := applyOps_rep ops2 hseq (rep_empty m2) hsrc
  rw [zero_add, List.nil_append] at hs
  have hrep := WriteBatch.append_rep hseq hseq hd hs
  -- built through the API, neither batch defers its flags
  have hfd : dst.contentFlags &&& ContentFlags.DEFERRED = 0 := by
    rw [applyOps_contentFlags ops1 hdst]
    exact foldl_flag_and_DEFERRED ops1 (by simp only [WriteBatch.empty]; decide)
  have hfs : src.contentFlags &&& ContentFlags.DEFERRED = 0 := by
    rw [applyOps_contentFlags ops2 hsrc]
    exact foldl_flag_and_DEFERRED ops2 (by simp only [WriteBatch.empty]; decide)
  refine ⟨rfl, ?_, ?_, WriteBatch.sequence_append hseq hd false,
    WriteBatch.hasContentFlag_append hfd hfs, WriteBatch.byteSize_append hseq hseq hd hs, ?_⟩
  · -- the records of both runs, behind a header that counts both
    apply iterate_of_rep hseq (ops1 ++ ops2) hfit _ h hh s0
    rw [hrep, List.countP_append, UInt32.ofNat_add, List.map_append, List.flatten_append]
  · rw [WriteBatch.count_of_rep hseq hrep, WriteBatch.count_of_rep hseq hd,
      WriteBatch.count_of_rep hseq hs]
  · intro ops3 src' hrun
    have hmark : src.markWalTerminationPoint.rep = src.rep := rfl
    have hs' := applyOps_rep ops3 hseq (hmark.trans hs) hrun
    have hpoint : src'.walTermPoint = ⟨src.byteSize, src.count, src.contentFlags⟩ :=
      applyOps_walTermPoint ops3 hrun
    -- the writes after the mark only add records behind those of `src`
    have hpre : src.rep.drop kHeader <+: src'.rep.drop kHeader := by
      rw [hs, hs', List.drop_left' (by simp [kHeader]), List.drop_left' (by simp [kHeader])]
      exact List.prefix_append _ _
    exact WriteBatch.append_walOnly_eq (by simp [hs, kHeader]) hpoint hpre

theorem append_put_then_delete :
    (WriteBatch.append (applyOps [.put 1 [7] [8, 9]] (WriteBatch.empty 0)).2
        (applyOps [.delete 0 [7]] (WriteBatch.empty 0)).2 false).2.iterate
        WriteBatchHandler.recorder [] =
      (Status.OK, ([WriteBatchOp.put 1 [7] [8, 9]] ++ [WriteBatchOp.delete 0 [7]]).foldl
        (fun st op => op.replay WriteBatchHandler.recorder st) []) :=
  (append_concatenates_batches [.put 1 [7] [8, 9]] [.delete 0 [7]] 0 0 _ _ (by decide) rfl rfl
    WriteBatchHandler.recorder WriteBatchHandler.recorder_wellBehaved []).2.1

end HapDB
