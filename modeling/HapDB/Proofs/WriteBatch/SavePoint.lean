import HapDB.Proofs.WriteBatch.Iterate

/-!
# Failed writes and save points leave the batch intact

A writer that fails changes nothing: `Put` and `Merge` check their lengths
before they touch the batch, and `LocalSavePoint::commit` undoes a write that
outgrew `max_bytes_` (`WriteBatchOp.apply_of_not_ok`).  `RollbackToSavePoint`
goes back to the most recent `SetSavePoint`, and the save points nest.

A save point keeps only a size, a count and the flags, so what it goes back to
is stated against the batch it was set on: `BatchOp.run` carries, beside the
batch, the batches its save points were set on (`BatchOp.ghost`), and
`rollbackToSavePoint_restores` says that the rollback gives back that batch's
bytes, count and `Has*` answers.

## Strategy

* `Extends x y`: `y` is `x` with records appended behind the header, with the
  same count and flags when nothing was appended.  Every write extends the batch
  (`WriteBatchOp.extends_apply`); `Extends.restore` is the rollback's cut and
  `SetCount`, and `Extends.eq_of_length` its "no changes" case.
* `Tracks b ghosts`: the save points of `b` on top are those of `ghosts`, `b`
  extends each of them, and each extends the older ones.  `Tracks.step` is one
  operation; `BatchOp.run_tracks` the induction over a run, together with
  `WellFormed` (a header, and save points past it).
* The rollback that finds a tracked save point on top gives back the batch's
  bytes and flags (`rollbackToSavePoint_of_extends`); the `Has*` answers read
  nothing else (`hasContentFlag_congr`).
-/

namespace HapDB

attribute [ext] WriteBatch

namespace WriteBatch

variable {b : WriteBatch}

/-! ## The header -/

/-- A batch with a header is its sequence, its count and its records. -/
theorem rep_eq_header (hb : kHeader ≤ b.rep.length) :
    b.rep = b.rep.take 8 ++ encodeFixed32 b.count ++ b.rep.drop kHeader := by
  have hcount : encodeFixed32 b.count = (b.rep.drop 8).take 4 :=
    encodeFixed32_decodeFixed32 _ (by simp only [List.length_drop, kHeader] at hb ⊢; omega)
  have hdrop : b.rep.drop kHeader = (b.rep.drop 8).drop 4 := by
    rw [List.drop_drop]
    rfl
  rw [hcount, hdrop, List.append_assoc, List.take_append_drop, List.take_append_drop]

theorem length_setCount (hb : kHeader ≤ b.rep.length) (n : UInt32) :
    (b.setCount n).rep.length = b.rep.length := by
  simp only [setCount, List.length_append, List.length_take, length_encodeFixed32, List.length_drop,
    kHeader] at hb ⊢
  omega

theorem setCount_count (hb : kHeader ≤ b.rep.length) : b.setCount b.count = b := by
  ext1
  · exact (rep_eq_header hb).symm
  all_goals rfl

theorem setCount_setCount (hb : kHeader ≤ b.rep.length) (m n : UInt32) :
    (b.setCount m).setCount n = b.setCount n := by
  have hseq : (b.rep.take 8).length = 8 := by simp [kHeader] at hb ⊢; omega
  have h := rep_eq_header hb
  have hset := rep_setCount hseq h m
  ext1
  · rw [rep_setCount hseq hset n, rep_setCount hseq h n]
  all_goals rfl

/-- `SetCount` writes only the count: it reads nothing of the batch but its bytes. -/
theorem rep_setCount_of_rep {c : WriteBatch} (h : b.rep = c.rep) (n : UInt32) :
    (b.setCount n).rep = (c.setCount n).rep := by
  simp only [setCount, h]

/-- A failed `LocalSavePoint::commit` puts back the batch the writer started
from, whatever count the writer set and whatever it appended. -/
theorem commit_of_not_ok {b' : WriteBatch} (hb : kHeader ≤ b.rep.length) {m : UInt32}
    {suffix : Bytes} (hrep : b'.rep = (b.setCount m).rep ++ suffix)
    (hmax : b'.maxBytes = b.maxBytes) (hsp : b'.savePoints = b.savePoints)
    (hwal : b'.walTermPoint = b.walTermPoint) (hfail : (commit b.localSavePoint b').1.ok = false) :
    (commit b.localSavePoint b').2 = b := by
  unfold commit at hfail ⊢
  by_cases hlim : b'.maxBytes ≠ 0 ∧ b'.maxBytes < b'.rep.length
  · -- the limit is exceeded: back to the save point
    rw [if_pos hlim]
    have htake : b'.rep.take b.rep.length = (b.setCount m).rep := by
      rw [hrep, ← length_setCount hb m, List.take_left]
    have hback : (({ b' with rep := b'.rep.take b.rep.length } : WriteBatch).setCount b.count).rep =
        b.rep := by
      rw [rep_setCount_of_rep (c := b.setCount m) htake, setCount_setCount hb, setCount_count hb]
    ext1
    · exact hback
    · rfl
    · exact hmax
    · exact hsp
    · exact hwal
  · rw [if_neg hlim] at hfail
    simp at hfail

/-- `LocalSavePoint::commit` leaves the save points alone. -/
theorem commit_savePoints (save : SavePoint) (b' : WriteBatch) :
    (commit save b').2.savePoints = b'.savePoints := by
  unfold commit
  split <;> rfl

/-- The `Has*` answers read the bytes and the content flags only. -/
theorem hasContentFlag_congr {c : WriteBatch} (hrep : b.rep = c.rep)
    (hflags : b.contentFlags = c.contentFlags) (flag : UInt32) :
    b.hasContentFlag flag = c.hasContentFlag flag := by
  simp only [hasContentFlag, ComputeContentFlags, WriteBatch.iterate, count, hrep, hflags]
  split <;> rfl

end WriteBatch

namespace WriteBatchInternal

variable {b : WriteBatch}

/-- A failed counted write puts back the batch it started from. -/
theorem appendCountedRecord_of_not_ok (hb : kHeader ≤ b.rep.length) {tag cfTag : ValueType}
    {cf : UInt32} {slices : List Bytes} {flag : UInt32}
    (hfail : (appendCountedRecord b tag cfTag cf slices flag).1.ok = false) :
    (appendCountedRecord b tag cfTag cf slices flag).2 = b := by
  unfold appendCountedRecord at hfail ⊢
  -- the writer set the count and appended the tag and the slices
  obtain ⟨suffix, hsuffix⟩ : ∃ suffix, slices.foldl putLengthPrefixedSlice
      (if cf = 0 then (b.setCount (b.count + 1)).rep ++ [tag.toByte]
        else putVarint32 ((b.setCount (b.count + 1)).rep ++ [cfTag.toByte]) cf) =
      (b.setCount (b.count + 1)).rep ++ suffix := by
    rw [foldl_putLengthPrefixedSlice]
    split <;> simp only [putVarint32_eq, List.append_assoc] <;> exact ⟨_, rfl⟩
  exact WriteBatch.commit_of_not_ok hb hsuffix rfl rfl rfl hfail

theorem appendCountedRecord_savePoints {tag cfTag : ValueType} {cf : UInt32}
    {slices : List Bytes} {flag : UInt32} :
    (appendCountedRecord b tag cfTag cf slices flag).2.savePoints = b.savePoints := by
  unfold appendCountedRecord
  rw [WriteBatch.commit_savePoints]
  rfl

end WriteBatchInternal

namespace WriteBatchOp

variable {b : WriteBatch}

/-- **A failed write changes nothing**: the length checks fail before the
batch is touched, and `LocalSavePoint::commit` undoes a write over the limit. -/
theorem apply_of_not_ok (op : WriteBatchOp) (hb : kHeader ≤ b.rep.length)
    (hfail : (op.apply b).1.ok = false) : (op.apply b).2 = b := by
  cases op with
  | put cf key value =>
      simp only [apply, WriteBatchInternal.put] at hfail ⊢
      split_ifs at hfail ⊢
      · rfl
      · rfl
      · exact WriteBatchInternal.appendCountedRecord_of_not_ok hb hfail
  | delete cf key => exact WriteBatchInternal.appendCountedRecord_of_not_ok hb hfail
  | singleDelete cf key => exact WriteBatchInternal.appendCountedRecord_of_not_ok hb hfail
  | deleteRange cf beginKey endKey =>
      exact WriteBatchInternal.appendCountedRecord_of_not_ok hb hfail
  | merge cf key value =>
      simp only [apply, WriteBatchInternal.merge] at hfail ⊢
      split_ifs at hfail ⊢
      · rfl
      · rfl
      · exact WriteBatchInternal.appendCountedRecord_of_not_ok hb hfail
  | putLogData blob =>
      simp only [apply, WriteBatch.putLogData] at hfail ⊢
      -- `PutLogData` leaves the count as it is
      have hrep : b.rep ++ [ValueType.kTypeLogData.toByte] ++
          encodeVarint32 (UInt32.ofNat blob.length) ++ blob =
          (b.setCount b.count).rep ++ ([ValueType.kTypeLogData.toByte] ++
            encodeVarint32 (UInt32.ofNat blob.length) ++ blob) := by
        rw [WriteBatch.setCount_count hb]
        simp
      exact WriteBatch.commit_of_not_ok hb hrep rfl rfl rfl hfail

theorem apply_savePoints (op : WriteBatchOp) : (op.apply b).2.savePoints = b.savePoints := by
  cases op with
  | put cf key value =>
      simp only [apply, WriteBatchInternal.put]
      split_ifs
      · rfl
      · rfl
      · exact WriteBatchInternal.appendCountedRecord_savePoints
  | delete => exact WriteBatchInternal.appendCountedRecord_savePoints
  | singleDelete => exact WriteBatchInternal.appendCountedRecord_savePoints
  | deleteRange => exact WriteBatchInternal.appendCountedRecord_savePoints
  | merge cf key value =>
      simp only [apply, WriteBatchInternal.merge]
      split_ifs
      · rfl
      · rfl
      · exact WriteBatchInternal.appendCountedRecord_savePoints
  | putLogData blob =>
      simp only [apply, WriteBatch.putLogData]
      rw [WriteBatch.commit_savePoints]

theorem record_ne_nil (op : WriteBatchOp) : op.record ≠ [] := by
  cases op <;> simp [record, cfPrefix] <;> split <;> simp

end WriteBatchOp

/-! ## Batches that extend one another -/

/-- `Extends x y`: the batch `y` is `x` with records appended behind its
header.  The sequence number is `x`'s, and when nothing was appended, so are
the count and the content flags. -/
structure Extends (x y : WriteBatch) : Prop where
  header_left : kHeader ≤ x.rep.length
  header_right : kHeader ≤ y.rep.length
  sequence : y.rep.take 8 = x.rep.take 8
  records : ∃ suffix, y.rep.drop kHeader = x.rep.drop kHeader ++ suffix ∧
    (suffix = [] → y.count = x.count ∧ y.contentFlags = x.contentFlags)

namespace Extends

variable {x y z : WriteBatch}

theorem refl (h : kHeader ≤ x.rep.length) : Extends x x :=
  ⟨h, h, rfl, [], by simp, fun _ => ⟨rfl, rfl⟩⟩

theorem trans (hxy : Extends x y) (hyz : Extends y z) : Extends x z := by
  obtain ⟨s₁, hd₁, he₁⟩ := hxy.records
  obtain ⟨s₂, hd₂, he₂⟩ := hyz.records
  refine ⟨hxy.header_left, hyz.header_right, hyz.sequence.trans hxy.sequence, s₁ ++ s₂, ?_, ?_⟩
  · rw [hd₂, hd₁, List.append_assoc]
  · -- nothing appended in either step
    intro hnil
    obtain ⟨hc₁, hf₁⟩ := he₁ (List.append_eq_nil_iff.mp hnil).1
    obtain ⟨hc₂, hf₂⟩ := he₂ (List.append_eq_nil_iff.mp hnil).2
    exact ⟨hc₂.trans hc₁, hf₂.trans hf₁⟩

/-- `Extends` sees the bytes and the content flags only. -/
theorem of_content {y' : WriteBatch} (h : Extends x y) (hrep : y'.rep = y.rep)
    (hflags : y'.contentFlags = y.contentFlags) : Extends x y' := by
  obtain ⟨s, hd, he⟩ := h.records
  refine ⟨h.header_left, hrep ▸ h.header_right, hrep ▸ h.sequence, s, hrep ▸ hd, ?_⟩
  intro hnil
  obtain ⟨hc, hf⟩ := he hnil
  exact ⟨by rw [WriteBatch.count, hrep]; exact hc, hflags.trans hf⟩

/-- With nothing appended, the batches have the same bytes and flags. -/
theorem eq_of_length (h : Extends x y) (hlen : y.rep.length = x.rep.length) :
    y.rep = x.rep ∧ y.contentFlags = x.contentFlags := by
  obtain ⟨s, hd, he⟩ := h.records
  have hnil : s = [] := by
    have := congrArg List.length hd
    simp only [List.length_drop, List.length_append, hlen] at this
    exact List.eq_nil_of_length_eq_zero (by omega)
  obtain ⟨hc, hf⟩ := he hnil
  refine ⟨?_, hf⟩
  rw [WriteBatch.rep_eq_header h.header_right, WriteBatch.rep_eq_header h.header_left, h.sequence,
    hc, hd, hnil, List.append_nil]

/-- Cutting `y` back to the length of `x` and writing `x`'s count gives back
`x`'s bytes: the bytes past the header that `x` had are still there. -/
theorem restore (h : Extends x y) :
    (({ y with rep := y.rep.take x.rep.length } : WriteBatch).setCount x.count).rep = x.rep := by
  obtain ⟨s, hd, -⟩ := h.records
  have hseq : (x.rep.take 8).length = 8 := by
    have := h.header_left
    simp only [List.length_take, kHeader] at this ⊢
    omega
  have htake : y.rep.take x.rep.length =
      x.rep.take 8 ++ encodeFixed32 y.count ++ x.rep.drop kHeader := by
    have hlen : (x.rep.take 8 ++ encodeFixed32 y.count ++ x.rep.drop kHeader).length =
        x.rep.length := by
      have := h.header_left
      simp only [List.length_append, hseq, length_encodeFixed32, List.length_drop, kHeader] at this ⊢
      omega
    rw [WriteBatch.rep_eq_header h.header_right, h.sequence, hd, ← List.append_assoc, ← hlen,
      List.take_left]
  rw [WriteBatch.rep_setCount hseq htake x.count, ← WriteBatch.rep_eq_header h.header_left]

end Extends

/-- Every write extends the batch: a failed one leaves it as it was, and one
that succeeds appends its record. -/
theorem WriteBatchOp.extends_apply (op : WriteBatchOp) {b : WriteBatch} (hb : kHeader ≤ b.rep.length) :
    Extends b (op.apply b).2 := by
  cases hok : (op.apply b).1.ok
  · rw [op.apply_of_not_ok hb hok]
    exact Extends.refl hb
  · have hseq : (b.rep.take 8).length = 8 := by
      simp only [List.length_take, kHeader] at hb ⊢
      omega
    obtain ⟨-, hrep, -⟩ := WriteBatchOp.apply_rep hseq (WriteBatch.rep_eq_header hb) hok
    have hlen : (b.rep.take 8 ++ encodeFixed32 (if op.IsCounted then b.count + 1 else b.count)).length
        = kHeader := by
      simp [hseq, kHeader]
    refine ⟨hb, ?_, ?_, op.record, ?_, fun hnil => absurd hnil op.record_ne_nil⟩
    · rw [hrep, List.length_append, hlen]
      omega
    · rw [hrep, List.append_assoc, List.take_left' hseq]
    · rw [hrep, ← hlen, List.drop_left]

/-! ## Rolling back -/

namespace WriteBatch

variable {b : WriteBatch}

/-- `RollbackToSavePoint` to the save point of a batch `g` that `b` extends
gives back `g`'s bytes and flags, and pops the save point. -/
theorem rollbackToSavePoint_of_extends {g : WriteBatch} (h : Extends g b) {rest : List SavePoint}
    (hsp : b.savePoints = g.localSavePoint :: rest) :
    ∃ b', b.rollbackToSavePoint = (Status.OK, b') ∧ b'.rep = g.rep ∧
      b'.contentFlags = g.contentFlags ∧ b'.savePoints = rest := by
  have hsize : g.rep.length ≠ 0 := by
    have := h.header_left
    simp only [kHeader] at this
    omega
  simp only [rollbackToSavePoint, hsp, localSavePoint]
  split_ifs with hlen
  · -- nothing was appended since: the batch is `g`'s already
    obtain ⟨hrep, hflags⟩ := h.eq_of_length hlen.symm
    exact ⟨_, rfl, hrep, hflags, rfl⟩
  · exact ⟨_, rfl, h.restore, rfl, rfl⟩

theorem rollbackToSavePoint_of_nil (hsp : b.savePoints = []) :
    b.rollbackToSavePoint = (Status.NotFound, b) := by
  simp [rollbackToSavePoint, hsp]

/-- A batch with its header, and save points at or past it. -/
structure WellFormed (b : WriteBatch) : Prop where
  header : kHeader ≤ b.rep.length
  savePoints : ∀ sp ∈ b.savePoints, kHeader ≤ sp.size

theorem WellFormed.of_savePoints_sub {b' : WriteBatch} (hb : b.WellFormed)
    (hlen : kHeader ≤ b'.rep.length) (hsp : ∀ sp ∈ b'.savePoints, sp ∈ b.savePoints) :
    b'.WellFormed :=
  ⟨hlen, fun sp h => hb.savePoints sp (hsp sp h)⟩

/-- Rolling back a well-formed batch keeps it well formed: the bytes are cut at
a save point past the header, or not at all. -/
theorem WellFormed.rollbackToSavePoint (hb : b.WellFormed) : b.rollbackToSavePoint.2.WellFormed := by
  unfold WriteBatch.rollbackToSavePoint
  split
  · exact hb
  · rename_i sp rest hsp
    have hsize := hb.savePoints sp (by simp [hsp])
    have hrest : ∀ s ∈ rest, s ∈ b.savePoints := fun s h => by simp [hsp, h]
    have hzero : sp.size ≠ 0 := by
      simp only [kHeader] at hsize
      omega
    dsimp only
    by_cases hlen : sp.size = b.rep.length
    · rw [if_pos hlen]
      exact hb.of_savePoints_sub hb.header hrest
    · rw [if_neg hlen, if_neg hzero]
      refine hb.of_savePoints_sub ?_ hrest
      have hcut : kHeader ≤ (b.rep.take sp.size).length := by
        simp only [List.length_take]
        exact le_min hsize hb.header
      exact (length_setCount (b := { b with rep := b.rep.take sp.size }) hcut sp.count).symm ▸ hcut

theorem WellFormed.popSavePoint (hb : b.WellFormed) : b.popSavePoint.2.WellFormed := by
  unfold WriteBatch.popSavePoint
  split
  · exact hb
  · rename_i sp rest hsp
    exact hb.of_savePoints_sub hb.header fun s h => by simp [hsp, h]

end WriteBatch

/-! ## Runs with save points -/

/-- The operations of a run over one batch: the writers, and the save points. -/
inductive BatchOp where
  | write (op : WriteBatchOp)
  | setSavePoint
  | rollbackToSavePoint
  | popSavePoint
  deriving DecidableEq, Repr

namespace BatchOp

/-- The API call. -/
def apply : BatchOp → WriteBatch → Status × WriteBatch
  | write op, b => op.apply b
  | setSavePoint, b => (Status.OK, b.setSavePoint)
  | rollbackToSavePoint, b => b.rollbackToSavePoint
  | popSavePoint, b => b.popSavePoint

/-- The batches the save points of the run were set on, most recent first:
`SetSavePoint` pushes the batch it is called on, `RollbackToSavePoint` and
`PopSavePoint` pop the most recent one. -/
def ghost : BatchOp → WriteBatch → List WriteBatch → List WriteBatch
  | write _, _, gs => gs
  | setSavePoint, b, gs => b :: gs
  | rollbackToSavePoint, _, gs => gs.tail
  | popSavePoint, _, gs => gs.tail

/-- A run: each operation on the batch the one before left, whatever its
status, with the batches of the save points set in the run. -/
def run : List BatchOp → WriteBatch × List WriteBatch → WriteBatch × List WriteBatch
  | [], s => s
  | op :: ops, (b, gs) => run ops ((op.apply b).2, op.ghost b gs)

theorem wellFormed_apply (op : BatchOp) {b : WriteBatch} (hb : b.WellFormed) :
    (op.apply b).2.WellFormed := by
  cases op with
  | write op =>
      refine hb.of_savePoints_sub (op.extends_apply hb.header).header_right fun sp h => ?_
      rwa [apply, op.apply_savePoints] at h
  | setSavePoint =>
      refine ⟨hb.header, fun sp h => ?_⟩
      simp only [apply, WriteBatch.setSavePoint, List.mem_cons] at h
      rcases h with rfl | h
      · exact hb.header
      · exact hb.savePoints sp h
  | rollbackToSavePoint => exact hb.rollbackToSavePoint
  | popSavePoint => exact hb.popSavePoint

end BatchOp

/-- `Tracks b ghosts`: the most recent save points of `b` are those of the
batches in `ghosts`; `b` extends each of them, and each extends the ones set
before it. -/
structure Tracks (b : WriteBatch) (ghosts : List WriteBatch) : Prop where
  savePoints : ∃ base, b.savePoints = ghosts.map WriteBatch.localSavePoint ++ base
  current : ∀ g ∈ ghosts, Extends g b
  nested : ghosts.Pairwise fun inner outer => Extends outer inner

namespace Tracks

variable {b : WriteBatch} {gs : List WriteBatch}

theorem nil (b : WriteBatch) : Tracks b [] :=
  ⟨⟨b.savePoints, rfl⟩, by simp, List.Pairwise.nil⟩

/-- **One step.**  Writes extend every tracked batch, `SetSavePoint` tracks
the current one, and a rollback or a pop forgets the most recent one; a
rollback also returns to its bytes and flags, which the older tracked batches
extend. -/
theorem step (op : BatchOp) (hb : b.WellFormed) (ht : Tracks b gs) :
    Tracks (op.apply b).2 (op.ghost b gs) := by
  obtain ⟨base, hsp⟩ := ht.savePoints
  cases op with
  | write op =>
      have hext := op.extends_apply hb.header
      refine ⟨⟨base, ?_⟩, fun g hg => (ht.current g hg).trans hext, ht.nested⟩
      rw [BatchOp.apply, op.apply_savePoints, hsp]
      rfl
  | setSavePoint =>
      refine ⟨⟨base, by simp [BatchOp.apply, BatchOp.ghost, WriteBatch.setSavePoint, hsp]⟩, ?_, ?_⟩
      · intro g hg
        simp only [BatchOp.ghost, List.mem_cons] at hg
        rcases hg with rfl | hg
        · exact (Extends.refl hb.header).of_content rfl rfl
        · exact (ht.current g hg).of_content rfl rfl
      · exact List.Pairwise.cons (fun g hg => ht.current g hg) ht.nested
  | rollbackToSavePoint =>
      cases gs with
      | nil =>
          -- a save point from before the run, or none: nothing is tracked
          exact Tracks.nil _
      | cons g gs =>
          obtain ⟨b', hroll, hrep, hflags, hsp'⟩ :=
            WriteBatch.rollbackToSavePoint_of_extends (ht.current g (by simp)) hsp
          have hnested := List.pairwise_cons.mp ht.nested
          refine ⟨⟨base, ?_⟩, fun g' hg' => ?_, hnested.2⟩
          · simp [BatchOp.apply, BatchOp.ghost, hroll, hsp']
          · simp only [BatchOp.apply, BatchOp.ghost, hroll, List.tail_cons] at hg' ⊢
            exact (hnested.1 g' hg').of_content hrep hflags
  | popSavePoint =>
      cases gs with
      | nil => exact Tracks.nil _
      | cons g gs =>
          have hnested := List.pairwise_cons.mp ht.nested
          refine ⟨⟨base, ?_⟩, fun g' hg' => ?_, hnested.2⟩
          · simp [BatchOp.apply, BatchOp.ghost, WriteBatch.popSavePoint, hsp]
          · simp only [BatchOp.apply, BatchOp.ghost, WriteBatch.popSavePoint, hsp, List.map_cons,
              List.cons_append, List.tail_cons] at hg' ⊢
            exact (ht.current g' (by simp [hg'])).of_content rfl rfl

end Tracks

/-- **A whole run.**  From a well-formed batch, every state of a run is well
formed and tracks the batches of the save points set in it. -/
theorem BatchOp.run_tracks (ops : List BatchOp) {b : WriteBatch} {gs : List WriteBatch}
    (hb : b.WellFormed) (ht : Tracks b gs) :
    (BatchOp.run ops (b, gs)).1.WellFormed ∧ Tracks (BatchOp.run ops (b, gs)).1 (BatchOp.run ops (b, gs)).2 := by
  induction ops generalizing b gs with
  | nil => exact ⟨hb, ht⟩
  | cons op ops ih => exact ih (op.wellFormed_apply hb) (ht.step op hb)

/-- Failed writes and save points leave the batch intact: a write that fails
changes nothing; along any run of writes and save points from a well-formed
batch, a `RollbackToSavePoint` whose save point was set in the run succeeds and
gives back the bytes, the count and every `Has*` answer of the batch that save
point was set on; and with no save point it returns `NotFound` and changes
nothing. -/
theorem rollbackToSavePoint_restores :
    (∀ (op : WriteBatchOp) (b : WriteBatch), kHeader ≤ b.rep.length →
      (op.apply b).1.ok = false → (op.apply b).2 = b) ∧
    (∀ (ops : List BatchOp) (b c g : WriteBatch) (gs : List WriteBatch), b.WellFormed →
      BatchOp.run ops (b, []) = (c, g :: gs) →
      c.rollbackToSavePoint.1 = Status.OK ∧ c.rollbackToSavePoint.2.rep = g.rep ∧
        c.rollbackToSavePoint.2.count = g.count ∧
        ∀ flag, c.rollbackToSavePoint.2.hasContentFlag flag = g.hasContentFlag flag) ∧
    (∀ b : WriteBatch, b.savePoints = [] → b.rollbackToSavePoint = (Status.NotFound, b)) := by
  refine ⟨?_, ?_, ?_⟩
  · intro op b hb hfail
    exact op.apply_of_not_ok hb hfail
  · intro ops b c g gs hb hrun
    have ht := (BatchOp.run_tracks ops hb (Tracks.nil b)).2
    rw [hrun] at ht
    obtain ⟨base, hsp⟩ := ht.savePoints
    obtain ⟨b', hroll, hrep, hflags, -⟩ :=
      WriteBatch.rollbackToSavePoint_of_extends (ht.current g (by simp)) hsp
    rw [hroll]
    refine ⟨rfl, hrep, by rw [WriteBatch.count, hrep]; rfl, fun flag => ?_⟩
    exact WriteBatch.hasContentFlag_congr hrep hflags flag
  · intro b hsp
    exact WriteBatch.rollbackToSavePoint_of_nil hsp

/-- A `Put`, a save point and a `Merge` on the empty batch: the rollback gives
back the batch with just the `Put`. -/
theorem rollbackToSavePoint_restores_put :
    (BatchOp.run [.write (.put 0 [1] [2]), .setSavePoint, .write (.merge 0 [1] [3])]
        (WriteBatch.empty 0, [])).1.rollbackToSavePoint.1 = Status.OK ∧
      (BatchOp.run [.write (.put 0 [1] [2]), .setSavePoint, .write (.merge 0 [1] [3])]
        (WriteBatch.empty 0, [])).1.rollbackToSavePoint.2.rep =
          ((WriteBatchOp.put 0 [1] [2]).apply (WriteBatch.empty 0)).2.rep ∧
      (BatchOp.run [.write (.put 0 [1] [2]), .setSavePoint, .write (.merge 0 [1] [3])]
        (WriteBatch.empty 0, [])).1.rollbackToSavePoint.2.count =
          ((WriteBatchOp.put 0 [1] [2]).apply (WriteBatch.empty 0)).2.count ∧
      ∀ flag, (BatchOp.run [.write (.put 0 [1] [2]), .setSavePoint, .write (.merge 0 [1] [3])]
        (WriteBatch.empty 0, [])).1.rollbackToSavePoint.2.hasContentFlag flag =
          ((WriteBatchOp.put 0 [1] [2]).apply (WriteBatch.empty 0)).2.hasContentFlag flag :=
  rollbackToSavePoint_restores.2.1 _ (WriteBatch.empty 0) _ _ [] ⟨by decide, by simp [WriteBatch.empty]⟩
    rfl

end HapDB