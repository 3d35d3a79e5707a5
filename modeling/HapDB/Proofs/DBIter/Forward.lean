import HapDB.Proofs.DBIter.Steps
import HapDB.Proofs.RangeDel.Fragments
import HapDB.Proofs.Comparator.Shortening

/-!
# The user's iterator going forward is a cursor over the user's view

The loop of `FindNextUserEntryInternal` runs on the fuel `2 * n + 2` over `n`
entries.  Each round keeps the view ahead and lowers the measure of the walk
(`round_advance`), and the measure starts below the fuel, so the loop answers
with the head of the view ahead before the fuel runs out
(`findNextLoop_answers`).

`Seek` lands at the first entry of the target at the snapshot, or of the lower
bound when the target is below it, and the view from there on is the part of
the view between the bounds that is not below the target
(`boundedView_drop_seek`).  `SeekToFirst` lands at the first entry, and `Next`
past the versions of the key shown.  So each call answers with the entries a
cursor over the view between the bounds has from its position on
(`apply_answers`), and every run that calls `Next` only on a valid iterator
shows what the cursor shows after the same calls
(`forward_iterates_as_view_cursor`).

The last section reads an iterator whose range deletion aggregator holds the
two tombstones of `invertedTombstones`: it hides a key that neither covers.
-/

namespace HapDB

namespace DBIter

/-- The cursor operation a forward call is. -/
def ForwardOp.toIterOp : ForwardOp → IterOp Bytes
  | .SeekToFirst => .seekToFirst
  | .Seek target => .seek target
  | .Next => .next

/-- The iterator shows the entry at the cursor's position: the key and value
of a value; invalid, with the status of the merge, at a failed merge; and
invalid with an `OK` status past the end. -/
def Shows (it : DBIter) (c : Cursor Bytes (Except Status Bytes)) : Prop :=
  match c.entries[c.pos]? with
  | none => it.valid = false ∧ it.status = Status.OK
  | some (k, .ok v) => it.valid = true ∧ it.key = k ∧ it.value = v ∧ it.status = Status.OK
  | some (_, .error s) => it.valid = false ∧ it.status = s

end DBIter

open DBIter UserView

namespace ForwardRead

variable (R : ForwardRead)

/-- The user's view between the bounds. -/
def boundedView : List (Bytes × Except Status Bytes) := fromBound R.ucmp R.lowerBound (R.view R.es)

/-- A new user iterator over the read, its internal iterator at any position. -/
def newIterator (pos : ℕ) : DBIter :=
  DBIter.new R.ucmp (some R.op) ⟨encode R.es, pos⟩ R.sequence R.sep R.maxSkip none
    { iterateLowerBound := R.lowerBound, iterateUpperBound := R.upperBound }

/-- The user key `Seek(target)` looks up: the lower bound when the target is
below it. -/
def seekTarget (target : Bytes) : Bytes :=
  match R.lowerBound with
  | some lowerBound => if R.ucmp target lowerBound = .lt then lowerBound else target
  | none => target

/-! ## The loop of `FindNextUserEntryInternal` -/

section Loop

variable {R}

theorem exists_drop_eq_cons {p : ℕ} (hp : p < R.es.length) :
    ∃ e rest, R.es.drop p = e :: rest :=
  List.exists_cons_of_ne_nil (by simp [List.drop_eq_nil_iff]; omega)

/-- Once the internal iterator has run out, the iterator made invalid answers
with nothing. -/
theorem answers_invalid {it : DBIter} (hit : it.setting = R.setting) (hstatus : it.status = Status.OK)
    (hvalid : ¬it.iter.valid = true) (skipping : Bool) (u : Bytes) :
    R.Answers { it with valid := false } (R.view (R.pending it.iter.pos skipping u)) := by
  have hend : R.es.length ≤ it.iter.pos := Nat.not_lt.mp fun h => hvalid ((iter_valid_iff hit).mpr h)
  rw [view_pending_of_le hend]
  exact ⟨hit, rfl, hstatus⟩

variable [Std.TransCmp R.ucmp] [Std.LawfulEqCmp R.ucmp] (hR : R.WF)
include hR

/-- The loop answers with the view ahead of a walk whose measure is below the
fuel. -/
theorem findNextLoop_answers (fuel : ℕ) :
    ∀ (it : DBIter) (skipping : Bool) (n : UInt64) (r : Bool), R.Walk it skipping →
      it.iter.pos < R.es.length → R.walkMeasure it.iter.pos r < fuel →
      R.Answers (findNextLoop fuel it skipping n r).2 (R.ahead it skipping) := by
  induction fuel with
  | zero =>
      intro it skipping n r _ _ hfuel
      exact absurd hfuel (Nat.not_lt_zero _)
  | succ fuel ih =>
      intro it skipping n r hw hp hfuel
      obtain ⟨e, rest, he⟩ := exists_drop_eq_cons hp
      have hround := round_advance hR hw he n r
      rw [findNextLoop, ParseKey_eq hw.setting_eq hR he]
      dsimp only
      generalize it.round e.1 skipping n r = outcome at hround ⊢
      cases outcome with
      | ret ok it' => exact hround
      | skip it' skipping' n' r' =>
          -- the round goes on: the step or the reseek of `advance` comes next
          obtain ⟨hw', hahead, hlt⟩ := hround
          dsimp only
          generalize it'.advance skipping' n' r' = a at hw' hahead hlt ⊢
          obtain ⟨it₂, n₂, r₂⟩ := a
          dsimp only at hw' hahead hlt ⊢
          rw [← hahead]
          split
          next hvalid =>
              exact ih it₂ skipping' n₂ r₂ hw' ((iter_valid_iff hw'.setting_eq).mp hvalid) (by omega)
          next hvalid =>
              -- the entries ran out
              exact answers_invalid hw'.setting_eq hw'.status_eq hvalid _ _

/-- `FindNextUserEntry` answers with the view ahead: its fuel is above the
measure of the walk it starts. -/
theorem FindNextUserEntry_answers {it : DBIter} {skipping : Bool} {V : List (Bytes × Except Status Bytes)}
    (hit : it.setting = R.setting) (hstatus : it.status = Status.OK) (hp : it.iter.pos < R.es.length)
    (habove : skipping = true →
      ∀ x ∈ R.es.drop it.iter.pos, (R.ucmp it.savedKey.GetUserKey x.1.userKey).isLE)
    (hV : R.ahead it skipping = V) :
    R.Answers (it.FindNextUserEntry skipping).2 V := by
  have hw : R.Walk { it with currentEntryIsMerged := false } skipping := ⟨hit, hstatus, rfl, habove⟩
  have hfuel : R.walkMeasure it.iter.pos false < 2 * it.iter.entries.length + 2 := by
    simp only [walkMeasure, setting_entries hit, encode, List.length_map, Bool.false_eq_true, if_false]
    omega
  rw [← hV]
  exact findNextLoop_answers hR _ _ skipping 0 false hw hp hfuel

end Loop

/-! ## The positioning calls -/

section Calls

variable {R} [Std.TransCmp R.ucmp] [Std.LawfulEqCmp R.ucmp]

omit [Std.LawfulEqCmp R.ucmp] in
/-- A key is below the key `Seek` looks up when it is below the target or
below the lower bound. -/
theorem lt_seekTarget_iff (k t : Bytes) :
    (R.ucmp k (R.seekTarget t) == .lt) =
      ((R.ucmp k t == .lt) || R.lowerBound.any fun b => R.ucmp k b == .lt) := by
  unfold seekTarget
  cases R.lowerBound with
  | none => simp
  | some lb =>
      by_cases h : R.ucmp t lb = .lt
      · -- the target is below the bound, and so is what is below the target
        by_cases hkt : R.ucmp k t = .lt
        · simp [h, hkt, Std.TransCmp.lt_trans hkt h]
        · simp [h, hkt]
      · -- the bound is not above the target, and neither is what is below the bound
        have hle : (R.ucmp lb t).isLE := by
          rw [Ordering.isLE_iff_ne_gt, Std.OrientedCmp.gt_iff_lt]
          exact h
        by_cases hkl : R.ucmp k lb = .lt
        · simp [h, hkl, Std.TransCmp.lt_of_lt_of_isLE hkl hle]
        · simp [h, hkl]

omit [Std.TransCmp R.ucmp] [Std.LawfulEqCmp R.ucmp] in
/-- What `Next` hands to `FindNextUserEntry`: the state reset, its internal
iterator where `Next` resumes. -/
theorem Next_eq {it : DBIter} (hit : it.setting = R.setting) (hstatus : it.status = Status.OK)
    (hpos : it.currentEntryIsMerged = false → it.iter.pos < R.es.length) :
    ∃ it₂ : DBIter,
      it.Next = (if it₂.iter.valid then (it₂.FindNextUserEntry true).2 else { it₂ with valid := false }) ∧
        it₂.setting = R.setting ∧ it₂.status = Status.OK ∧ it₂.savedKey = it.savedKey ∧
        it₂.iter.pos = it.resume := by
  cases hm : it.currentEntryIsMerged with
  | false =>
      -- the position moves past the entry shown
      have hvalid : it.iter.valid = true := (iter_valid_iff hit).mpr (hpos hm)
      refine ⟨{ it.ResetValueAndCounter with iter := it.iter.next }, ?_, hit, hstatus, rfl, ?_⟩
      · simp [DBIter.Next, ResetValueAndCounter, hvalid, hm]
      · simp [resume_of_not_merged hm, Cursor.next]
  | true =>
      -- the merge has already moved it past the key's versions
      refine ⟨it.ResetValueAndCounter, ?_, hit, hstatus, rfl, ?_⟩
      · simp [DBIter.Next, ResetValueAndCounter, hm]
      · simp [resume_of_merged hm, ResetValueAndCounter]

variable (hR : R.WF)
include hR

theorem pairwise_view_es : (R.view R.es).Pairwise fun a b => R.ucmp a.1 b.1 = .lt :=
  (pairwise_scan hR.sorted).sublist (List.takeWhile_sublist _)

theorem pairwise_boundedView : R.boundedView.Pairwise fun a b => R.ucmp a.1 b.1 = .lt :=
  (pairwise_view_es hR).sublist (List.dropWhile_sublist _)

/-- The view from where `Seek(t)` lands is the view between the bounds past the
keys below `t`: where a cursor over it seeks to. -/
theorem boundedView_drop_seek (t : Bytes) :
    R.boundedView.drop (R.boundedView.countP fun e => R.ucmp e.1 t == .lt) =
      R.view (R.es.drop (R.es.countP fun e =>
        parsedInternalKeyCompare R.ucmp e.1 ⟨R.seekTarget t, R.sequence, kValueTypeForSeek⟩ == .lt)) := by
  have htypes : ∀ e ∈ R.es, e.1.type.IsExtendedValueType = true := fun e he => by
    simp [ValueType.IsExtendedValueType, hR.isValueType e he]
  have hlower := pairwise_cut (pairwise_view_es hR) (isCut_any_lt R.lowerBound)
  have hscan : (scan R.ucmp R.op R.sequence R.sep R.es).Pairwise fun a b => R.ucmp a.1 b.1 = .lt :=
    pairwise_scan hR.sorted
  have hupper := pairwise_cut hscan (isCut_all_lt R.upperBound)
  calc R.boundedView.drop (R.boundedView.countP fun e => R.ucmp e.1 t == .lt)
      = R.boundedView.dropWhile (fun e => R.ucmp e.1 t == .lt) :=
        drop_countP_eq_dropWhile (pairwise_cut (pairwise_boundedView hR) (isCut_lt t))
    _ = (R.view R.es).dropWhile fun e =>
          (R.ucmp e.1 t == .lt) || R.lowerBound.any fun b => R.ucmp e.1 b == .lt := by
        rw [boundedView, fromBound, dropWhile_dropWhile hlower]
    _ = (R.view R.es).dropWhile fun e => R.ucmp e.1 (R.seekTarget t) == .lt :=
        dropWhile_congr fun x _ => (lt_seekTarget_iff x.1 t).symm
    _ = R.view (R.es.drop (R.es.countP fun e =>
          parsedInternalKeyCompare R.ucmp e.1 ⟨R.seekTarget t, R.sequence, kValueTypeForSeek⟩ == .lt)) := by
        -- the seek passes the entries below the target at the snapshot, whose keys the view drops
        unfold view belowBound
        rw [scan_drop_seek hR.sorted htypes, ← dropWhile_takeWhile hupper]

omit [Std.TransCmp R.ucmp] [Std.LawfulEqCmp R.ucmp] hR in
/-- What `Seek` hands to `FindNextUserEntry`: a state of the read with an `OK`
status, its internal iterator sought to the key of the target at the
snapshot. -/
theorem Seek_eq {it : DBIter} (hit : it.setting = R.setting) (t : Bytes) :
    ∃ it₂ : DBIter,
      it.Seek t = (if it₂.iter.valid then (it₂.FindNextUserEntry false).2 else { it₂ with valid := false }) ∧
        it₂.setting = R.setting ∧ it₂.status = Status.OK ∧
        it₂.iter = it.iter.seek (internalKeyCompare it.ucmp)
          ⟨appendInternalKey [] ⟨R.seekTarget t, R.sequence, kValueTypeForSeek⟩⟩ := by
  refine ⟨_, rfl, hit, rfl, ?_⟩
  refine congrArg (fun k => it.iter.seek (internalKeyCompare it.ucmp) ⟨k⟩) ?_
  simp only [ResetValueAndCounter, MaxVisibleSequenceNumber, setting_readCallback hit, setting_sequence hit,
    setting_lowerBound hit, setting_ucmp hit, seekTarget, GetUserKey_SetInternalKey]
  cases R.lowerBound with
  | none => rfl
  | some lb => by_cases h : R.ucmp t lb = .lt <;> simp [h, IterKey.SetInternalKey]

/-- `Seek(t)` answers with the view between the bounds past the keys below `t`. -/
theorem Seek_answers {it : DBIter} (hit : it.setting = R.setting) (t : Bytes) :
    R.Answers (it.Seek t) (R.boundedView.drop (R.boundedView.countP fun e => R.ucmp e.1 t == .lt)) := by
  obtain ⟨it₂, heq, hit₂, hstatus₂, hiter₂⟩ := Seek_eq hit t
  have hpos : it₂.iter.pos = R.es.countP fun e =>
      parsedInternalKeyCompare R.ucmp e.1 ⟨R.seekTarget t, R.sequence, kValueTypeForSeek⟩ == .lt := by
    rw [hiter₂]
    exact seek_pos hit hR (hR.snapshot_le)
  rw [boundedView_drop_seek hR, heq, ← hpos]
  split
  next hvalid =>
    exact FindNextUserEntry_answers hR hit₂ hstatus₂ ((iter_valid_iff hit₂).mp hvalid)
      (fun h => absurd h (by decide)) rfl
  next hvalid =>
    -- nothing is at or past the key sought
    exact answers_invalid hit₂ hstatus₂ hvalid false []

/-- `SeekToFirst` answers with the whole view between the bounds. -/
theorem SeekToFirst_answers {it : DBIter} (hit : it.setting = R.setting) :
    R.Answers it.SeekToFirst R.boundedView := by
  cases hlb : R.lowerBound with
  | some lb =>
      -- a `Seek` to the lower bound, past which the view starts
      have hseek : it.SeekToFirst = it.Seek lb := by
        simp [DBIter.SeekToFirst, setting_lowerBound hit, hlb]
      have hfrom : R.boundedView.drop (R.boundedView.countP fun e => R.ucmp e.1 lb == .lt) = R.boundedView := by
        have hlower := pairwise_cut (pairwise_view_es hR) (isCut_any_lt R.lowerBound)
        rw [drop_countP_eq_dropWhile (pairwise_cut (pairwise_boundedView hR) (isCut_lt lb)), boundedView,
          fromBound, dropWhile_dropWhile hlower]
        exact dropWhile_congr fun x _ => by simp [hlb]
      rw [hseek, ← hfrom]
      exact Seek_answers hR hit lb
  | none =>
      -- to the first entry
      have h : ∃ it₂ : DBIter,
          it.SeekToFirst = (if it₂.iter.valid then
              ({ it₂ with savedKey := IterKey.SetUserKey it₂.iter.key.userKey }.FindNextUserEntry false).2
            else { it₂ with valid := false }) ∧
            it₂.setting = R.setting ∧ it₂.status = Status.OK ∧ it₂.iter.pos = 0 := by
        unfold DBIter.SeekToFirst
        split
        next lb heq => simp [setting_lowerBound hit, hlb] at heq
        next => exact ⟨_, rfl, hit, rfl, rfl⟩
      obtain ⟨it₂, heq, hit₂, hstatus₂, hpos₂⟩ := h
      have hview : R.boundedView = R.view (R.es.drop it₂.iter.pos) := by
        simp [boundedView, fromBound, hlb, hpos₂]
      rw [heq, hview]
      split
      next hvalid =>
        exact FindNextUserEntry_answers hR hit₂ hstatus₂ ((iter_valid_iff hit₂).mp hvalid)
          (fun h => absurd h (by decide)) rfl
      next hvalid =>
        -- there is no entry at all
        exact answers_invalid hit₂ hstatus₂ hvalid false []

/-- `Next` from a value shown goes on to the rest of the view. -/
theorem Next_answers {it : DBIter} {k v : Bytes} {rest : List (Bytes × Except Status Bytes)}
    (h : R.Answers it ((k, .ok v) :: rest)) : R.Answers it.Next rest := by
  obtain ⟨hit, -, -, -, hstatus, hready⟩ := h
  obtain ⟨it₂, heq, hit₂, hstatus₂, hkey₂, hpos₂⟩ := Next_eq hit hstatus hready.pos_lt
  have hu : it₂.savedKey.GetUserKey = k := by rw [hkey₂, hready.savedKey_eq, GetUserKey_SetUserKey]
  have hrest : R.ahead it₂ true = rest := by
    rw [ahead, hpos₂, hu]
    exact hready.rest_eq
  rw [heq]
  split
  next hvalid =>
    refine FindNextUserEntry_answers hR hit₂ hstatus₂ ((iter_valid_iff hit₂).mp hvalid) (fun _ => ?_) hrest
    rw [hpos₂, hu]
    exact hready.above
  next hvalid =>
    -- the entries ran out
    rw [← hrest]
    exact answers_invalid hit₂ hstatus₂ hvalid true _

end Calls

/-! ## Runs of calls -/

section Run

variable {R} [Std.TransCmp R.ucmp] [Std.LawfulEqCmp R.ucmp] (hR : R.WF)

omit [Std.TransCmp R.ucmp] [Std.LawfulEqCmp R.ucmp] in
/-- An iterator that answers with what a cursor has from its position on
shows the cursor's entry. -/
theorem Answers.shows {it : DBIter} {c : Cursor Bytes (Except Status Bytes)}
    (h : R.Answers it (c.entries.drop c.pos)) : it.Shows c := by
  unfold DBIter.Shows
  rw [← List.head?_drop]
  obtain ⟨-, h⟩ := h
  generalize c.entries.drop c.pos = V at h ⊢
  rcases V with _ | ⟨⟨k, s | v⟩, rest⟩
  · exact h
  · exact h
  · exact ⟨h.1, h.2.1, h.2.2.1, h.2.2.2.1⟩

include hR

/-- Each call keeps the iterator answering with what the cursor over the view
between the bounds has from its position on, after the same operation. -/
theorem apply_answers {it : DBIter} {c : Cursor Bytes (Except Status Bytes)} (hc : c.entries = R.boundedView)
    (h : R.Answers it (c.entries.drop c.pos)) (op : ForwardOp) (hlegal : op = .Next → it.valid = true) :
    R.Answers (it.apply op) ((c.apply R.ucmp op.toIterOp).entries.drop (c.apply R.ucmp op.toIterOp).pos) := by
  cases op with
  | SeekToFirst =>
      simpa [DBIter.apply, ForwardOp.toIterOp, Cursor.apply, Cursor.seekToFirst, hc] using
        SeekToFirst_answers hR h.1
  | Seek t =>
      simpa [DBIter.apply, ForwardOp.toIterOp, Cursor.apply, Cursor.seek, hc] using Seek_answers hR h.1 t
  | Next =>
      -- a valid iterator shows a value, and the cursor steps past it
      have hvalid := hlegal rfl
      obtain ⟨k, v, rest, hdrop⟩ : ∃ k v rest, c.entries.drop c.pos = (k, .ok v) :: rest := by
        obtain ⟨-, h⟩ := h
        generalize c.entries.drop c.pos = V at h ⊢
        rcases V with _ | ⟨⟨k, s | v⟩, rest⟩
        · simp [h.1] at hvalid
        · simp [h.1] at hvalid
        · exact ⟨k, v, rest, rfl⟩
      rw [hdrop] at h
      show R.Answers it.Next (c.entries.drop (c.pos + 1))
      rw [← List.drop_drop, hdrop]
      exact Next_answers hR h

/-- The run lemma: along calls that make `Next` only on a valid iterator. -/
theorem run_answers (ops : List ForwardOp) :
    ∀ (it : DBIter) (c : Cursor Bytes (Except Status Bytes)), c.entries = R.boundedView →
      R.Answers it (c.entries.drop c.pos) → it.Legal ops →
      R.Answers (it.run ops) ((c.run R.ucmp (ops.map ForwardOp.toIterOp)).entries.drop
        (c.run R.ucmp (ops.map ForwardOp.toIterOp)).pos) := by
  induction ops with
  | nil =>
      intro it c _ h _
      exact h
  | cons op ops ih =>
      intro it c hc h hlegal
      exact ih (it.apply op) (c.apply R.ucmp op.toIterOp) (by rw [Cursor.entries_apply, hc])
        (apply_answers hR hc h op hlegal.1) hlegal.2

end Run

end ForwardRead

/-! ## A tombstone whose start key is above its end key -/

/-- A user iterator at the newest snapshot over the put of `[9]` at `[2]`, at
the sequence number `1`, with the two tombstones of `invertedTombstones`,
`DeleteRange([3], [5])` at `7` and `DeleteRange([3], [1])` at `5`, added to
its range deletion aggregator. -/
def invertedTombstoneIter : DBIter :=
  let it := DBIter.new bytewiseCompare none ⟨encode [(⟨[2], 1, .kTypeValue⟩, [9])], 0⟩ kMaxSequenceNumber none 8
    none {}
  { it with rangeDelAgg := it.rangeDelAgg.AddTombstones invertedIter none none }

theorem inverted_tombstone_hides_key_from_iterator :
    (∀ t ∈ invertedTombstones, ¬ t.Covers bytewiseCompare ⟨[2], 1, .kTypeValue⟩) ∧
      invertedTombstoneIter.SeekToFirst.valid = false ∧
      invertedTombstoneIter.SeekToFirst.status = Status.OK ∧
      (let it := { invertedTombstoneIter with rangeDelAgg := ReadRangeDelAggregator.create kMaxSequenceNumber }
       it.SeekToFirst.valid = true ∧ it.SeekToFirst.key = [2] ∧ it.SeekToFirst.value = [9]) :=
  ⟨by decide, by decide +kernel, by decide +kernel, by decide +kernel⟩

end HapDB
