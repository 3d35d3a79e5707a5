import HapDB.Proofs.Get.MemTable

/-!
# `DBImpl::GetImpl` answers the versions of the key, newest first

A point lookup of the database is the reference fold of `GetOutcome` over the
versions of the key in the mutable memtable, the immutable memtables, newest
first, and then the files of the current version: each memtable's versions
are read under the covering tombstone sequence number the memtables before it
raised, and the files' under the one the memtables leave.

The proof puts together the memtables' part (`GetFromMemtables_spec`, from
`MemTableRead.Get_spec` and `GetFromList_spec`) and the version's (`Version.Get_spec`): a
memtable that ends the lookup returns the status of its answer, and otherwise
`Version::Get` starts from the operands the memtables left, under the status
that says whether there are any (`LookupState.Pending.outcome_eq`).
-/

namespace HapDB

open GetOutcome FilePicker Version

variable {op : GetMergeOperator} {key : Bytes}

/-- The status a memtable ends the lookup with is its answer's. -/
theorem statusOf_finish_endedOutcome (status : Status) (value : Option Bytes) :
    statusOf ((endedOutcome status value).finish op key) = status := by
  unfold endedOutcome
  split_ifs with hok hnf
  · simp [finish, statusOf, hok]
  · simp [finish, statusOf, hnf]
  · rfl

/-- A memtable that ends the lookup with a value leaves it in the buffer. -/
theorem value_of_finish_endedOutcome {status : Status} {value : Option Bytes} (hv : value.isSome = true)
    {w : Bytes} (h : (endedOutcome status value).finish op key = .ok w) : value = some w := by
  obtain ⟨u, rfl⟩ := Option.isSome_iff_exists.mp hv
  unfold endedOutcome at h
  split_ifs at h <;> simp_all [finish]

/-- The memtables' part of `GetImpl` moves the lookup by their versions. -/
theorem GetFromMemtables_spec (mem : MemTableRead) (imm : List MemTableRead) (userKey : Bytes)
    (callback : Option (UInt64 → Bool)) (skipMemtable : Bool)
    (hop : ∀ m ∈ mem :: imm, m.mem.mergeOperator = some op) {st : LookupState} (hst : st.Pending) :
    MemResult op userKey st
      (memVersions userKey callback (if skipMemtable then [] else mem :: imm) st.maxCoveringTombstoneSeq)
      (memCoveringSeq userKey (if skipMemtable then [] else mem :: imm) st.maxCoveringTombstoneSeq)
      (DBImpl.GetFromMemtables mem imm userKey callback skipMemtable st) := by
  unfold DBImpl.GetFromMemtables
  cases skipMemtable
  case true => exact MemResult.stop hst
  case false =>
    have hm : MemResult op userKey st _ _ _ := MemTableRead.Get_spec callback mem (hop mem List.mem_cons_self) hst
    simp only [Bool.false_eq_true, if_false, memVersions, memCoveringSeq]
    generalize mem.Get userKey callback st = r at hm ⊢
    obtain ⟨done, st', currentSeq⟩ := r
    dsimp only at hm ⊢
    cases done
    · -- the mutable memtable passes the lookup on to the immutable ones
      obtain ⟨hst', hseq⟩ : st'.Pending ∧
          st'.maxCoveringTombstoneSeq = mem.seqAfter userKey st.maxCoveringTombstoneSeq := hm.pending rfl
      have hgo : (st'.status.ok || st'.status.IsMergeInProgress) = true := by
        rcases hst'.status with ⟨hs, -⟩ | hs <;>
          simp [hs, Status.ok, Status.OK, Status.IsMergeInProgress, Status.MergeInProgress]
      simp only [hgo, if_true, MemTableListGet]
      refine hm.trans rfl ?_
      rw [← hseq]
      exact GetFromList_spec callback imm (fun m hm' => hop m (List.mem_cons_of_mem _ hm')) _ hst'
    · exact hm.append_of_ended rfl _ _

variable (mem : MemTableRead) (imm : List MemTableRead) (inp : PickerInput)
  (tableEntries : ℕ × ℕ → List (ParsedInternalKey × Bytes)) (op : GetMergeOperator)
  (transToCombined : Bytes → UInt64 → Bytes → Bytes)

/-- `DBImpl::GetImpl` answers the fold of the versions of the key in the
memtables, newest first, and then in the files the version's picker gives:
the status is the answer's, and a value answered is in `*lazy_val`. -/
theorem db_get_answers_versions (skipMemtable : Bool) (callback : Option (UInt64 → Bool)) (value : Bytes)
    (hop : ∀ m ∈ mem :: imm, m.mem.mergeOperator = some op)
    (htypes : ∀ f, ∀ e ∈ tableEntries f, e.1.type.IsExtendedValueType = true) :
    let mems := if skipMemtable then [] else mem :: imm
    let view : ReadView :=
      ⟨inp.ucmp, inp.userKey, callback, some (memCoveringSeq inp.userKey mems 0), some transToCombined⟩
    let files := pickAll inp ((inp.levels.map List.length).sum + 1) (make inp)
    let answer := ((memVersions inp.userKey callback mems 0 ++ fileVersions tableEntries view files).foldl
      (step op inp.userKey) .notFound).finish op inp.userKey
    let r := DBImpl.GetImpl mem imm inp (tableRead tableEntries) (some op) transToCombined skipMemtable
      callback (some value)
    r.1 = statusOf answer ∧ ∀ v, answer = .ok v → r.2 = some v := by
  intro mems view files answer r
  have hst₀ : LookupState.Pending ⟨Status.OK, some value, [], 0⟩ := ⟨rfl, Or.inl ⟨rfl, rfl⟩⟩
  have hmem := GetFromMemtables_spec mem imm inp.userKey callback skipMemtable hop hst₀
  have hanswer : answer = ((fileVersions tableEntries view files).foldl (step op inp.userKey)
      ((memVersions inp.userKey callback mems 0).foldl (step op inp.userKey)
        (LookupState.outcome false ⟨Status.OK, some value, [], 0⟩))).finish op inp.userKey := by
    simp only [answer, List.foldl_append]
    rfl
  simp only [r, DBImpl.GetImpl]
  generalize DBImpl.GetFromMemtables mem imm inp.userKey callback skipMemtable ⟨Status.OK, some value, [], 0⟩ = res
    at hmem ⊢
  obtain ⟨done, st⟩ := res
  rw [← hmem.outcome] at hanswer
  cases done
  · -- no memtable ended the lookup: `Version::Get` starts from what they left
    obtain ⟨hst, hseq⟩ : st.Pending ∧ st.maxCoveringTombstoneSeq = memCoveringSeq inp.userKey mems 0 :=
      hmem.pending rfl
    obtain ⟨v, hv⟩ := Option.isSome_iff_exists.mp hst.value
    have hgo : (!skipMemtable && !st.status.ok && !st.status.IsMergeInProgress) = false := by
      rcases hst.status with ⟨hs, -⟩ | hs <;>
        simp [hs, Status.ok, Status.OK, Status.IsMergeInProgress, Status.MergeInProgress]
    have hstart : st.status.ok = true → st.mergeContext = [] := by
      rcases hst.status with ⟨hs, hnil⟩ | hs
      · exact fun _ => hnil
      · simp [hs, Status.ok, Status.MergeInProgress]
    have hversion := Version.Get_spec inp tableEntries op transToCombined v st.status st.mergeContext
      (some st.maxCoveringTombstoneSeq) (some false) (some (0 - 1)) callback htypes hstart
    dsimp only at hversion hanswer
    have hview : view =
        ⟨inp.ucmp, inp.userKey, callback, some st.maxCoveringTombstoneSeq, some transToCombined⟩ := by
      rw [hseq]
    rw [hst.outcome_eq, hview] at hanswer
    simp only [hgo, Bool.false_eq_true, if_false, hv]
    rw [hanswer]
    exact hversion
  · -- a memtable ended the lookup with its answer
    obtain ⟨hd, hv⟩ := hmem.ended rfl
    dsimp only at hanswer hd ⊢
    rw [foldl_step_of_isDecided hd] at hanswer
    refine ⟨?_, fun w hw => ?_⟩
    · rw [hanswer]
      exact (statusOf_finish_endedOutcome _ _).symm
    · rw [hanswer] at hw
      exact value_of_finish_endedOutcome hv hw

/-- A mutable memtable over `FilePicker.straddle` that holds one merge operand
of `c`, newer than the files'. -/
def straddleMem : MemTableRead :=
  ⟨⟨bytewiseCompare, some concatGetOperator, 12⟩, none, [(⟨[99], 12, .kTypeMerge⟩, [7])]⟩

set_option maxRecDepth 100000 in
/-- A lookup of `c`: the memtable's operand `7` waits with the files' `1`,
`2` and `3` for the value `5` of level 2. -/
theorem db_get_answers_versions_straddle :
    let mems := if false then [] else [straddleMem]
    let view : ReadView := ⟨straddle.ucmp, straddle.userKey, none,
      some (memCoveringSeq straddle.userKey mems 0), some fun _ _ value => value⟩
    let files := pickAll straddle ((straddle.levels.map List.length).sum + 1) (make straddle)
    let answer := ((memVersions straddle.userKey none mems 0 ++ fileVersions straddleTables view files).foldl
      (step concatGetOperator straddle.userKey) .notFound).finish concatGetOperator straddle.userKey
    let r := DBImpl.GetImpl straddleMem [] straddle (tableRead straddleTables) (some concatGetOperator)
      (fun _ _ value => value) false none (some [])
    (∀ m ∈ [straddleMem], m.mem.mergeOperator = some concatGetOperator) ∧
      (∀ f, ∀ e ∈ straddleTables f, e.1.type.IsExtendedValueType = true) ∧
      answer = .ok [5, 3, 2, 1, 7] ∧ r.1 = statusOf answer ∧ ∀ v, answer = .ok v → r.2 = some v := by
  intro mems view files answer r
  have hop : ∀ m ∈ [straddleMem], m.mem.mergeOperator = some concatGetOperator := by
    simp [straddleMem]
  have htypes : ∀ f, ∀ e ∈ straddleTables f, e.1.type.IsExtendedValueType = true := by
    intro f e he
    unfold straddleTables at he
    split_ifs at he <;> simp at he <;> rcases he with rfl | rfl <;> rfl
  exact ⟨hop, htypes, by decide +kernel,
    db_get_answers_versions straddleMem [] straddle straddleTables concatGetOperator (fun _ _ value => value)
      false none [] hop htypes⟩

end HapDB
