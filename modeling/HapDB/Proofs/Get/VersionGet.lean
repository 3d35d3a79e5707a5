import HapDB.Db.VersionGet
import HapDB.Proofs.Get.SaveValue
import HapDB.Proofs.FilePicker.Cascade
import HapDB.Proofs.Merge.Collapse

/-!
# `Version::Get` answers the versions it reads

A point lookup in a version is the reference fold of `GetOutcome` over the
versions of the key in the files the picker gives, newest first: the answer is
the first value or deletion under the merge operands above it, or the merge of
the operands alone once the files run out.

The tables are read by `tableRead`: the table reader's loop (`saveEntries`)
over each file's entries from the lookup key on, with reads that succeed.
The proof goes in two steps.

* `getLoop_spec`: the loop over the files leaves the context after the
  versions of the files picked, and returns from inside the loop exactly when
  the context has its answer, with that answer's status.  Induction on the
  fuel, with `saveEntries_reads` for each file and
  `Reads.append_of_isDecided` for the files an answer leaves unread.
* `version_get_answers_versions`: the status and the value `Version::Get`
  gives are those of the fold, from the outcome the memtable left (nothing, or
  merge operands when the status says a merge is in progress).

The files are those of `pickAll` with the fuel `Version.Get` gives its loop;
which files the picker gives is the subject of `FilePicker.pickAll_holdsKey`.
-/

namespace HapDB

namespace Version

open GetContext GetOutcome FilePicker

/-- The table cache's `Get` of a file whose reads succeed: the table reader's
loop over the file's entries from the lookup key on. -/
def tableRead (tableEntries : ℕ × ℕ → List (ParsedInternalKey × Bytes)) (f : ℕ × ℕ)
    (g : GetContext) : Status × GetContext :=
  (Status.OK, g.saveEntries (tableEntries f))

section Loop

variable (inp : PickerInput) (tableEntries : ℕ × ℕ → List (ParsedInternalKey × Bytes))
  {op : GetMergeOperator}

/-- The versions of the lookup key a read of the files `fs` sees, newest first. -/
def fileVersions (v : ReadView) (fs : List (ℕ × ℕ)) : List KeyVersion :=
  fs.flatMap fun f => v.versionsOf (tableEntries f)

/-- What the loop over the files `fs` leaves: the context has read their
versions; it returned with the status of its answer, or it is still looking. -/
structure LoopResult (op : GetMergeOperator) (g : GetContext) (fs : List (ℕ × ℕ))
    (r : Bool × Status × GetContext) : Prop where
  reads : (lookupModel op).Reads g (fileVersions tableEntries g.view fs) r.2.2
  returned : r.1 = true → r.2.2.outcome.isDecided = true ∧
    r.2.1 = statusOf (r.2.2.outcome.finish op g.userKey)
  ended : r.1 = false → Live r.2.2

theorem fileVersions_cons (v : ReadView) (f : ℕ × ℕ) (fs : List (ℕ × ℕ)) :
    fileVersions tableEntries v (f :: fs) = v.versionsOf (tableEntries f) ++ fileVersions tableEntries v fs :=
  List.flatMap_cons

/-- The loop stops on an empty list of files: the context has read nothing. -/
theorem LoopResult.stop {g : GetContext} (hc : Configured op g) (hl : Live g) (status : Status) :
    LoopResult tableEntries op g [] (false, status, g) :=
  ⟨LookupModel.Reads.refl hc hl, fun h => absurd h Bool.false_ne_true, fun _ => hl⟩

/-- The loop's answer after a file: `kFound`, `kDeleted` and `kCorrupt` each
return the status of the answer. -/
theorem returned_status {g : GetContext} (hd : g.outcome.isDecided = true) :
    (match g.state with
      | .kNotFound | .kMerge => Status.OK
      | .kFound => Status.OK
      | .kDeleted => Status.NotFound
      | .kCorrupt => g.corrupt) = statusOf (g.outcome.finish op g.userKey) := by
  rw [outcome_isDecided_iff] at hd
  unfold outcome
  cases hs : g.state <;> simp_all [finish, statusOf]

variable (htypes : ∀ f, ∀ e ∈ tableEntries f, e.1.type.IsExtendedValueType = true)
include htypes

/-- The loop of `Version::Get` over the files, for every amount of fuel: it
reads the files `pickAll` gives with that fuel. -/
theorem getLoop_spec :
    ∀ (fuel : ℕ) (fp : FilePicker) (status : Status) {g : GetContext}, Configured op g → Live g →
      LoopResult tableEntries op g (pickAll inp fuel fp)
        (getLoop inp (tableRead tableEntries) fuel fp status g)
  | 0, fp, status, g, hc, hl => LoopResult.stop tableEntries hc hl status
  | fuel + 1, fp, status, g, hc, hl => by
    rw [getLoop, pickAll]
    rcases hnext : GetNextFile inp fp with ⟨_ | f, fp'⟩
    · exact LoopResult.stop tableEntries hc hl status
    · dsimp only
      rw [if_neg (by simp [hl.notFinished])]
      -- the file's table: its versions are read, and the context is live or has its answer
      have hf := saveEntries_reads hc hl (tableEntries f) (htypes f)
      simp only [tableRead, Status.ok_OK, Bool.not_true, Bool.false_eq_true, if_false]
      generalize g.saveEntries (tableEntries f) = g₁ at hf ⊢
      cases hs : g₁.state
      case kNotFound | kMerge =>
        -- nothing decided yet: the loop goes on with the next file
        have hl₁ : Live g₁ := hf.live_or_decided.resolve_right (by simp [lookupModel, outcome_isDecided_iff, hs])
        obtain ⟨hrest, hret, hend⟩ := getLoop_spec fuel fp' Status.OK hf.inv hl₁
        rw [view_of_reads hf] at hrest
        rw [userKey_of_reads hf] at hret
        refine ⟨?_, hret, hend⟩
        rw [fileVersions_cons]
        exact hf.trans hrest
      all_goals
        -- the answer: the files after this one are not read
        have hd : g₁.outcome.isDecided = true := by simp [outcome_isDecided_iff, hs]
        refine ⟨?_, fun _ => ⟨hd, ?_⟩, fun h => absurd h (by simp)⟩
        · rw [fileVersions_cons]
          exact hf.append_of_isDecided hd _
        · rw [← userKey_of_reads hf, ← returned_status hd, hs]

end Loop

/-! ## The lookup -/

section Get

variable (inp : PickerInput) (tableEntries : ℕ × ℕ → List (ParsedInternalKey × Bytes))
  (op : GetMergeOperator) (transToCombined : Bytes → UInt64 → Bytes → Bytes)

/-- `Version::Get` answers the fold of the versions it sees, from what the
memtables left. -/
theorem Get_spec (value : Bytes) (status : Status) (operands : List Bytes)
    (maxCoveringTombstoneSeq : Option UInt64) (keyExists : Option Bool) (seq : Option UInt64)
    (callback : Option (UInt64 → Bool))
    (htypes : ∀ f, ∀ e ∈ tableEntries f, e.1.type.IsExtendedValueType = true)
    (hstart : status.ok = true → operands = []) :
    let view : ReadView := ⟨inp.ucmp, inp.userKey, callback, maxCoveringTombstoneSeq, some transToCombined⟩
    let files := pickAll inp ((inp.levels.map List.length).sum + 1) (make inp)
    let answer := ((fileVersions tableEntries view files).foldl (step op inp.userKey)
      (if status.ok then .notFound else .merging operands)).finish op inp.userKey
    let r := Get inp (tableRead tableEntries) (some op) transToCombined (some value) status
      (some operands) maxCoveringTombstoneSeq keyExists seq callback
    r.1 = statusOf answer ∧ ∀ v, answer = .ok v → r.2.1.lazyVal = some v := by
  intro view files answer r
  let g := GetContext.new inp.ucmp (some op) (if status.ok then .kNotFound else .kMerge)
    inp.userKey (some value) (some operands) (some transToCombined) maxCoveringTombstoneSeq seq callback
  have hc : Configured op g := ⟨rfl, rfl, rfl, rfl, rfl⟩
  -- the memtable left nothing, or merge operands
  have hstate : g.state = .kNotFound ∧ g.mergeContext = some [] ∨ g.state = .kMerge := by
    cases hs : status.ok
    · exact Or.inr (by simp [g, GetContext.new, hs])
    · exact Or.inl ⟨by simp [g, GetContext.new, hs], by simp [g, GetContext.new, hstart hs]⟩
  have hout : g.outcome = if status.ok then .notFound else .merging operands := by
    cases hs : status.ok <;> simp [g, GetContext.new, outcome, hs]
  obtain ⟨hreads, hret, hend⟩ :=
    getLoop_spec inp tableEntries htypes ((inp.levels.map List.length).sum + 1) (make inp) status hc
      ⟨rfl, hstate⟩
  have hanswer : answer = (getLoop inp (tableRead tableEntries) ((inp.levels.map List.length).sum + 1)
      (make inp) status g).2.2.outcome.finish op inp.userKey := by
    rw [outcome_of_reads hreads, hout]
    rfl
  simp only [r, Get]
  generalize getLoop inp (tableRead tableEntries) ((inp.levels.map List.length).sum + 1)
      (make inp) status g = res at hanswer hreads hret hend ⊢
  obtain ⟨returned, st, g'⟩ := res
  cases returned
  · -- the files ran out: operands pending are merged onto nothing
    have hl' : Live g' := hend rfl
    dsimp only at hanswer hreads ⊢
    obtain ⟨lv, hlv⟩ := Option.isSome_iff_exists.mp hreads.inv.lazyVal
    rw [hanswer]
    rcases hl'.pending with ⟨hs, -⟩ | hs
    · rw [if_neg (by simp [hs])]
      simp [outcome, hs, finish, statusOf]
    · rw [if_pos hs, hlv]
      simp only [outcome, hs, finish, GetContext.operands]
      cases MergeHelper.TimedFullMerge op.toMergeOperator inp.userKey none (g'.mergeContext.getD []).reverse <;>
        simp [statusOf]
  · -- the loop returned the answer of a file
    obtain ⟨hd, hst⟩ := hret rfl
    dsimp only at hanswer hst hd ⊢
    refine ⟨hanswer ▸ hst, fun v hv => hreads.inv.lazyVal_of_outcome ?_⟩
    rw [hanswer] at hv
    exact eq_found_of_finish_eq_ok hd hv

/-- `Version::Get` answers the fold of the versions it sees, from what the
memtable left: nothing with an `OK` status, merge operands with any other.
The status is the answer's, and a value answered is in `*value`. -/
theorem version_get_answers_versions (value : Bytes) (status : Status) (operands : List Bytes)
    (maxCoveringTombstoneSeq : Option UInt64) (keyExists : Option Bool) (seq : Option UInt64)
    (callback : Option (UInt64 → Bool))
    (htypes : ∀ f, ∀ e ∈ tableEntries f, e.1.type.IsExtendedValueType = true)
    (hstart : status.ok = true → operands = []) :
    let view : ReadView := ⟨inp.ucmp, inp.userKey, callback, maxCoveringTombstoneSeq, some transToCombined⟩
    let files := pickAll inp ((inp.levels.map List.length).sum + 1) (make inp)
    let answer := ((fileVersions tableEntries view files).foldl (step op inp.userKey)
      (if status.ok then .notFound else .merging operands)).finish op inp.userKey
    let r := Get inp (tableRead tableEntries) (some op) transToCombined (some value) status
      (some operands) maxCoveringTombstoneSeq keyExists seq callback
    r.1 = statusOf answer ∧ ∀ v, answer = .ok v → r.2.1.lazyVal = some v :=
  Get_spec inp tableEntries op transToCombined value status operands maxCoveringTombstoneSeq keyExists seq
    callback htypes hstart

/-- The appending merge operator, which never merges early. -/
def concatGetOperator : GetMergeOperator :=
  { MergeHelper.concatMergeOperator with shouldMerge := fun _ => false }

/-- The tables of the files of `FilePicker.straddle` from the lookup key `c`
on: two operands on level 1, one more and then `d` in the next file, and a
value of `c` on level 2. -/
def straddleTables (f : ℕ × ℕ) : List (ParsedInternalKey × Bytes) :=
  if f = (1, 0) then [(⟨[99], 9, .kTypeMerge⟩, [1]), (⟨[99], 8, .kTypeMerge⟩, [2])]
  else if f = (1, 1) then [(⟨[99], 7, .kTypeMerge⟩, [3]), (⟨[100], 6, .kTypeValue⟩, [4])]
  else if f = (2, 1) then [(⟨[99], 5, .kTypeValue⟩, [5]), (⟨[101], 2, .kTypeValue⟩, [6])]
  else []

set_option maxRecDepth 100000 in
/-- A lookup of `c` over `FilePicker.straddle`: the operands `1`, `2` and `3`
of level 1 wait for the value `5` of level 2, and the answer is that value
with the operands appended, oldest first. -/
theorem version_get_answers_versions_straddle :
    let view : ReadView := ⟨straddle.ucmp, straddle.userKey, none, none, some fun _ _ value => value⟩
    let files := pickAll straddle ((straddle.levels.map List.length).sum + 1) (make straddle)
    let answer := ((fileVersions straddleTables view files).foldl (step concatGetOperator straddle.userKey)
      (if Status.OK.ok then .notFound else .merging [])).finish concatGetOperator straddle.userKey
    let r := Get straddle (tableRead straddleTables) (some concatGetOperator) (fun _ _ value => value)
      (some []) Status.OK (some []) none none none none
    (∀ f, ∀ e ∈ straddleTables f, e.1.type.IsExtendedValueType = true) ∧
      (Status.OK.ok = true → ([] : List Bytes) = []) ∧
      answer = .ok [5, 3, 2, 1] ∧ r.1 = statusOf answer ∧ ∀ v, answer = .ok v → r.2.1.lazyVal = some v := by
  intro view files answer r
  have htypes : ∀ f, ∀ e ∈ straddleTables f, e.1.type.IsExtendedValueType = true := by
    intro f e he
    unfold straddleTables at he
    split_ifs at he <;> simp at he <;> rcases he with rfl | rfl <;> rfl
  exact ⟨htypes, fun _ => rfl, by decide +kernel,
    version_get_answers_versions straddle straddleTables concatGetOperator (fun _ _ value => value) []
      Status.OK [] none none none none htypes fun _ => rfl⟩

end Get

end Version

end HapDB
