import HapDB.Db.MemTableGet
import HapDB.Proofs.Get.VersionGet

/-!
# A memtable's `Get` folds the versions of the key into the outcome

The memtable's `Saver` keeps what `GetContext` keeps in its state in two flags
and the status: the lookup ended (`found_final_value`) with the status of its
answer, `OK` with the value, `NotFound` for a deletion or the failure of a
merge (`endedOutcome`), or it goes on with merge operands pending or nothing
yet (`pendingOutcome`).

As for `GetContext`, one `SaveValue` on an entry of the lookup key reads the
entry's version (`SaveValue_steps`, one lemma per case of the `switch` first),
and the rep's loop reads the versions of the memtable from the lookup key on
(`saveEntries_reads`, from `LookupModel.saveLoop_reads`).  Between memtables
the lookup passes on a status that is `OK` with no operands, or
`MergeInProgress` with the operands (`Pending`); a
memtable's `Get` moves that state by the memtable's versions (`MemTableRead.Get_spec`), and
`GetFromList_spec` the same of the immutable memtables, newest first.
-/

namespace HapDB

open GetOutcome

/-- The answer of a lookup that ended, by its status. -/
def endedOutcome (status : Status) (value : Option Bytes) : GetOutcome :=
  if status = Status.OK then .found (value.getD [])
  else if status = Status.NotFound then .deleted
  else .corrupt status

/-- What a lookup that goes on has met: merge operands, or nothing yet. -/
def pendingOutcome (mergeInProgress : Bool) (operands : List Bytes) : GetOutcome :=
  if mergeInProgress then .merging operands else .notFound

theorem pendingOutcome_not_isDecided (mergeInProgress : Bool) (operands : List Bytes) :
    (pendingOutcome mergeInProgress operands).isDecided = false := by
  unfold pendingOutcome
  split <;> rfl

/-- The outcome of a failed merge is the failure. -/
theorem endedOutcome_of_merge_error {op : MergeOperator} {key : Bytes} {base : Option Bytes}
    {operands : List Bytes} {s : Status} (h : MergeHelper.TimedFullMerge op key base operands = .error s)
    (value : Option Bytes) : endedOutcome s value = .corrupt s := by
  rw [MergeHelper.TimedFullMerge_eq_error h]
  rfl

theorem NotFound_ne_OK : Status.NotFound ≠ Status.OK := by
  simp [Status.NotFound, Status.OK]

namespace Saver

/-- What the saver reads to tell the version an entry gives: no separate
helper, and the covering tombstone sequence number it was given. -/
def view (s : Saver) : ReadView := ⟨s.ucmp, s.key, s.callback, some s.maxCoveringTombstoneSeq, none⟩

/-- What the saver has found, read off its flags and its status. -/
def outcome (s : Saver) : GetOutcome :=
  if s.foundFinalValue then endedOutcome s.status s.value else pendingOutcome s.mergeInProgress s.mergeContext

theorem CheckCallback_eq_visible (s : Saver) (seq : UInt64) : s.CheckCallback seq = s.view.visible seq := by
  unfold CheckCallback ReadView.visible view
  cases s.callback <;> rfl

variable (op : GetMergeOperator)

/-- A saver with a value buffer and the merge operator. -/
structure Configured (s : Saver) : Prop where
  value : s.value.isSome = true
  mergeOperator : s.mergeOperator = some op

/-- Still looking: no operand met means no operand pending and the status the
lookup came with, `OK`. -/
structure Live (s : Saver) : Prop where
  notFound : s.foundFinalValue = false
  noOperands : s.mergeInProgress = false → s.mergeContext = []
  status : s.mergeInProgress = false → s.status = Status.OK

/-- The saver as a lookup the reference reads. -/
def lookupModel : LookupModel Saver := ⟨op, view, outcome, Configured op, Live⟩

variable {op}

theorem outcome_of_reads {s s' : Saver} {vs : List KeyVersion} (h : (lookupModel op).Reads s vs s') :
    s'.outcome = vs.foldl (step op s.key) s.outcome :=
  h.outcome

/-- A live saver's outcome: operands pending, or nothing yet. -/
theorem Live.outcome_eq {s : Saver} (hl : Live s) :
    s.outcome = if s.mergeInProgress then .merging s.mergeContext else .notFound := by
  simp only [outcome, hl.notFound, pendingOutcome, Bool.false_eq_true, if_false]

/-! ## The cases of the `switch` -/

section Cases

variable {s : Saver} (hc : Configured op s)
include hc

/-- A full merge through the merge operator: the answer is the merge of the
pending operands onto `base`. -/
theorem fullMerge_spec (base : Option Bytes) :
    (s.fullMerge base).view = s.view ∧ Configured op (s.fullMerge base) ∧
      endedOutcome (s.fullMerge base).status (s.fullMerge base).value =
        mergeOnto op s.key base s.mergeContext := by
  obtain ⟨v, hv⟩ := Option.isSome_iff_exists.mp hc.value
  unfold mergeOnto
  cases hmerge : MergeHelper.TimedFullMerge op.toMergeOperator s.key base s.mergeContext.reverse
  case ok result =>
    simp only [fullMerge, hv, hc.mergeOperator, hmerge]
    exact ⟨rfl, ⟨rfl, rfl⟩, by simp [endedOutcome]⟩
  case error e =>
    simp only [fullMerge, hv, hc.mergeOperator, hmerge]
    exact ⟨rfl, ⟨rfl, rfl⟩, endedOutcome_of_merge_error hmerge _⟩

omit hc in
/-- The lookup ends with a full merge of `s₁`, `s` or `s` with one more
operand: the answer is that merge. -/
theorem steps_finish_fullMerge {s₁ : Saver} (hc₁ : Configured op s₁) (hview : s₁.view = s.view)
    {base : Option Bytes} {v : KeyVersion}
    (hstep : s.outcome.step op s.key v = mergeOnto op s.key base s₁.mergeContext) :
    (lookupModel op).Steps s (some v) (false, { s₁.fullMerge base with foundFinalValue := true }) := by
  obtain ⟨hview', hc', hout⟩ := fullMerge_spec hc₁ base
  have hkey : s₁.key = s.key := congrArg ReadView.userKey hview
  have hans : outcome { s₁.fullMerge base with foundFinalValue := true } =
      mergeOnto op s.key base s₁.mergeContext := by
    rw [← hkey, ← hout]
    rfl
  have hd : (outcome { s₁.fullMerge base with foundFinalValue := true }).isDecided = true := by
    rw [hans]
    exact isDecided_mergeOnto _ _
  exact LookupModel.Steps.of_decided (hview'.trans hview) ⟨hc'.1, hc'.2⟩ (hans.trans hstep.symm) hd

variable (hl : Live s)
include hl

theorem saveValueCase_steps (sequence : UInt64) (t : ValueType) (value : Bytes)
    (ht : t = .kTypeValue ∨ t = .kTypeValueIndex) :
    (lookupModel op).Steps s (s.view.typedVersion sequence t value) (s.saveTyped value t) := by
  obtain ⟨v, hv⟩ := Option.isSome_iff_exists.mp hc.value
  have hver : s.view.typedVersion sequence t value = some (.put value) := by
    rcases ht with rfl | rfl <;> rfl
  have hcase : s.saveTyped value t = s.saveTyped value .kTypeValue := by
    rcases ht with rfl | rfl <;> rfl
  rw [hver, hcase]
  simp only [saveTyped]
  by_cases hm : s.mergeInProgress = true
  · -- the value is merged under the pending operands
    rw [if_pos hm]
    refine steps_finish_fullMerge (s := s) ?_ ?_ ?_
    · exact ⟨hc.value, hc.mergeOperator⟩
    · rfl
    · simp [hl.outcome_eq, hm, step]
  · -- nothing met yet: the value is the answer
    rw [if_neg hm]
    refine LookupModel.Steps.of_decided rfl ⟨by simp [hv], hc.mergeOperator⟩ ?_ ?_ <;>
      simp [lookupModel, outcome, endedOutcome, pendingOutcome, hv, hl.notFound, hm, step, isDecided]

theorem saveDeletionCase_steps (sequence : UInt64) (t : ValueType) (value : Bytes)
    (ht : t = .kTypeDeletion ∨ t = .kTypeSingleDeletion ∨ t = .kTypeRangeDeletion) :
    (lookupModel op).Steps s (s.view.typedVersion sequence t value) (s.saveTyped value t) := by
  have hver : s.view.typedVersion sequence t value = some .delete := by
    rcases ht with rfl | rfl | rfl <;> rfl
  have hcase : s.saveTyped value t = s.saveTyped value .kTypeDeletion := by
    rcases ht with rfl | rfl | rfl <;> rfl
  rw [hver, hcase]
  simp only [saveTyped]
  by_cases hm : s.mergeInProgress = true
  · rw [if_pos hm]
    refine steps_finish_fullMerge hc rfl ?_
    simp [hl.outcome_eq, hm, step]
  · rw [if_neg hm]
    refine LookupModel.Steps.of_decided rfl ⟨hc.value, hc.mergeOperator⟩ ?_ ?_ <;>
      simp [lookupModel, outcome, endedOutcome, pendingOutcome, NotFound_ne_OK, hl.notFound, hm, step,
        isDecided]

theorem saveMergeCase_steps (sequence : UInt64) (t : ValueType) (value : Bytes)
    (ht : t = .kTypeMerge ∨ t = .kTypeMergeIndex) :
    (lookupModel op).Steps s (s.view.typedVersion sequence t value) (s.saveTyped value t) := by
  have hver : s.view.typedVersion sequence t value = some (.merge value) := by
    rcases ht with rfl | rfl <;> rfl
  have hcase : s.saveTyped value t = s.saveTyped value .kTypeMerge := by
    rcases ht with rfl | rfl <;> rfl
  -- the operand joins the pending ones, which are none when nothing was met yet
  have hstep : s.outcome.step op s.key (.merge value) = addOperand op s.key s.mergeContext value := by
    rw [hl.outcome_eq]
    cases hm : s.mergeInProgress
    · simp [step, hl.noOperands hm]
    · simp [step]
  have heq : s.saveTyped value .kTypeMerge =
      if op.shouldMerge (s.mergeContext ++ [value]) then
        (false, { { s with mergeInProgress := true, mergeContext := s.mergeContext ++ [value] }.fullMerge none
                  with foundFinalValue := true })
      else (true, { s with mergeInProgress := true, mergeContext := s.mergeContext ++ [value] }) := by
    simp only [saveTyped, hc.mergeOperator]
  have hc' : Configured op { s with mergeInProgress := true, mergeContext := s.mergeContext ++ [value] } :=
    ⟨hc.value, hc.mergeOperator⟩
  rw [hver, hcase, heq]
  split
  · rename_i hmerge
    refine steps_finish_fullMerge (s := s) hc' rfl ?_
    rw [hstep, addOperand, if_pos hmerge]
  · rename_i hkeep
    refine LookupModel.Steps.of_live rfl hc' ?_ ⟨hl.notFound, fun h => absurd h (by simp),
      fun h => absurd h (by simp)⟩
    show _ = [KeyVersion.merge value].foldl (step op s.key) s.outcome
    simp only [List.foldl_cons, List.foldl_nil, hstep, addOperand, if_neg hkeep]
    simp [lookupModel, outcome, pendingOutcome, hl.notFound]

/-- The `switch` on the type. -/
theorem saveTyped_steps (sequence : UInt64) (t : ValueType) (value : Bytes) :
    (lookupModel op).Steps s (s.view.typedVersion sequence t value) (s.saveTyped value t) := by
  cases t
  case kTypeValue | kTypeValueIndex => exact saveValueCase_steps hc hl _ _ _ (by simp)
  case kTypeDeletion | kTypeSingleDeletion | kTypeRangeDeletion =>
    exact saveDeletionCase_steps hc hl _ _ _ (by simp)
  case kTypeMerge | kTypeMergeIndex => exact saveMergeCase_steps hc hl _ _ _ (by simp)
  -- the other types are skipped
  all_goals exact LookupModel.Steps.of_live rfl hc rfl hl

end Cases

/-! ## `SaveValue` and the rep's loop -/

/-- One `SaveValue` on an entry of the lookup key reads the entry's version. -/
theorem SaveValue_steps {s : Saver} (hc : Configured op s) (hl : Live s) {e : ParsedInternalKey × Bytes}
    (hkey : s.ucmp e.1.userKey s.key = .eq) :
    (lookupModel op).Steps s (s.view.versionOf e) (s.SaveValue e.1 e.2) := by
  unfold SaveValue
  rw [if_pos hkey]
  by_cases hvis : s.CheckCallback e.1.sequence = true
  · rw [if_neg (by simp [hvis])]
    -- the saver with the sequence number recorded, which the lookup does not look at
    have hc₁ : Configured op { s with seq := e.1.sequence } := ⟨hc.1, hc.2⟩
    have hl₁ : Live { s with seq := e.1.sequence } := ⟨hl.1, hl.2, hl.3⟩
    have hver : s.view.versionOf e = if s.view.covers e.1 then some .delete
        else s.view.typedVersion e.1.sequence e.1.type e.2 := by
      simp [ReadView.versionOf, ← CheckCallback_eq_visible, hvis]
    have hcov : s.view.covers e.1 = ((e.1.type == .kTypeValue || e.1.type == .kTypeMerge ||
        e.1.type == .kTypeValueIndex || e.1.type == .kTypeMergeIndex) &&
        decide (e.1.sequence < s.maxCoveringTombstoneSeq)) := rfl
    rw [hver, hcov]
    dsimp only
    split
    · exact (saveTyped_steps hc₁ hl₁ e.1.sequence .kTypeRangeDeletion []).congr_start rfl rfl
    · exact (saveTyped_steps hc₁ hl₁ e.1.sequence e.1.type e.2).congr_start rfl rfl
  · -- the snapshot does not see the entry: it is skipped
    rw [if_pos (by simpa using hvis)]
    have hver : s.view.versionOf e = none := by simp [ReadView.versionOf, ← CheckCallback_eq_visible, hvis]
    rw [hver]
    exact LookupModel.Steps.of_live rfl hc rfl hl

theorem saveEntries_eq_saveLoop (s : Saver) (es : List (ParsedInternalKey × Bytes)) :
    s.saveEntries es = LookupModel.saveLoop SaveValue s es := by
  induction es generalizing s with
  | nil => rfl
  | cons e es ih =>
    obtain ⟨parsedKey, value⟩ := e
    simp only [saveEntries, LookupModel.saveLoop]
    rcases s.SaveValue parsedKey value with ⟨_ | _, s'⟩
    · rfl
    · exact ih s'

/-- The rep's loop reads the versions of the memtable from the lookup key on. -/
theorem saveEntries_reads {s : Saver} (hc : Configured op s) (hl : Live s)
    (es : List (ParsedInternalKey × Bytes)) :
    (lookupModel op).Reads s (s.view.versionsOf es) (s.saveEntries es) := by
  rw [saveEntries_eq_saveLoop]
  refine LookupModel.saveLoop_reads (fun _ => True) _ ?_ ?_ hc hl es fun _ _ => trivial
  · intro s e hc hl _ hkey
    exact SaveValue_steps hc hl hkey
  · intro s e hkey
    have hkey' : s.ucmp e.1.userKey s.key ≠ .eq := hkey
    simp only [SaveValue, if_neg hkey']

end Saver

/-! ## A memtable's `Get`, and the immutable memtables -/

namespace LookupState

/-- What the lookup has found when it passes `st` on: an answer when a
memtable ended it (`done`), otherwise merge operands or nothing yet. -/
def outcome (done : Bool) (st : LookupState) : GetOutcome :=
  if done then endedOutcome st.status st.value else pendingOutcome st.status.IsMergeInProgress st.mergeContext

/-- Between memtables: a value buffer, and an `OK` status with no operands or
`MergeInProgress`. -/
structure Pending (st : LookupState) : Prop where
  value : st.value.isSome = true
  status : st.status = Status.OK ∧ st.mergeContext = [] ∨ st.status = Status.MergeInProgress

/-- A pending state's outcome, as `Version::Get` reads its status. -/
theorem Pending.outcome_eq {st : LookupState} (h : st.Pending) :
    st.outcome false = if st.status.ok then .notFound else .merging st.mergeContext := by
  rcases h.status with ⟨hs, -⟩ | hs
  · simp [outcome, pendingOutcome, hs, Status.IsMergeInProgress, Status.OK, Status.ok]
  · simp [outcome, pendingOutcome, hs, Status.IsMergeInProgress, Status.MergeInProgress, Status.ok]

end LookupState

namespace MemTableRead

variable (userKey : Bytes) (callback : Option (UInt64 → Bool))

/-- The covering tombstone sequence number after the memtable's `Get`; an
empty memtable leaves it as it was. -/
def seqAfter (m : MemTableRead) (maxCoveringTombstoneSeq : UInt64) : UInt64 :=
  if m.mem.IsEmpty then maxCoveringTombstoneSeq else m.coveringSeq userKey maxCoveringTombstoneSeq

/-- The versions of the lookup key the memtable gives, newest first. -/
def versions (m : MemTableRead) (maxCoveringTombstoneSeq : UInt64) : List KeyVersion :=
  if m.mem.IsEmpty then []
  else (ReadView.mk m.mem.ucmp userKey callback (some (m.coveringSeq userKey maxCoveringTombstoneSeq))
    none).versionsOf m.entries

end MemTableRead

section Memtables

variable (op : GetMergeOperator) (userKey : Bytes) (callback : Option (UInt64 → Bool))

/-- The versions the memtables give, newest first, each read with the covering
tombstone sequence number the ones before it raised. -/
def memVersions : List MemTableRead → UInt64 → List KeyVersion
  | [], _ => []
  | m :: rest, seq => m.versions userKey callback seq ++ memVersions rest (m.seqAfter userKey seq)

/-- The covering tombstone sequence number after the memtables. -/
def memCoveringSeq : List MemTableRead → UInt64 → UInt64
  | [], seq => seq
  | m :: rest, seq => memCoveringSeq rest (m.seqAfter userKey seq)

/-- What a lookup in memtables leaves, from `st`: the state after them has
read the versions `vs`; it ended with its answer, or it goes on, pending, with
the covering tombstone sequence number `seq`. -/
structure MemResult (st : LookupState) (vs : List KeyVersion) (seq : UInt64) (r : Bool × LookupState) :
    Prop where
  outcome : r.2.outcome r.1 = vs.foldl (step op userKey) (st.outcome false)
  ended : r.1 = true → (r.2.outcome true).isDecided = true ∧ r.2.value.isSome = true
  pending : r.1 = false → r.2.Pending ∧ r.2.maxCoveringTombstoneSeq = seq

variable {op userKey}

theorem MemResult.stop {st : LookupState} (hst : st.Pending) :
    MemResult op userKey st [] st.maxCoveringTombstoneSeq (false, st) :=
  ⟨rfl, fun h => absurd h Bool.false_ne_true, fun _ => ⟨hst, rfl⟩⟩

/-- A lookup that goes on after the first memtables reads those after them. -/
theorem MemResult.trans {st : LookupState} {vs ws : List KeyVersion} {seq₁ seq₂ : UInt64}
    {r₁ r₂ : Bool × LookupState} (h₁ : MemResult op userKey st vs seq₁ r₁) (hnext : r₁.1 = false)
    (h₂ : MemResult op userKey r₁.2 ws seq₂ r₂) : MemResult op userKey st (vs ++ ws) seq₂ r₂ := by
  refine ⟨?_, h₂.ended, h₂.pending⟩
  rw [h₂.outcome, List.foldl_append, ← h₁.outcome, hnext]

/-- A lookup that ended reads nothing after. -/
theorem MemResult.append_of_ended {st : LookupState} {vs : List KeyVersion} {seq : UInt64}
    {r : Bool × LookupState} (h : MemResult op userKey st vs seq r) (hdone : r.1 = true)
    (ws : List KeyVersion) (seq' : UInt64) : MemResult op userKey st (vs ++ ws) seq' r := by
  refine ⟨?_, h.ended, fun h' => absurd (hdone.symm.trans h') (by simp)⟩
  have hd : (r.2.outcome r.1).isDecided = true := by
    rw [hdone]
    exact (h.ended hdone).1
  rw [List.foldl_append, ← h.outcome, foldl_step_of_isDecided hd]

/-- A memtable's `Get` moves the lookup by the memtable's versions. -/
theorem MemTableRead.Get_spec (m : MemTableRead) (hop : m.mem.mergeOperator = some op) {st : LookupState}
    (hst : st.Pending) :
    MemResult op userKey st (m.versions userKey callback st.maxCoveringTombstoneSeq)
      (m.seqAfter userKey st.maxCoveringTombstoneSeq)
      ((m.Get userKey callback st).1, (m.Get userKey callback st).2.1) := by
  by_cases hempty : m.mem.IsEmpty = true
  · -- an empty memtable is passed over
    simp only [MemTableRead.Get, MemTableRead.versions, MemTableRead.seqAfter, if_pos hempty]
    exact MemResult.stop hst
  · simp only [MemTableRead.Get, MemTableRead.versions, MemTableRead.seqAfter, if_neg hempty]
    generalize m.coveringSeq userKey st.maxCoveringTombstoneSeq = seq
    -- the saver the memtable hands its entries to
    generalize hs₀ : (⟨st.status, userKey, false, st.status.IsMergeInProgress, st.value, kMaxSequenceNumber,
      m.mem.mergeOperator, st.mergeContext, seq, m.mem.ucmp, callback⟩ : Saver) = s₀
    have hc₀ : Saver.Configured op s₀ := hs₀ ▸ ⟨hst.value, hop⟩
    have hl₀ : Saver.Live s₀ := by
      subst hs₀
      refine ⟨rfl, fun hm => ?_, fun hm => ?_⟩ <;> rcases hst.status with ⟨hs, hnil⟩ | hs
      all_goals simp_all [Status.IsMergeInProgress, Status.MergeInProgress]
    have hout₀ : s₀.outcome = st.outcome false := by
      subst hs₀
      rfl
    have hview₀ : s₀.view = ⟨m.mem.ucmp, userKey, callback, some seq, none⟩ := by
      subst hs₀
      rfl
    have hreads := Saver.saveEntries_reads hc₀ hl₀ m.entries
    rw [hview₀] at hreads
    have hout := Saver.outcome_of_reads hreads
    rw [hout₀, show s₀.key = userKey by subst hs₀; rfl] at hout
    have hc' : Saver.Configured op (s₀.saveEntries m.entries) := hreads.inv
    generalize s₀.saveEntries m.entries = s' at hreads hout hc' ⊢
    cases hfound : s'.foundFinalValue
    · -- the memtable leaves operands pending, or nothing
      have hl' : Saver.Live s' := hreads.live_or_decided.resolve_right (by
        simp [Saver.lookupModel, Saver.outcome, hfound, pendingOutcome_not_isDecided])
      refine ⟨?_, fun h => absurd h Bool.false_ne_true, fun _ => ⟨⟨hc'.value, ?_⟩, rfl⟩⟩
      · rw [← hout]
        cases hm : s'.mergeInProgress
        · simp [LookupState.outcome, Saver.outcome, hfound, hm, hl'.status hm, pendingOutcome,
            Status.IsMergeInProgress, Status.OK]
        · simp [LookupState.outcome, Saver.outcome, hfound, hm, pendingOutcome,
            Status.IsMergeInProgress, Status.MergeInProgress]
      · cases hm : s'.mergeInProgress
        · exact Or.inl ⟨by simp [hl'.status hm], hl'.noOperands hm⟩
        · exact Or.inr rfl
    · -- the memtable ended the lookup
      have hd : s'.outcome.isDecided = true := by
        refine hreads.live_or_decided.resolve_left fun hl' => ?_
        rw [hl'.notFound] at hfound
        exact Bool.false_ne_true hfound
      refine ⟨?_, fun _ => ⟨?_, hc'.value⟩, fun h => absurd h (by simp)⟩
      · rw [← hout]
        simp [LookupState.outcome, Saver.outcome, hfound]
      · simpa [LookupState.outcome, Saver.outcome, hfound] using hd

/-- `GetFromList` moves the lookup by the versions of the memtables, newest
first, up to the one that ends it. -/
theorem GetFromList_spec (ms : List MemTableRead) (hop : ∀ m ∈ ms, m.mem.mergeOperator = some op) :
    ∀ {st : LookupState} (seq : UInt64), st.Pending →
      MemResult op userKey st (memVersions userKey callback ms st.maxCoveringTombstoneSeq)
        (memCoveringSeq userKey ms st.maxCoveringTombstoneSeq)
        ((GetFromList userKey callback ms st seq).1, (GetFromList userKey callback ms st seq).2.1) := by
  -- induction on the memtables, generalizing the state passed on
  induction ms with
  | nil => exact fun _ hst => MemResult.stop hst
  | cons m ms ih =>
    intro st seq hst
    have hm : MemResult op userKey st _ _ _ := MemTableRead.Get_spec callback m (hop m List.mem_cons_self) hst
    simp only [GetFromList, memVersions, memCoveringSeq]
    generalize m.Get userKey callback st = r at hm ⊢
    obtain ⟨done, st', currentSeq⟩ := r
    dsimp only at hm ⊢
    cases done
    · -- the memtable passes the lookup on
      obtain ⟨hst', hseq⟩ : st'.Pending ∧
          st'.maxCoveringTombstoneSeq = m.seqAfter userKey st.maxCoveringTombstoneSeq := hm.pending rfl
      have hgo : (!st'.status.ok && !st'.status.IsMergeInProgress && !st'.status.IsNotFound) = false := by
        rcases hst'.status with ⟨hs, -⟩ | hs <;>
          simp [hs, Status.ok, Status.OK, Status.IsMergeInProgress, Status.MergeInProgress, Status.IsNotFound]
      simp only [hgo, Bool.false_eq_true, if_false]
      refine hm.trans rfl ?_
      rw [← hseq]
      exact ih (fun m hm' => hop m (List.mem_cons_of_mem _ hm')) _ hst'
    · -- the memtable ended the lookup
      exact hm.append_of_ended rfl _ _

end Memtables

end HapDB
