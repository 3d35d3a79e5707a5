import HapDB.Proofs.Get.Lookup

/-!
# `SaveValue` folds the versions of the key into the outcome

`GetContext.outcome` reads the outcome off the context's state, and the
context's `view` says which version an entry gives (`ReadView.versionOf`):
none when the snapshot does not see it, a deletion under a newer range
tombstone, and otherwise by its type, an index turned into its value by the
separate helper.

For a context set up as `Version::Get` sets it up (`Configured`: a value
buffer, a merge context, the merge operator and the version as separate
helper, and no masking) that is still looking (`Live`), one `SaveValue` on an
entry of the lookup key moves the outcome by that entry's version, and returns
true exactly while the outcome is undecided (`SaveValue_steps`).  Over the
entries a table gives from the lookup key on, the table reader's loop then
folds the versions of the entries up to the first of another user key
(`saveEntries_reads`).
-/

namespace HapDB

namespace GetContext

open GetOutcome

/-- What the context has found, read off its state. -/
def outcome (g : GetContext) : GetOutcome :=
  match g.state with
  | .kNotFound => .notFound
  | .kMerge => .merging (g.mergeContext.getD [])
  | .kFound => .found (g.lazyVal.getD [])
  | .kDeleted => .deleted
  | .kCorrupt => .corrupt g.corrupt

/-- What the lookup reads of the context to tell the version an entry gives. -/
def view (g : GetContext) : ReadView :=
  ⟨g.ucmp, g.userKey, g.callback, g.maxCoveringTombstoneSeq, g.separateHelper⟩

theorem CheckCallback_eq_visible (g : GetContext) (seq : UInt64) : g.CheckCallback seq = g.view.visible seq := by
  unfold CheckCallback ReadView.visible view
  cases g.callback <;> rfl

theorem coveredByTombstone_eq_covers (g : GetContext) : g.coveredByTombstone = g.view.covers := rfl

/-! ## The invariants -/

variable (op : GetMergeOperator)

/-- The context as `Version::Get` sets it up. -/
structure Configured (g : GetContext) : Prop where
  lazyVal : g.lazyVal.isSome = true
  mergeContext : g.mergeContext.isSome = true
  mergeOperator : g.mergeOperator = some op
  separateHelper : g.separateHelper.isSome = true
  minSeqType : g.minSeqType = 0

/-- Still looking: not finished, with nothing met yet or operands pending. -/
structure Live (g : GetContext) : Prop where
  notFinished : g.isFinished = false
  pending : g.state = .kNotFound ∧ g.mergeContext = some [] ∨ g.state = .kMerge

/-- The context as a lookup the reference reads. -/
def lookupModel : LookupModel GetContext := ⟨op, view, outcome, Configured op, Live⟩

variable {op}

theorem view_of_reads {g g' : GetContext} {vs : List KeyVersion} (h : (lookupModel op).Reads g vs g') :
    g'.view = g.view :=
  h.view

theorem outcome_of_reads {g g' : GetContext} {vs : List KeyVersion} (h : (lookupModel op).Reads g vs g') :
    g'.outcome = vs.foldl (step op g.userKey) g.outcome :=
  h.outcome

theorem userKey_of_reads {g g' : GetContext} {vs : List KeyVersion} (h : (lookupModel op).Reads g vs g') :
    g'.userKey = g.userKey :=
  congrArg ReadView.userKey h.view

theorem outcome_isDecided_iff (g : GetContext) :
    g.outcome.isDecided = true ↔ g.state ≠ .kNotFound ∧ g.state ≠ .kMerge := by
  unfold outcome
  cases g.state <;> simp [isDecided]

/-- A context set up with a value buffer holds the value it found. -/
theorem Configured.lazyVal_of_outcome {g : GetContext} (hc : Configured op g) {value : Bytes}
    (h : g.outcome = .found value) : g.lazyVal = some value := by
  obtain ⟨v, hv⟩ := Option.isSome_iff_exists.mp hc.lazyVal
  unfold outcome at h
  split at h <;> simp_all

/-! ## The cases of the `switch` -/

section Cases

variable {g : GetContext} (hc : Configured op g) (hl : Live g)
include hc

/-- `fullMerge` through the merge operator the context is set up with. -/
theorem fullMerge_eq (base : Option Bytes) :
    g.fullMerge base =
      match MergeHelper.TimedFullMerge op.toMergeOperator g.userKey base g.operands with
      | .ok result => { g with state := .kFound, lazyVal := some result }
      | .error s => { g with state := .kCorrupt, corrupt := s } := by
  obtain ⟨v, hv⟩ := Option.isSome_iff_exists.mp hc.lazyVal
  cases hmerge : MergeHelper.TimedFullMerge op.toMergeOperator g.userKey base (g.mergeContext.getD []).reverse <;>
    simp only [fullMerge, operands, hv, hc.mergeOperator, hmerge]

/-- `fullMerge` decides the outcome by the merge of the pending operands. -/
theorem fullMerge_spec (base : Option Bytes) :
    (g.fullMerge base).view = g.view ∧ Configured op (g.fullMerge base) ∧
      (g.fullMerge base).outcome = mergeOnto op g.userKey base (g.mergeContext.getD []) := by
  rw [fullMerge_eq hc]
  unfold mergeOnto operands
  split
  · rename_i result hres
    refine ⟨rfl, ⟨rfl, hc.mergeContext, hc.mergeOperator, hc.separateHelper, hc.minSeqType⟩, ?_⟩
    simp only [outcome, hres, Option.getD_some]
  · rename_i s hs
    refine ⟨rfl, ⟨hc.lazyVal, hc.mergeContext, hc.mergeOperator, hc.separateHelper, hc.minSeqType⟩, ?_⟩
    simp only [outcome, hs]

omit hc in
/-- `Finish` after a full merge of `g₁`, the context with the version's
operand pushed or `g` itself: the lookup has its answer. -/
theorem steps_finish_fullMerge {g₁ : GetContext} (hc₁ : Configured op g₁) (hview : g₁.view = g.view)
    {base : Option Bytes} {v : KeyVersion}
    (hstep : g.outcome.step op g.userKey v = mergeOnto op g.userKey base (g₁.mergeContext.getD [])) :
    (lookupModel op).Steps g (some v) (Finish (g₁.fullMerge base)) := by
  obtain ⟨hview', hc', hout⟩ := fullMerge_spec hc₁ base
  have hkey : g₁.userKey = g.userKey := congrArg ReadView.userKey hview
  refine LookupModel.Steps.of_decided (hview'.trans hview) ⟨hc'.1, hc'.2, hc'.3, hc'.4, hc'.5⟩ ?_ ?_
  · show (g₁.fullMerge base).outcome = g.outcome.step op g.userKey v
    rw [hout, hkey, hstep]
  · show (g₁.fullMerge base).outcome.isDecided = true
    rw [hout]
    exact isDecided_mergeOnto _ _

include hl

theorem saveValueCase_steps (value : Bytes) :
    (lookupModel op).Steps g (some (.put value)) (g.saveValueCase value) := by
  have hsep : g.separateHelper.isNone = false := by simpa using hc.separateHelper
  obtain ⟨v, hv⟩ := Option.isSome_iff_exists.mp hc.lazyVal
  unfold saveValueCase
  rw [hsep, if_neg Bool.false_ne_true]
  rcases hl.pending with ⟨hs, -⟩ | hs
  · -- nothing met yet: the value is the answer
    rw [hs]
    refine LookupModel.Steps.of_decided rfl ⟨by simp [setValue, hv], hc.mergeContext, hc.mergeOperator,
      hc.separateHelper, hc.minSeqType⟩ ?_ ?_ <;>
      simp [lookupModel, setValue, outcome, hv, hs, step, isDecided]
  · -- the value is merged under the pending operands
    rw [hs]
    exact steps_finish_fullMerge hc rfl (by simp [outcome, hs, step])

theorem saveDeletionCase_steps : (lookupModel op).Steps g (some .delete) g.saveDeletionCase := by
  unfold saveDeletionCase
  rcases hl.pending with ⟨hs, -⟩ | hs
  · rw [hs]
    refine LookupModel.Steps.of_decided rfl ⟨hc.lazyVal, hc.mergeContext, hc.mergeOperator,
      hc.separateHelper, hc.minSeqType⟩ ?_ ?_ <;>
      simp [lookupModel, outcome, hs, step, isDecided]
  · rw [hs]
    exact steps_finish_fullMerge hc rfl (by simp [outcome, hs, step])

theorem saveMergeCase_steps (value : Bytes) :
    (lookupModel op).Steps g (some (.merge value)) (g.saveMergeCase value) := by
  obtain ⟨ops, hops⟩ := Option.isSome_iff_exists.mp hc.mergeContext
  -- the operand joins the pending ones, which are none when nothing was met yet
  have hstep : g.outcome.step op g.userKey (.merge value) = addOperand op g.userKey ops value := by
    rcases hl.pending with ⟨hs, hnil⟩ | hs
    · rw [hops, Option.some_inj] at hnil
      simp [outcome, hs, step, hnil]
    · simp [outcome, hs, hops, step]
  have heq : g.saveMergeCase value =
      if op.shouldMerge (ops ++ [value]) then
        Finish ({ g with state := .kMerge, mergeContext := some (ops ++ [value]) }.fullMerge none)
      else (true, { g with state := .kMerge, mergeContext := some (ops ++ [value]) }) := by
    have hsep : g.separateHelper.isNone = false := by simpa using hc.separateHelper
    unfold saveMergeCase
    simp only [hsep, hops, hc.mergeOperator, Option.map_some, Option.getD_some]
    rfl
  have hc' : Configured op { g with state := .kMerge, mergeContext := some (ops ++ [value]) } :=
    ⟨hc.lazyVal, rfl, hc.mergeOperator, hc.separateHelper, hc.minSeqType⟩
  rw [heq]
  split
  · rename_i hmerge
    refine steps_finish_fullMerge (g := g) hc' rfl ?_
    rw [hstep, addOperand, if_pos hmerge]
    rfl
  · rename_i hkeep
    refine LookupModel.Steps.of_live rfl hc' ?_ ⟨hl.notFinished, Or.inr rfl⟩
    show _ = [KeyVersion.merge value].foldl (step op g.userKey) g.outcome
    simp only [List.foldl_cons, List.foldl_nil, hstep, addOperand, if_neg hkeep]
    rfl

/-- The `switch` on an extended value type. -/
theorem saveTyped_steps (sequence : UInt64) (t : ValueType) (value : Bytes)
    (htype : t.IsExtendedValueType = true) :
    (lookupModel op).Steps g (g.view.typedVersion sequence t value) (g.saveTyped sequence t value) := by
  obtain ⟨trans, htrans⟩ := Option.isSome_iff_exists.mp hc.separateHelper
  cases t
  case kTypeValue => exact saveValueCase_steps hc hl value
  case kTypeValueIndex =>
    simp only [saveTyped, ReadView.typedVersion, ReadView.combined, view, htrans]
    exact saveValueCase_steps hc hl _
  case kTypeMerge => exact saveMergeCase_steps hc hl value
  case kTypeMergeIndex =>
    simp only [saveTyped, ReadView.typedVersion, ReadView.combined, view, htrans]
    exact saveMergeCase_steps hc hl _
  case kTypeDeletion => exact saveDeletionCase_steps hc hl
  case kTypeSingleDeletion => exact saveDeletionCase_steps hc hl
  case kTypeRangeDeletion => exact saveDeletionCase_steps hc hl
  all_goals exact absurd htype (by decide)

/-- The `switch` on the type, a covered entry's as a range deletion. -/
theorem saveCovered_steps (e : ParsedInternalKey × Bytes) (htype : e.1.type.IsExtendedValueType = true) :
    (lookupModel op).Steps g
      (if g.view.covers e.1 then some .delete else g.view.typedVersion e.1.sequence e.1.type e.2)
      (if g.coveredByTombstone e.1 then g.saveTyped e.1.sequence .kTypeRangeDeletion []
        else g.saveTyped e.1.sequence e.1.type e.2) := by
  rw [coveredByTombstone_eq_covers]
  split
  · exact saveDeletionCase_steps hc hl
  · exact saveTyped_steps hc hl _ _ _ htype

end Cases

/-! ## `SaveValue` and the table reader's loop -/

/-- One `SaveValue` on an entry of the lookup key reads the entry's version. -/
theorem SaveValue_steps {g : GetContext} (hc : Configured op g) (hl : Live g)
    {e : ParsedInternalKey × Bytes} (hkey : g.ucmp e.1.userKey g.userKey = .eq)
    (htype : e.1.type.IsExtendedValueType = true) :
    (lookupModel op).Steps g (g.view.versionOf e) ((g.SaveValue e.1 e.2).1, (g.SaveValue e.1 e.2).2.2) := by
  have hmask : ¬PackSequenceAndType e.1.sequence e.1.type < g.minSeqType := by
    rw [hc.minSeqType]
    exact UInt64.not_lt_zero
  unfold SaveValue
  rw [if_pos hkey, if_neg hmask]
  by_cases hvis : g.CheckCallback e.1.sequence = true
  · rw [if_neg (by simp [hvis])]
    have hver : g.view.versionOf e = if g.view.covers e.1 then some .delete
        else g.view.typedVersion e.1.sequence e.1.type e.2 := by
      simp [ReadView.versionOf, ← CheckCallback_eq_visible, hvis]
    rw [hver]
    -- recording the sequence number leaves the lookup where it was
    by_cases hseq : g.seq = some kMaxSequenceNumber
    · simp only [if_pos hseq]
      have hview : { g with seq := some e.1.sequence }.view = g.view := rfl
      have h := saveCovered_steps (g := { g with seq := some e.1.sequence }) ⟨hc.1, hc.2, hc.3, hc.4, hc.5⟩
          ⟨hl.1, hl.2⟩ e htype
      rw [hview] at h
      rw [Prod.mk.eta]
      exact h.congr_start rfl rfl
    · simp only [if_neg hseq]
      exact saveCovered_steps hc hl e htype
  · -- the snapshot does not see the entry: it is skipped
    rw [if_pos (by simpa using hvis)]
    have hver : g.view.versionOf e = none := by simp [ReadView.versionOf, ← CheckCallback_eq_visible, hvis]
    rw [hver]
    exact LookupModel.Steps.of_live rfl hc rfl hl

theorem saveEntries_eq_saveLoop (g : GetContext) (es : List (ParsedInternalKey × Bytes)) :
    g.saveEntries es =
      LookupModel.saveLoop (fun g parsedKey value => ((g.SaveValue parsedKey value).1,
        (g.SaveValue parsedKey value).2.2)) g es := by
  induction es generalizing g with
  | nil => rfl
  | cons e es ih =>
    obtain ⟨parsedKey, value⟩ := e
    simp only [saveEntries, LookupModel.saveLoop]
    rcases g.SaveValue parsedKey value with ⟨_ | _, matched, g'⟩
    · rfl
    · exact ih g'

/-- The table reader's loop reads the versions of the entries from the lookup
key on, up to the first entry of another user key. -/
theorem saveEntries_reads {g : GetContext} (hc : Configured op g) (hl : Live g)
    (es : List (ParsedInternalKey × Bytes)) (htypes : ∀ e ∈ es, e.1.type.IsExtendedValueType = true) :
    (lookupModel op).Reads g (g.view.versionsOf es) (g.saveEntries es) := by
  rw [saveEntries_eq_saveLoop]
  refine LookupModel.saveLoop_reads (fun e => e.1.type.IsExtendedValueType = true) _ ?_ ?_ hc hl es htypes
  · intro g e hc hl htype hkey
    exact SaveValue_steps hc hl hkey htype
  · intro g e hkey
    have hkey' : g.ucmp e.1.userKey g.userKey ≠ .eq := hkey
    simp only [SaveValue, if_neg hkey']

end GetContext

end HapDB
