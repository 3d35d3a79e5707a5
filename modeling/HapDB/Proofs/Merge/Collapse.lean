import HapDB.Db.MergeHelper
import HapDB.Proofs.RangeDel.Fragments

/-!
# `MergeUntil` keeps what reads at the stripe's ends find

A read of a user key at sequence number `s` sees the versions of the key at or
below `s`, newest first: it collects merge operands until it meets a base (a
put, a value index or a deletion), and folds the operands onto the base
(`readFrom`).  `MergeUntil` rewrites the newest versions of a key, above the
previous snapshot `stop_before`, into fewer entries, so a read between
`stop_before` and the newest version can find something else
(`merge_hides_older_put`).  What it keeps is every read at or above the newest
version, and every read at or below a non-zero `stop_before`
(`MergeUntil_collapses`).

Without a compaction filter or range tombstones the loop takes every merge
operand of the key that the previous snapshot does not see
(`mergeLoop_absorb`, `mergeLoop_absorbAll`), and then stops at one of four
places: the end of the input, another user key, a version the previous snapshot
sees (these three through `afterLoop`) or a base version.  The reads above the
newest version come from three facts about `readFrom`: versions a read does not
see are skipped (`readFrom_append_of_invisible`), merge operands are collected
(`readFrom_append_of_merges`), and operands that the merge operator folds
together the same way give the same read (`readFrom_congr_operands`).
-/

namespace HapDB

namespace MergeHelper

/-! ## What a read finds -/

section Read

variable (op : MergeOperator) (ucmp : Comparator) (userKey : Bytes)

/-- The operands read so far, oldest first, folded onto a base: the base itself
when there are none, and `none` when the merge operator fails. -/
def foldOnto (base : Option Bytes) (acc : List Bytes) : Option (Option Bytes) :=
  if acc = [] then some base else (op.fullMergeV2 userKey base acc).map some

/-- A read of `userKey` at sequence number `s` over entries newest first, with
`acc` the operands collected so far: `some none` when it finds nothing. -/
def readFrom (s : UInt64) : List Bytes → List (ParsedInternalKey × Bytes) → Option (Option Bytes)
  | acc, [] => foldOnto op userKey none acc
  | acc, (k, v) :: rest =>
      if ucmp k.userKey userKey ≠ .eq ∨ s < k.sequence then readFrom s acc rest
      else if k.type = .kTypeMerge ∨ k.type = .kTypeMergeIndex then readFrom s (v :: acc) rest
      else if k.type = .kTypeValue ∨ k.type = .kTypeValueIndex then foldOnto op userKey (some v) acc
      else foldOnto op userKey none acc

variable {op ucmp userKey}

/-- Versions a read does not see, of another key or above its sequence number,
are skipped. -/
theorem readFrom_append_of_invisible {s : UInt64} {acc : List Bytes}
    {xs ys : List (ParsedInternalKey × Bytes)}
    (hx : ∀ e ∈ xs, ucmp e.1.userKey userKey ≠ .eq ∨ s < e.1.sequence) :
    readFrom op ucmp userKey s acc (xs ++ ys) = readFrom op ucmp userKey s acc ys := by
  induction xs with
  | nil => rfl
  | cons e xs ih =>
      obtain ⟨k, v⟩ := e
      rw [List.cons_append, readFrom, if_pos (hx _ List.mem_cons_self)]
      exact ih fun e he => hx e (List.mem_cons_of_mem _ he)

/-- Merge operands of the key that the read sees are collected, oldest first. -/
theorem readFrom_append_of_merges {s : UInt64} {acc : List Bytes}
    {xs ys : List (ParsedInternalKey × Bytes)}
    (hx : ∀ e ∈ xs, ucmp e.1.userKey userKey = .eq ∧ e.1.sequence ≤ s ∧
      (e.1.type = .kTypeMerge ∨ e.1.type = .kTypeMergeIndex)) :
    readFrom op ucmp userKey s acc (xs ++ ys) =
      readFrom op ucmp userKey s ((xs.map (·.2)).reverse ++ acc) ys := by
  induction xs generalizing acc with
  | nil => rfl
  | cons e xs ih =>
      obtain ⟨k, v⟩ := e
      obtain ⟨hkey, hseq, htype⟩ := hx _ List.mem_cons_self
      have hvisible : ¬ (ucmp k.userKey userKey ≠ .eq ∨ s < k.sequence) := by
        simp only [not_or, not_not]
        exact ⟨hkey, UInt64.not_lt.mpr hseq⟩
      rw [List.cons_append, readFrom, if_neg hvisible, if_pos htype,
        ih fun e he => hx e (List.mem_cons_of_mem _ he)]
      simp

/-- Two non-empty lists of operands that the merge operator folds the same way,
under any older operands, give the same read.  The induction is on the entries
read; the older operands found on the way are the prefix `pre`. -/
theorem readFrom_congr_operands {s : UInt64} {xs ys : List Bytes} (hxs : xs ≠ []) (hys : ys ≠ [])
    (hfold : ∀ base pre, op.fullMergeV2 userKey base (pre ++ xs) =
      op.fullMergeV2 userKey base (pre ++ ys)) :
    ∀ (pre : List Bytes) (rest : List (ParsedInternalKey × Bytes)),
      readFrom op ucmp userKey s (pre ++ xs) rest = readFrom op ucmp userKey s (pre ++ ys) rest
  | pre, [] => by
      simp [readFrom, foldOnto, hxs, hys, hfold]
  | pre, (k, v) :: rest => by
      have ih := readFrom_congr_operands (s := s) hxs hys hfold pre rest
      have ih' := readFrom_congr_operands (s := s) hxs hys hfold (v :: pre) rest
      simp only [readFrom, foldOnto, List.append_eq_nil_iff, hxs, hys, and_false, if_false, hfold,
        List.cons_append] at ih ih' ⊢
      rw [ih, ih']

theorem foldOnto_of_fullMergeV2 {base : Option Bytes} {acc : List Bytes} {v : Bytes} (hacc : acc ≠ [])
    (h : op.fullMergeV2 userKey base acc = some v) : foldOnto op userKey base acc = some (some v) := by
  simp [foldOnto, hacc, h]

end Read

/-! ## The loop without a filter or range tombstones -/

/-- A helper with no compaction filter and no snapshot checker, while the
database is not shutting down. -/
structure Plain (h : MergeHelper) : Prop where
  noFilter : h.compactionFilter = none
  noChecker : h.snapshotChecker = none
  running : h.shuttingDown = false

/-- The helper with one more entry collected: its key in front of `keys_`, its
value in front of the operands. -/
def push (h : MergeHelper) (e : ParsedInternalKey × Bytes) : MergeHelper :=
  { h with keys := e.1 :: h.keys, operands := e.2 :: h.operands }

/-- An entry the loop collects: a merge operand of the user key that the
previous snapshot does not see. -/
def Absorbed (ucmp : Comparator) (stopBefore : UInt64) (userKey : Bytes)
    (e : ParsedInternalKey × Bytes) : Prop :=
  ucmp e.1.userKey userKey = .eq ∧ (e.1.type = .kTypeMerge ∨ e.1.type = .kTypeMergeIndex) ∧
    (stopBefore = 0 ∨ stopBefore < e.1.sequence)

instance (ucmp : Comparator) (stopBefore : UInt64) (userKey : Bytes) :
    DecidablePred (Absorbed ucmp stopBefore userKey) :=
  fun _ => inferInstanceAs (Decidable (_ ∧ _))

@[simp] theorem push_userComparator (h : MergeHelper) (e : ParsedInternalKey × Bytes) :
    (h.push e).userComparator = h.userComparator := rfl

theorem Plain.push {h : MergeHelper} (hplain : h.Plain) (e : ParsedInternalKey × Bytes) :
    (h.push e).Plain :=
  ⟨hplain.noFilter, hplain.noChecker, hplain.running⟩

@[simp] theorem shouldDelete_none (ucmp : Comparator) (key : ParsedInternalKey) :
    shouldDelete ucmp none key = (false, none) := rfl

section Loop

variable {stopBefore : UInt64} {atBottom : Bool}

/-- A collected entry goes in front of the keys and the operands. -/
theorem mergeLoop_absorb {h : MergeHelper} (hplain : h.Plain) (hkeys : h.keys ≠ [])
    {orig : ParsedInternalKey} {e : ParsedInternalKey × Bytes}
    (he : Absorbed h.userComparator stopBefore orig.userKey e) (rest : List (ParsedInternalKey × Bytes)) :
    mergeLoop stopBefore atBottom h false orig none (e :: rest) =
      mergeLoop stopBefore atBottom (h.push e) false orig none rest := by
  obtain ⟨k, v⟩ := e
  obtain ⟨hkey, htype, hsb⟩ := he
  simp only at hkey htype hsb
  have hnostop : ¬ (0 < stopBefore ∧ k.sequence ≤ stopBefore) := by
    rintro ⟨hpos, hle⟩
    rcases hsb with h0 | hlt
    · simp [h0] at hpos
    · exact absurd hle (UInt64.not_le.mpr hlt)
  have hmerge : ¬ (k.type ≠ .kTypeMerge ∧ k.type ≠ .kTypeMergeIndex) := by tauto
  simp only [mergeLoop, hplain.running, hplain.noChecker, hkey, Bool.false_eq_true, if_false,
    ne_eq, not_true_eq_false, and_false, shouldDelete_none, FilterMerge, hplain.noFilter]
  simp [hmerge, hnostop, hkeys, push, hplain.noFilter, hplain.running, hplain.noChecker]

/-- A run of collected entries goes in front of the keys and the operands, one
after the other. -/
theorem mergeLoop_absorbAll {orig : ParsedInternalKey} (rest : List (ParsedInternalKey × Bytes)) :
    ∀ (xs : List (ParsedInternalKey × Bytes)) (h : MergeHelper), h.Plain → h.keys ≠ [] →
      (∀ e ∈ xs, Absorbed h.userComparator stopBefore orig.userKey e) →
      mergeLoop stopBefore atBottom h false orig none (xs ++ rest) =
        mergeLoop stopBefore atBottom (xs.foldl push h) false orig none rest
  | [], _, _, _, _ => rfl
  | e :: xs, h, hplain, hkeys, habs => by
      rw [List.cons_append, mergeLoop_absorb hplain hkeys (habs e List.mem_cons_self), List.foldl_cons]
      exact mergeLoop_absorbAll rest xs (h.push e) (hplain.push e) (List.cons_ne_nil _ _)
        fun e' he' => habs e' (List.mem_cons_of_mem _ he')

/-- The input is exhausted. -/
theorem mergeLoop_nil (h : MergeHelper) (first : Bool) (orig : ParsedInternalKey)
    (agg : Option CompactionRangeDelAggregator) :
    mergeLoop stopBefore atBottom h first orig agg [] =
      ⟨(h.afterLoop orig atBottom).1, (h.afterLoop orig atBottom).2, agg, []⟩ := rfl

/-- Another user key ends the loop where it stands. -/
theorem mergeLoop_other {h : MergeHelper} (hplain : h.Plain) {orig : ParsedInternalKey}
    {e : ParsedInternalKey × Bytes} (hne : h.userComparator e.1.userKey orig.userKey ≠ .eq)
    (rest : List (ParsedInternalKey × Bytes)) :
    mergeLoop stopBefore atBottom h false orig none (e :: rest) =
      ⟨(h.afterLoop orig atBottom).1, (h.afterLoop orig atBottom).2, none, e :: rest⟩ := by
  obtain ⟨k, v⟩ := e
  simp [mergeLoop, hplain.running, hne]

/-- A version the previous snapshot sees ends the loop where it stands, with
the history of the key not all seen. -/
theorem mergeLoop_stop {h : MergeHelper} (hplain : h.Plain) {orig : ParsedInternalKey}
    {e : ParsedInternalKey × Bytes} (hkey : h.userComparator e.1.userKey orig.userKey = .eq)
    (hpos : 0 < stopBefore) (hle : e.1.sequence ≤ stopBefore) (rest : List (ParsedInternalKey × Bytes)) :
    mergeLoop stopBefore atBottom h false orig none (e :: rest) =
      ⟨(h.afterLoop orig false).1, (h.afterLoop orig false).2, none, e :: rest⟩ := by
  obtain ⟨k, v⟩ := e
  simp only at hkey hle
  simp [mergeLoop, hplain.running, hplain.noChecker, hkey, hpos, hle]

/-- The base a put, a value index or a deletion gives the operands: its value
for the first two, nothing for a deletion. -/
def baseOf (e : ParsedInternalKey × Bytes) : Option Bytes :=
  if e.1.type = .kTypeValue ∨ e.1.type = .kTypeValueIndex then some e.2 else none

/-- A read stops at the first base version it sees and folds its operands onto it. -/
theorem readFrom_cons_base {op : MergeOperator} {ucmp : Comparator} {userKey : Bytes} {s : UInt64}
    {acc : List Bytes} {e : ParsedInternalKey × Bytes} (hkey : ucmp e.1.userKey userKey = .eq)
    (hseq : e.1.sequence ≤ s) (hbase : e.1.type ≠ .kTypeMerge ∧ e.1.type ≠ .kTypeMergeIndex)
    (rest : List (ParsedInternalKey × Bytes)) :
    readFrom op ucmp userKey s acc (e :: rest) = foldOnto op userKey (baseOf e) acc := by
  obtain ⟨k, v⟩ := e
  have hvisible : ¬ (ucmp k.userKey userKey ≠ .eq ∨ s < k.sequence) := by
    simp only [not_or, not_not]
    exact ⟨hkey, UInt64.not_lt.mpr hseq⟩
  have hnot : ¬ (k.type = .kTypeMerge ∨ k.type = .kTypeMergeIndex) := by
    simp only at hbase
    tauto
  rw [readFrom, if_neg hvisible, if_neg hnot, baseOf]
  split <;> rfl

section Base

variable {h : MergeHelper} {orig : ParsedInternalKey} {e : ParsedInternalKey × Bytes}

/-- The step at a base version of the key that the previous snapshot does not
see, before the fold is looked at. -/
theorem mergeLoop_base (hplain : h.Plain) (hkeys : h.keys ≠ [])
    (hkey : h.userComparator e.1.userKey orig.userKey = .eq)
    (hvisible : ¬ (0 < stopBefore ∧ e.1.sequence ≤ stopBefore))
    (hbase : e.1.type ≠ .kTypeMerge ∧ e.1.type ≠ .kTypeMergeIndex) (rest : List (ParsedInternalKey × Bytes)) :
    (∀ result, TimedFullMerge h.userMergeOperator e.1.userKey (baseOf e) h.operands = .ok result →
      mergeLoop stopBefore atBottom h false orig none (e :: rest) =
        ⟨Status.OK, h.replaceOperands orig .kTypeValue result, none, rest⟩) ∧
    (∀ s, TimedFullMerge h.userMergeOperator e.1.userKey (baseOf e) h.operands = .error s →
      mergeLoop stopBefore atBottom h false orig none (e :: rest) = ⟨s, h, none, rest⟩) := by
  obtain ⟨k, v⟩ := e
  simp only at hkey hvisible hbase
  simp only [mergeLoop, hplain.running, hplain.noChecker, hkey, Bool.false_eq_true, if_false,
    ne_eq, not_true_eq_false, and_false, Option.map_none, Option.getD_none, and_true]
  rw [if_neg (by simpa using hvisible), if_pos hbase, if_neg (by simpa using hkeys)]
  simp only [baseOf, shouldDelete_none, ite_self, and_true]
  -- the operands are folded onto the base, which is consumed
  refine ⟨fun result hres => ?_, fun s hres => ?_⟩ <;> rw [hres]

end Base

/-- `MergeUntil` at a merge operand: the operand is collected without a check,
and anchors `orig_ikey`. -/
theorem MergeUntil_cons {h : MergeHelper} (hplain : h.Plain) {e : ParsedInternalKey × Bytes}
    (hmerge : e.1.type = .kTypeMerge ∨ e.1.type = .kTypeMergeIndex)
    (rest : List (ParsedInternalKey × Bytes)) :
    h.MergeUntil (e :: rest) none stopBefore atBottom =
      mergeLoop stopBefore atBottom
        ({ h with keys := [], operands := [], hasCompactionFilterSkipUntil := false }.push e)
        false e.1 none rest := by
  obtain ⟨k, v⟩ := e
  simp only at hmerge
  have hnot : ¬ (k.type ≠ .kTypeMerge ∧ k.type ≠ .kTypeMergeIndex) := by tauto
  simp [MergeUntil, mergeLoop, hplain.running, hplain.noFilter, FilterMerge, hnot, push]

end Loop

/-! ## What the helper holds -/

@[simp] theorem push_userMergeOperator (h : MergeHelper) (e : ParsedInternalKey × Bytes) :
    (h.push e).userMergeOperator = h.userMergeOperator := rfl

theorem foldl_push_keys (h : MergeHelper) (xs : List (ParsedInternalKey × Bytes)) :
    (xs.foldl push h).keys = (xs.map (·.1)).reverse ++ h.keys := by
  induction xs generalizing h with
  | nil => rfl
  | cons e xs ih => simp [ih, push]

theorem foldl_push_operands (h : MergeHelper) (xs : List (ParsedInternalKey × Bytes)) :
    (xs.foldl push h).operands = (xs.map (·.2)).reverse ++ h.operands := by
  induction xs generalizing h with
  | nil => rfl
  | cons e xs ih => simp [ih, push]

@[simp] theorem foldl_push_userComparator (h : MergeHelper) (xs : List (ParsedInternalKey × Bytes)) :
    (xs.foldl push h).userComparator = h.userComparator := by
  induction xs generalizing h with
  | nil => rfl
  | cons e xs ih => simp [ih]

@[simp] theorem foldl_push_userMergeOperator (h : MergeHelper) (xs : List (ParsedInternalKey × Bytes)) :
    (xs.foldl push h).userMergeOperator = h.userMergeOperator := by
  induction xs generalizing h with
  | nil => rfl
  | cons e xs ih => simp [ih]

theorem Plain.foldl_push {h : MergeHelper} (hplain : h.Plain) (xs : List (ParsedInternalKey × Bytes)) :
    (xs.foldl MergeHelper.push h).Plain := by
  induction xs generalizing h with
  | nil => exact hplain
  | cons e xs ih => exact ih (hplain.push e)

theorem outputs_push (h : MergeHelper) (e : ParsedInternalKey × Bytes) :
    (h.push e).outputs = h.outputs ++ [e] := by
  simp [outputs, push]

/-- `MergeOutputIterator` reads the entries collected, in the order they were read. -/
theorem outputs_foldl_push (h : MergeHelper) (xs : List (ParsedInternalKey × Bytes)) :
    (xs.foldl push h).outputs = h.outputs ++ xs := by
  induction xs generalizing h with
  | nil => simp
  | cons e xs ih => rw [List.foldl_cons, ih, outputs_push, List.append_assoc, List.singleton_append]

/-- The operands replaced by one leave one entry, at the key of the newest. -/
theorem outputs_replaceOperands {h : MergeHelper} {k : ParsedInternalKey} (hlast : h.keys.getLast? = some k)
    (orig : ParsedInternalKey) (type : ValueType) (value : Bytes) :
    (h.replaceOperands orig type value).outputs = [({ k with sequence := orig.sequence, type := type }, value)] := by
  simp [replaceOperands, outputs, hlast]

/-- What the end of `MergeUntil` returns when it succeeds: the operands folded
onto nothing, when the whole history was seen; folded into one; or left as they
are. -/
theorem afterLoop_cases {h : MergeHelper} {orig : ParsedInternalKey} {surely : Bool}
    (hops : h.operands ≠ [])
    (hstatus : (h.afterLoop orig surely).1 = Status.OK ∨ (h.afterLoop orig surely).1 = Status.MergeInProgress) :
    (surely = true ∧ ∃ r, h.userMergeOperator.fullMergeV2 orig.userKey none h.operands = some r ∧
        h.afterLoop orig surely = (Status.OK, h.replaceOperands orig .kTypeValue r)) ∨
      (∃ r, h.userMergeOperator.partialMergeMulti orig.userKey h.operands = some r ∧
        h.afterLoop orig surely = (Status.MergeInProgress, h.replaceOperands orig .kTypeMerge r)) ∨
      h.afterLoop orig surely = (Status.MergeInProgress, h) := by
  have hne : h.operands.isEmpty = false := by simpa using hops
  cases surely with
  | true =>
      -- the whole history was seen: a full merge onto nothing
      cases hfull : h.userMergeOperator.fullMergeV2 orig.userKey none h.operands with
      | none =>
          simp [afterLoop, hne, TimedFullMerge, hfull, Status.Corruption, Status.OK,
            Status.MergeInProgress] at hstatus
      | some r =>
          exact .inl ⟨rfl, r, rfl, by simp [afterLoop, hne, TimedFullMerge, hfull]⟩
  | false =>
      -- otherwise a partial merge, when there are enough operands and it succeeds
      right
      by_cases henough : 2 ≤ h.operands.length ∨
          (h.userMergeOperator.allowSingleOperand = true ∧ h.operands.length = 1)
      · cases hpartial : h.userMergeOperator.partialMergeMulti orig.userKey h.operands with
        | none => exact .inr (by simp [afterLoop, hne, henough, hpartial])
        | some r => exact .inl ⟨r, rfl, by simp [afterLoop, hne, henough, hpartial]⟩
      · exact .inr (by simp [afterLoop, hne, henough])

theorem MergeInProgress_ne_OK : Status.MergeInProgress ≠ Status.OK := by decide

/-- The end of the loop, stated for the result it gives: the operands left as
they are, folded into one by a partial merge, or, when the whole history was
seen, folded onto nothing. -/
theorem outcome_of_afterLoop {hP : MergeHelper} {orig : ParsedInternalKey} {surely : Bool}
    {agg : Option CompactionRangeDelAggregator} {rest : List (ParsedInternalKey × Bytes)}
    {r : MergeUntilResult} (hops : hP.operands ≠ []) (hlast : hP.keys.getLast? = some orig)
    (hr : (⟨(hP.afterLoop orig surely).1, (hP.afterLoop orig surely).2, agg, rest⟩ : MergeUntilResult) = r)
    (hstatus : r.status = Status.OK ∨ r.status = Status.MergeInProgress) :
    (r.status = Status.MergeInProgress ∧ r.helper.outputs = hP.outputs ∧ r.input = rest) ∨
      (r.status = Status.MergeInProgress ∧ ∃ pm,
        hP.userMergeOperator.partialMergeMulti orig.userKey hP.operands = some pm ∧
        r.helper.outputs = [({ orig with type := .kTypeMerge }, pm)] ∧ r.input = rest) ∨
      (r.status = Status.OK ∧ surely = true ∧ ∃ v,
        hP.userMergeOperator.fullMergeV2 orig.userKey none hP.operands = some v ∧
        r.helper.outputs = [({ orig with type := .kTypeValue }, v)] ∧ r.input = rest) := by
  subst hr
  rcases afterLoop_cases hops hstatus with ⟨hsurely, v, hfull, heq⟩ | ⟨pm, hpm, heq⟩ | heq
  · exact .inr (.inr ⟨by rw [heq], hsurely, v, hfull, by rw [heq, outputs_replaceOperands hlast], rfl⟩)
  · exact .inr (.inl ⟨by rw [heq], pm, hpm, by rw [heq, outputs_replaceOperands hlast], rfl⟩)
  · exact .inl ⟨by rw [heq], by rw [heq], rfl⟩

theorem TimedFullMerge_eq_ok_iff {op : MergeOperator} {key : Bytes} {base : Option Bytes}
    {operands : List Bytes} (hops : operands ≠ []) {v : Bytes} :
    TimedFullMerge op key base operands = .ok v ↔ op.fullMergeV2 key base operands = some v := by
  have hne : operands.isEmpty = false := by simpa using hops
  cases hfull : op.fullMergeV2 key base operands <;> simp [TimedFullMerge, hne, hfull]

/-- `TimedFullMerge` fails only with `Corruption`. -/
theorem TimedFullMerge_eq_error {op : MergeOperator} {key : Bytes} {base : Option Bytes}
    {operands : List Bytes} {s : Status} (h : TimedFullMerge op key base operands = .error s) :
    s = Status.Corruption "Error: Could not perform merge." := by
  unfold TimedFullMerge at h
  split at h
  · cases h
  · split at h
    · cases h
    · cases h
      rfl

/-- Everything `MergeUntil` can do, when it succeeds, at a merge operand `e₀`
followed by the versions `M ++ T` of its user key and then by other keys,
without a compaction filter or range tombstones: `M` are the operands the loop
collects after `e₀`, and `T` starts at the first version it does not collect.
The operands are left as they are, folded into one by a partial merge, folded
onto nothing when the whole history was seen at the bottom level, or folded
onto the base version that starts `T`. -/
theorem MergeUntil_outcome (h : MergeHelper) (u : Bytes) (e₀ : ParsedInternalKey × Bytes)
    (M T others : List (ParsedInternalKey × Bytes)) (stopBefore : UInt64) (atBottom : Bool)
    (hrefl : ∀ a, h.userComparator a a = .eq)
    (hfilter : h.compactionFilter = none) (hchecker : h.snapshotChecker = none)
    (hu : e₀.1.userKey = u) (hkeyT : ∀ e ∈ T, e.1.userKey = u)
    (hmerge : e₀.1.type = .kTypeMerge ∨ e₀.1.type = .kTypeMergeIndex)
    (hM : ∀ e ∈ M, Absorbed h.userComparator stopBefore u e)
    (hT : ∀ e T', T = e :: T' → ¬ Absorbed h.userComparator stopBefore u e)
    (hothers : ∀ e ∈ others, h.userComparator e.1.userKey u ≠ .eq)
    (r : MergeUntilResult) (hr : h.MergeUntil (e₀ :: M ++ T ++ others) none stopBefore atBottom = r)
    (hstatus : r.status = Status.OK ∨ r.status = Status.MergeInProgress) :
    (r.status = Status.MergeInProgress ∧ r.helper.outputs = e₀ :: M ∧ r.input = T ++ others) ∨
      (r.status = Status.MergeInProgress ∧ ∃ pm,
        h.userMergeOperator.partialMergeMulti u ((e₀ :: M).map (·.2)).reverse = some pm ∧
        r.helper.outputs = [({ e₀.1 with type := .kTypeMerge }, pm)] ∧ r.input = T ++ others) ∨
      (r.status = Status.OK ∧ T = [] ∧ ∃ v,
        h.userMergeOperator.fullMergeV2 u none ((e₀ :: M).map (·.2)).reverse = some v ∧
        r.helper.outputs = [({ e₀.1 with type := .kTypeValue }, v)] ∧ r.input = others) ∨
      (r.status = Status.OK ∧ ∃ e T' v, T = e :: T' ∧
        (e.1.type ≠ .kTypeMerge ∧ e.1.type ≠ .kTypeMergeIndex) ∧
        (stopBefore = 0 ∨ stopBefore < e.1.sequence) ∧
        h.userMergeOperator.fullMergeV2 u (baseOf e) ((e₀ :: M).map (·.2)).reverse = some v ∧
        r.helper.outputs = [({ e₀.1 with type := .kTypeValue }, v)] ∧ r.input = T' ++ others) := by
  -- a shutdown stops at the first entry, with another status
  have hrunning : h.shuttingDown = false := by
    cases hsd : h.shuttingDown with
    | false => rfl
    | true =>
        subst hr
        obtain ⟨k, v⟩ := e₀
        simp [MergeUntil, mergeLoop, hsd, Status.ShutdownInProgress, Status.OK,
          Status.MergeInProgress] at hstatus
  have hplain : h.Plain := ⟨hfilter, hchecker, hrunning⟩
  -- the helper once `e₀` and `M` are collected
  set hP := M.foldl push ({ h with keys := [], operands := [], hasCompactionFilterSkipUntil := false }.push e₀)
    with hhP
  have hplain₀ : ({ h with keys := [], operands := [], hasCompactionFilterSkipUntil := false }.push e₀).Plain :=
    ⟨hfilter, hchecker, hrunning⟩
  have hplainP : hP.Plain := hplain₀.foldl_push M
  have hcmpP : hP.userComparator = h.userComparator := by simp [hhP]
  have hopP : hP.userMergeOperator = h.userMergeOperator := by simp [hhP]
  have hkeysP : hP.keys = (M.map (·.1)).reverse ++ [e₀.1] := by simp [hhP, foldl_push_keys, push]
  have hlastP : hP.keys.getLast? = some e₀.1 := by simp [hkeysP]
  have hkeysne : hP.keys ≠ [] := by simp [hkeysP]
  have hopsP : hP.operands = ((e₀ :: M).map (·.2)).reverse := by
    simp [hhP, foldl_push_operands, push]
  have hopsne : hP.operands ≠ [] := by simp [hopsP]
  have houtP : hP.outputs = e₀ :: M := by
    rw [hhP, outputs_foldl_push, outputs_push]
    simp [outputs]
  have hloop : mergeLoop stopBefore atBottom hP false e₀.1 none (T ++ others) = r := by
    rw [← hr, List.cons_append, List.cons_append, List.append_assoc, MergeUntil_cons hplain hmerge,
      mergeLoop_absorbAll _ M _ hplain₀ (by simp [push]) (fun e he => by simpa [hu] using hM e he)]
  cases T with
  | nil =>
      -- the loop ends at the end of the input or at another user key
      have hend : (⟨(hP.afterLoop e₀.1 atBottom).1, (hP.afterLoop e₀.1 atBottom).2, none, others⟩ :
          MergeUntilResult) = r := by
        rw [← hloop, List.nil_append]
        cases others with
        | nil => rfl
        | cons o os =>
            rw [mergeLoop_other hplainP (by rw [hcmpP, hu]; exact hothers o List.mem_cons_self)]
      rcases outcome_of_afterLoop hopsne hlastP hend hstatus with
        ⟨hs, hout, hin⟩ | ⟨hs, pm, hpm, hout, hin⟩ | ⟨hs, -, v, hv, hout, hin⟩
      · exact .inl ⟨hs, hout.trans houtP, by simpa using hin⟩
      · exact .inr (.inl ⟨hs, pm, by rwa [hopP, hopsP, hu] at hpm, hout, by simpa using hin⟩)
      · exact .inr (.inr (.inl ⟨hs, rfl, v, by rwa [hopP, hopsP, hu] at hv, hout, hin⟩))
  | cons e T' =>
      have hke : e.1.userKey = u := hkeyT e List.mem_cons_self
      have hkeq : hP.userComparator e.1.userKey e₀.1.userKey = .eq := by rw [hcmpP, hke, hu, hrefl]
      have hnot := hT e T' rfl
      by_cases hstop : 0 < stopBefore ∧ e.1.sequence ≤ stopBefore
      · -- a version the previous snapshot sees: the loop ends there
        rw [List.cons_append, mergeLoop_stop hplainP hkeq hstop.1 hstop.2] at hloop
        rcases outcome_of_afterLoop hopsne hlastP hloop hstatus with
          ⟨hs, hout, hin⟩ | ⟨hs, pm, hpm, hout, hin⟩ | ⟨-, hsurely, -⟩
        · exact .inl ⟨hs, hout.trans houtP, hin⟩
        · exact .inr (.inl ⟨hs, pm, by rwa [hopP, hopsP, hu] at hpm, hout, hin⟩)
        · exact absurd hsurely Bool.false_ne_true
      · -- a base version: the operands are folded onto it
        have hvis : stopBefore = 0 ∨ stopBefore < e.1.sequence := by
          by_cases h0 : stopBefore = 0
          · exact .inl h0
          · exact .inr (UInt64.not_le.mp fun hle =>
              hstop ⟨UInt64.pos_iff_ne_zero.mpr h0, hle⟩)
        have hbase : e.1.type ≠ .kTypeMerge ∧ e.1.type ≠ .kTypeMergeIndex := by
          by_contra hmerge'
          exact hnot ⟨by rw [hke, hrefl], by tauto, hvis⟩
        cases hres : TimedFullMerge hP.userMergeOperator e.1.userKey (baseOf e) hP.operands with
        | error s =>
            rw [List.cons_append, (mergeLoop_base hplainP hkeysne hkeq hstop hbase _).2 s hres] at hloop
            subst hloop
            rw [TimedFullMerge_eq_error hres] at hstatus
            simp [Status.Corruption, Status.OK, Status.MergeInProgress] at hstatus
        | ok v =>
            rw [List.cons_append, (mergeLoop_base hplainP hkeysne hkeq hstop hbase _).1 v hres] at hloop
            subst hloop
            rw [TimedFullMerge_eq_ok_iff hopsne, hopP, hopsP, hke] at hres
            exact .inr (.inr (.inr ⟨rfl, e, T', v, rfl, hbase, hvis, hres,
              outputs_replaceOperands hlastP _ _ _, rfl⟩))

/-- A run of entries splits where the loop stops collecting operands. -/
theorem exists_absorbed_prefix (ucmp : Comparator) (stopBefore : UInt64) (u : Bytes) :
    ∀ run : List (ParsedInternalKey × Bytes), ∃ M T, run = M ++ T ∧
      (∀ e ∈ M, Absorbed ucmp stopBefore u e) ∧ ∀ e T', T = e :: T' → ¬ Absorbed ucmp stopBefore u e
  | [] => ⟨[], [], rfl, by simp, by simp⟩
  | x :: xs => by
      by_cases hx : Absorbed ucmp stopBefore u x
      · obtain ⟨M, T, rfl, hM, hT⟩ := exists_absorbed_prefix ucmp stopBefore u xs
        exact ⟨x :: M, T, rfl, by simpa [hx] using hM, hT⟩
      · exact ⟨[], x :: xs, rfl, by simp, fun e T' h => (List.cons.inj h).1 ▸ hx⟩

/-- Outputs whose keys repeat, in order, the user keys and sequence numbers of
some of the entries collected inherit their order and their bounds. -/
theorem outputs_keys_of_sublist {outs xs : List (ParsedInternalKey × Bytes)} {u : Bytes}
    {top stopBefore : UInt64}
    (hsub : (outs.map fun e => (e.1.userKey, e.1.sequence)).Sublist
      (xs.map fun e => (e.1.userKey, e.1.sequence)))
    (hdesc : (xs.map (·.1)).Pairwise fun a b => b.sequence < a.sequence)
    (hxs : ∀ e ∈ xs, e.1.userKey = u ∧ e.1.sequence ≤ top ∧ (0 < stopBefore → stopBefore < e.1.sequence)) :
    (outs.map (·.1)).Pairwise (fun a b => b.sequence < a.sequence) ∧
      ∀ k ∈ outs.map (·.1), k.userKey = u ∧ k.sequence ≤ top ∧ (0 < stopBefore → stopBefore < k.sequence) := by
  have hdesc' : (xs.map fun e => (e.1.userKey, e.1.sequence)).Pairwise fun a b => b.2 < a.2 := by
    simpa [List.pairwise_map] using hdesc
  refine ⟨by simpa [List.pairwise_map] using hdesc'.sublist hsub, ?_⟩
  intro k hk
  obtain ⟨o, ho, rfl⟩ := List.mem_map.mp hk
  obtain ⟨e, he, hkey⟩ := List.mem_map.mp (hsub.subset (List.mem_map_of_mem ho))
  simp only [Prod.mk.injEq] at hkey
  rw [← hkey.1, ← hkey.2]
  exact hxs e he

/-- Merge collapsing is transparent to the reads at the two ends of the stripe.
Take a merge operand `e₀` above `stop_before`, the older versions `run` of its
user key newest first, and then entries of other user keys; no compaction
filter, no range tombstones, and a merge operator whose partial merge folds
operands the way its full merge does.  When `MergeUntil` returns `OK` or
`MergeInProgress`, the entries it outputs followed by those it leaves give every
read at or above `e₀` and every read at or below a non-zero `stop_before` the
same result as the input; the output keys are of the user key, newest first,
not above `e₀`, and above a non-zero `stop_before`; and `OK` means one put at
`e₀`'s sequence number. -/
theorem MergeUntil_collapses (h : MergeHelper) (u : Bytes) (e₀ : ParsedInternalKey × Bytes)
    (run others : List (ParsedInternalKey × Bytes)) (stopBefore : UInt64) (atBottom : Bool)
    (hrefl : ∀ a, h.userComparator a a = .eq)
    (hfilter : h.compactionFilter = none) (hchecker : h.snapshotChecker = none)
    (hassoc : ∀ key base pre ops post r, h.userMergeOperator.partialMergeMulti key ops = some r →
      h.userMergeOperator.fullMergeV2 key base (pre ++ r :: post) =
        h.userMergeOperator.fullMergeV2 key base (pre ++ ops ++ post))
    (hkey : ∀ e ∈ e₀ :: run, e.1.userKey = u)
    (hdesc : (e₀ :: run).Pairwise fun a b => b.1.sequence < a.1.sequence)
    (hmerge : e₀.1.type = .kTypeMerge ∨ e₀.1.type = .kTypeMergeIndex)
    (habove : stopBefore < e₀.1.sequence)
    (hothers : ∀ e ∈ others, h.userComparator e.1.userKey u ≠ .eq)
    (r : MergeUntilResult) (hr : h.MergeUntil (e₀ :: run ++ others) none stopBefore atBottom = r)
    (hstatus : r.status = Status.OK ∨ r.status = Status.MergeInProgress) :
    (∀ s, e₀.1.sequence ≤ s ∨ (0 < stopBefore ∧ s ≤ stopBefore) →
      readFrom h.userMergeOperator h.userComparator u s [] (r.helper.outputs ++ r.input) =
        readFrom h.userMergeOperator h.userComparator u s [] (e₀ :: run ++ others)) ∧
    (r.helper.outputs.map (·.1)).Pairwise (fun a b => b.sequence < a.sequence) ∧
    (∀ k ∈ r.helper.outputs.map (·.1), k.userKey = u ∧ k.sequence ≤ e₀.1.sequence ∧
      (0 < stopBefore → stopBefore < k.sequence)) ∧
    (r.status = Status.OK → ∃ v, r.helper.outputs = [({ e₀.1 with type := .kTypeValue }, v)]) := by
  obtain ⟨M, T, rfl, hM, hT⟩ := exists_absorbed_prefix h.userComparator stopBefore u run
  have hu : e₀.1.userKey = u := hkey e₀ List.mem_cons_self
  have hkeyT : ∀ e ∈ T, e.1.userKey = u := fun e he => hkey e (by simp [he])
  have holder : ∀ e ∈ M ++ T, e.1.sequence < e₀.1.sequence := fun e he => List.rel_of_pairwise_cons hdesc he
  -- the entries collected: of the key, not above `e₀`, above the previous snapshot
  have hxs : ∀ e ∈ e₀ :: M, e.1.userKey = u ∧ e.1.sequence ≤ e₀.1.sequence ∧
      (0 < stopBefore → stopBefore < e.1.sequence) := by
    intro e he
    rcases List.mem_cons.mp he with rfl | he
    · exact ⟨hu, UInt64.le_refl _, fun _ => habove⟩
    · exact ⟨hkey e (by simp [he]), UInt64.le_of_lt (holder e (List.mem_append_left T he)),
        fun hpos => (hM e he).2.2.resolve_left (UInt64.pos_iff_ne_zero.mp hpos)⟩
  have hdescM : ((e₀ :: M).map (·.1)).Pairwise fun a b => b.sequence < a.sequence := by
    rw [List.pairwise_map]
    exact hdesc.sublist ((List.sublist_append_left M T).cons_cons e₀)
  -- a read at or above `e₀` collects all of them; one at or below `stop_before` none
  have htopM : ∀ s, e₀.1.sequence ≤ s → ∀ rest,
      readFrom h.userMergeOperator h.userComparator u s [] ((e₀ :: M) ++ rest) =
        readFrom h.userMergeOperator h.userComparator u s ((e₀ :: M).map (·.2)).reverse rest := by
    intro s hs rest
    have hvis : ∀ e ∈ e₀ :: M, h.userComparator e.1.userKey u = .eq ∧ e.1.sequence ≤ s ∧
        (e.1.type = .kTypeMerge ∨ e.1.type = .kTypeMergeIndex) := by
      intro e he
      refine ⟨by rw [(hxs e he).1, hrefl], UInt64.le_trans (hxs e he).2.1 hs, ?_⟩
      rcases List.mem_cons.mp he with rfl | he
      · exact hmerge
      · exact (hM e he).2.1
    rw [readFrom_append_of_merges hvis, List.append_nil]
  have hlowM : ∀ s, 0 < stopBefore → s ≤ stopBefore → ∀ rest,
      readFrom h.userMergeOperator h.userComparator u s [] ((e₀ :: M) ++ rest) =
        readFrom h.userMergeOperator h.userComparator u s [] rest := fun s hpos hs _ =>
    readFrom_append_of_invisible fun e he => .inr (UInt64.lt_of_le_of_lt hs ((hxs e he).2.2 hpos))
  -- a single output at `e₀`'s key
  have hsubOne : ∀ (t : ValueType) (x : Bytes),
      ([({ e₀.1 with type := t }, x)].map fun e => (e.1.userKey, e.1.sequence)).Sublist
        ((e₀ :: M).map fun e => (e.1.userKey, e.1.sequence)) := fun t x => by
    simp
  have hreadOne : ∀ s, e₀.1.sequence ≤ s → ∀ v rest,
      readFrom h.userMergeOperator h.userComparator u s [] (({ e₀.1 with type := .kTypeValue }, v) :: rest) =
        some (some v) := by
    intro s hs v rest
    rw [readFrom_cons_base (e := ({ e₀.1 with type := .kTypeValue }, v)) (by simp [hu, hrefl]) hs (by simp)]
    simp [baseOf, foldOnto]
  suffices hcase :
      (r.helper.outputs.map fun e => (e.1.userKey, e.1.sequence)).Sublist
        ((e₀ :: M).map fun e => (e.1.userKey, e.1.sequence)) ∧
      (∀ s, e₀.1.sequence ≤ s →
        readFrom h.userMergeOperator h.userComparator u s [] (r.helper.outputs ++ r.input) =
          readFrom h.userMergeOperator h.userComparator u s [] (e₀ :: M ++ T ++ others)) ∧
      (∀ s, 0 < stopBefore → s ≤ stopBefore →
        readFrom h.userMergeOperator h.userComparator u s [] (e₀ :: M ++ T ++ others) =
          readFrom h.userMergeOperator h.userComparator u s [] r.input) ∧
      (r.status = Status.OK → ∃ v, r.helper.outputs = [({ e₀.1 with type := .kTypeValue }, v)]) by
    obtain ⟨hsub, htop, hlow, hok⟩ := hcase
    obtain ⟨hpair, hbounds⟩ := outputs_keys_of_sublist hsub hdescM hxs
    refine ⟨fun s hs => ?_, hpair, hbounds, hok⟩
    rw [← List.cons_append]
    rcases hs with hs | ⟨hpos, hs⟩
    · exact htop s hs
    · -- the outputs are above the read too
      have hinvis : ∀ o ∈ r.helper.outputs, h.userComparator o.1.userKey u ≠ .eq ∨ s < o.1.sequence :=
        fun o ho => .inr (UInt64.lt_of_le_of_lt hs ((hbounds o.1 (List.mem_map_of_mem ho)).2.2 hpos))
      rw [readFrom_append_of_invisible hinvis, hlow s hpos hs]
  rw [← List.cons_append] at hr
  rcases MergeUntil_outcome h u e₀ M T others stopBefore atBottom hrefl hfilter hchecker hu hkeyT hmerge
      hM hT hothers r hr hstatus with
    ⟨hs, hout, hin⟩ | ⟨hs, pm, hpm, hout, hin⟩ | ⟨-, rfl, v, hv, hout, hin⟩ |
      ⟨-, e, T', v, rfl, hbase, hvis, hv, hout, hin⟩
  · -- the operands are left as they are
    refine ⟨by rw [hout], fun s _ => by rw [hout, hin, List.append_assoc], fun s hpos hs => ?_,
      fun hok => absurd (hs ▸ hok) MergeInProgress_ne_OK⟩
    rw [List.append_assoc, hlowM s hpos hs, hin]
  · -- the operands are folded into one merge operand
    refine ⟨by rw [hout]; exact hsubOne _ _, fun s hs => ?_, fun s hpos hs => ?_,
      fun hok => absurd (hs ▸ hok) MergeInProgress_ne_OK⟩
    · have hone : ∀ o ∈ [({ e₀.1 with type := .kTypeMerge }, pm)],
          h.userComparator o.1.userKey u = .eq ∧ o.1.sequence ≤ s ∧
            (o.1.type = .kTypeMerge ∨ o.1.type = .kTypeMergeIndex) := by
        simp [hu, hrefl, hs]
      have hfold : ∀ base pre, h.userMergeOperator.fullMergeV2 u base (pre ++ [pm]) =
          h.userMergeOperator.fullMergeV2 u base (pre ++ ((e₀ :: M).map (·.2)).reverse) := by
        intro base pre
        simpa using hassoc u base pre _ [] pm hpm
      have hcongr : readFrom h.userMergeOperator h.userComparator u s ([] ++ [pm]) (T ++ others) =
          readFrom h.userMergeOperator h.userComparator u s ([] ++ ((e₀ :: M).map (·.2)).reverse)
            (T ++ others) :=
        readFrom_congr_operands (by simp) (by simp) hfold [] (T ++ others)
      rw [hout, hin, readFrom_append_of_merges hone, List.append_assoc, htopM s hs]
      simpa using hcongr
    · rw [List.append_assoc, hlowM s hpos hs, hin]
  · -- the whole history was seen at the bottom level: one put of the full merge
    refine ⟨by rw [hout]; exact hsubOne _ _, fun s hs => ?_, fun s hpos hs => ?_, fun _ => ⟨v, hout⟩⟩
    · have hinvis : ∀ o ∈ others, h.userComparator o.1.userKey u ≠ .eq ∨ s < o.1.sequence :=
        fun o ho => .inl (hothers o ho)
      rw [hout, hin, List.singleton_append, hreadOne s hs, List.append_nil, htopM s hs,
        ← List.append_nil others, readFrom_append_of_invisible hinvis, readFrom,
        foldOnto_of_fullMergeV2 (by simp) hv]
    · rw [List.append_assoc, hlowM s hpos hs, hin, List.nil_append]
  · -- a base version: one put of the full merge onto it, which is consumed
    refine ⟨by rw [hout]; exact hsubOne _ _, fun s hs => ?_, fun s hpos hs => ?_, fun _ => ⟨v, hout⟩⟩
    · have hke : h.userComparator e.1.userKey u = .eq := by
        rw [hkeyT e List.mem_cons_self, hrefl]
      have hse : e.1.sequence ≤ s :=
        UInt64.le_trans (UInt64.le_of_lt (holder e (by simp))) hs
      rw [hout, hin, List.singleton_append, hreadOne s hs, List.append_assoc, htopM s hs,
        List.cons_append, readFrom_cons_base hke hse hbase, foldOnto_of_fullMergeV2 (by simp) hv]
    · have hinvis : ∀ o ∈ [e], h.userComparator o.1.userKey u ≠ .eq ∨ s < o.1.sequence := by
        have hsb : stopBefore < e.1.sequence := hvis.resolve_left (UInt64.pos_iff_ne_zero.mp hpos)
        simpa using .inr (UInt64.lt_of_le_of_lt hs hsb)
      rw [List.append_assoc, hlowM s hpos hs, List.cons_append, ← List.singleton_append,
        readFrom_append_of_invisible hinvis, hin]

/-- A merge operator that appends the operands to the value, oldest first. -/
def concatMergeOperator : MergeOperator where
  fullMergeV2 _ base operands := some (base.getD [] ++ operands.flatten)
  partialMergeMulti _ operands := some operands.flatten
  allowSingleOperand := false

theorem concatMergeOperator_assoc (key : Bytes) (base : Option Bytes) (pre ops post : List Bytes)
    (r : Bytes) (h : concatMergeOperator.partialMergeMulti key ops = some r) :
    concatMergeOperator.fullMergeV2 key base (pre ++ r :: post) =
      concatMergeOperator.fullMergeV2 key base (pre ++ ops ++ post) := by
  simp only [concatMergeOperator, Option.some.injEq] at h ⊢
  simp [h]

/-- A helper over the bytewise comparator and the appending operator, with no
filter and no snapshot checker. -/
def concatHelper : MergeHelper where
  userComparator := bytewiseCompare
  userMergeOperator := concatMergeOperator
  compactionFilter := none
  shuttingDown := false
  latestSnapshot := 0
  snapshotChecker := none
  keys := []
  operands := []
  hasCompactionFilterSkipUntil := false
  compactionFilterSkipUntil := []

/-- Two operands of key `[1]` over a put, before an entry of key `[2]`: the
operands are folded onto the put, and every read at or above the newest operand
finds the same value. -/
theorem concat_operands_fold_onto_put :
    (concatHelper.MergeUntil ([(⟨[1], 10, .kTypeMerge⟩, [120]), (⟨[1], 8, .kTypeMerge⟩, [121]),
        (⟨[1], 6, .kTypeValue⟩, [97])] ++ [(⟨[2], 9, .kTypeValue⟩, [98])]) none 0 false).helper.outputs =
      [(⟨[1], 10, .kTypeValue⟩, [97, 121, 120])] ∧
    ∀ s, 10 ≤ s →
      readFrom concatMergeOperator bytewiseCompare [1] s []
          ((concatHelper.MergeUntil ([(⟨[1], 10, .kTypeMerge⟩, [120]), (⟨[1], 8, .kTypeMerge⟩, [121]),
            (⟨[1], 6, .kTypeValue⟩, [97])] ++ [(⟨[2], 9, .kTypeValue⟩, [98])]) none 0 false).helper.outputs ++
            (concatHelper.MergeUntil ([(⟨[1], 10, .kTypeMerge⟩, [120]), (⟨[1], 8, .kTypeMerge⟩, [121]),
              (⟨[1], 6, .kTypeValue⟩, [97])] ++ [(⟨[2], 9, .kTypeValue⟩, [98])]) none 0 false).input) =
        readFrom concatMergeOperator bytewiseCompare [1] s []
          ([(⟨[1], 10, .kTypeMerge⟩, [120]), (⟨[1], 8, .kTypeMerge⟩, [121]),
            (⟨[1], 6, .kTypeValue⟩, [97])] ++ [(⟨[2], 9, .kTypeValue⟩, [98])]) := by
  obtain ⟨hread, -, -, -⟩ := MergeUntil_collapses concatHelper [1] (⟨[1], 10, .kTypeMerge⟩, [120])
    [(⟨[1], 8, .kTypeMerge⟩, [121]), (⟨[1], 6, .kTypeValue⟩, [97])] [(⟨[2], 9, .kTypeValue⟩, [98])] 0 false
    (fun _ => show bytewiseCompare _ _ = .eq from Std.ReflCmp.compare_self) rfl rfl concatMergeOperator_assoc (by decide) (by decide)
    (.inl rfl) (by decide) (by decide) _ rfl (by decide +kernel)
  exact ⟨by decide +kernel, fun s hs => hread s (.inl hs)⟩

/-- Between `stop_before` and the newest operand a read can find something else:
an operand over a put, at the top of the stripe with no snapshot below, becomes
one put, and a read at 7, which saw the old put, now finds nothing. -/
theorem merge_hides_older_put :
    (concatHelper.MergeUntil [(⟨[1], 10, .kTypeMerge⟩, [120]), (⟨[1], 6, .kTypeValue⟩, [97])]
        none 0 false).status = Status.OK ∧
    readFrom concatMergeOperator bytewiseCompare [1] 7 []
        ((concatHelper.MergeUntil [(⟨[1], 10, .kTypeMerge⟩, [120]), (⟨[1], 6, .kTypeValue⟩, [97])]
          none 0 false).helper.outputs ++
          (concatHelper.MergeUntil [(⟨[1], 10, .kTypeMerge⟩, [120]), (⟨[1], 6, .kTypeValue⟩, [97])]
            none 0 false).input) = some none ∧
    readFrom concatMergeOperator bytewiseCompare [1] 7 []
        [(⟨[1], 10, .kTypeMerge⟩, [120]), (⟨[1], 6, .kTypeValue⟩, [97])] = some (some [97]) := by
  decide +kernel

end MergeHelper

end HapDB
