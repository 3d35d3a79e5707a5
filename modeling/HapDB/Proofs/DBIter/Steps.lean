import HapDB.Db.DBIter
import HapDB.Proofs.DBIter.UserView

/-!
# The user's iterator, one round at a time

A forward read (`ForwardRead`) is the user's iterator over an internal iterator
that holds sorted entries, read with a merge operator, no range tombstone, no
read callback and no start sequence number.  No forward call writes the fields
that make the read (`DBIter.setting`), and under them every step of the model
is a step over the entries: the position of the internal iterator is an index
into them, `ParseKey` gives the entry there, `ShouldDelete` answers `false`, and
a seek to an encoded key lands at the count of entries below it.

What the walk of `FindNextUserEntryInternal` still has to show is the view of
the entries from the position on, past the versions of the skipped key when it
skips (`ForwardRead.ahead`).  A round either answers with the head of that view
(`Answers`), or goes on from a state with the same view ahead and a smaller
measure: twice the entries ahead, and one more while the reseek is unspent
(`round_advance`).  The loop of `MergeValuesNewToOld` collects the operands of
the key and merges them as a point lookup folds its versions
(`mergeLoop_merged`).
-/

namespace HapDB

namespace DBIter

/-- The entries as the internal iterator holds them, each key encoded by
`AppendInternalKey`. -/
def encode (es : List (ParsedInternalKey × Bytes)) : List (InternalKey × Bytes) :=
  es.map fun e => (⟨appendInternalKey [] e.1⟩, e.2)

/-- The fields of the iterator that no forward call writes. -/
structure Setting where
  ucmp : Comparator
  mergeOperator : Option MergeOperator
  entries : List (InternalKey × Bytes)
  sequence : UInt64
  separateHelper : Option (Bytes → UInt64 → Bytes → Bytes)
  maxSkip : UInt64
  maxSkippableInternalKeys : UInt64
  iterateLowerBound : Option Bytes
  iterateUpperBound : Option Bytes
  readCallback : Option ReadCallback
  startSeqnum : UInt64
  tombstones : List TruncatedRangeDelIterator

/-- The setting of an iterator. -/
def setting (it : DBIter) : Setting where
  ucmp := it.ucmp
  mergeOperator := it.mergeOperator
  entries := it.iter.entries
  sequence := it.sequence
  separateHelper := it.separateHelper
  maxSkip := it.maxSkip
  maxSkippableInternalKeys := it.maxSkippableInternalKeys
  iterateLowerBound := it.iterateLowerBound
  iterateUpperBound := it.iterateUpperBound
  readCallback := it.readCallback
  startSeqnum := it.startSeqnum
  tombstones := it.rangeDelAgg.rep.iters

/-- Where `Next` resumes: past the entry shown, unless a merge has already
moved the position past the versions it read. -/
def resume (it : DBIter) : ℕ := if it.currentEntryIsMerged then it.iter.pos else it.iter.pos + 1

theorem resume_of_merged {it : DBIter} (h : it.currentEntryIsMerged = true) : it.resume = it.iter.pos := by
  simp [resume, h]

theorem resume_of_not_merged {it : DBIter} (h : it.currentEntryIsMerged = false) :
    it.resume = it.iter.pos + 1 := by
  simp [resume, h]

@[simp] theorem GetUserKey_SetUserKey (k : Bytes) : (IterKey.SetUserKey k).GetUserKey = k := rfl

@[simp] theorem GetUserKey_SetInternalKey (k : ParsedInternalKey) :
    (IterKey.SetInternalKey k).GetUserKey = k.userKey :=
  userKey_appendInternalKey k

end DBIter

namespace ReadRangeDelAggregator

/-- With no range tombstone the aggregator deletes nothing and does not move. -/
theorem ShouldDelete_of_nil {agg : ReadRangeDelAggregator} (h : agg.rep.iters = []) (ucmp : Comparator)
    (ikey : ParsedInternalKey) (mode : RangeDelPositioningMode) :
    agg.ShouldDelete ucmp ikey mode = (false, agg) := by
  simp [ShouldDelete, StripeRep.ShouldDelete, StripeRep.IsEmpty, h]

end ReadRangeDelAggregator

/-- The records of a memtable or a data block: a deletion, a value or a merge
operand, each in one of its two forms. -/
theorem ValueType.cases_of_isValueType {t : ValueType} (h : t.IsValueType = true) :
    (t = .kTypeDeletion ∨ t = .kTypeSingleDeletion) ∨ (t = .kTypeValue ∨ t = .kTypeValueIndex) ∨
      (t = .kTypeMerge ∨ t = .kTypeMergeIndex) := by
  cases t <;> revert h <;> decide

open DBIter UserView

/-- A forward read: the user comparator and merge operator, the entries of the
internal iterator, the snapshot, the separate helper, `max_skip_` and the two
bounds of the read options. -/
structure ForwardRead where
  ucmp : Comparator
  op : MergeOperator
  es : List (ParsedInternalKey × Bytes)
  sequence : UInt64
  sep : Option (Bytes → UInt64 → Bytes → Bytes)
  maxSkip : UInt64
  lowerBound : Option Bytes
  upperBound : Option Bytes

namespace ForwardRead

variable (R : ForwardRead)

/-- The setting of the user's iterator over the read: no read callback, no
start sequence number, no limit on the keys skipped and no range tombstone. -/
def setting : DBIter.Setting where
  ucmp := R.ucmp
  mergeOperator := some R.op
  entries := encode R.es
  sequence := R.sequence
  separateHelper := R.sep
  maxSkip := R.maxSkip
  maxSkippableInternalKeys := 0
  iterateLowerBound := R.lowerBound
  iterateUpperBound := R.upperBound
  readCallback := none
  startSeqnum := 0
  tombstones := []

/-- The entries are sorted by internal key, each a value, merge or deletion
record whose sequence number fits in 56 bits, and so does the snapshot. -/
structure WF : Prop where
  sorted : Sorted R.ucmp R.es
  sequence_le : ∀ e ∈ R.es, e.1.sequence ≤ kMaxSequenceNumber
  isValueType : ∀ e ∈ R.es, e.1.type.IsValueType = true
  snapshot_le : R.sequence ≤ kMaxSequenceNumber

/-- The view of entries below the upper bound. -/
def view (l : List (ParsedInternalKey × Bytes)) : List (Bytes × Except Status Bytes) :=
  belowBound R.ucmp R.upperBound (scan R.ucmp R.op R.sequence R.sep l)

/-- The entries from position `p` on, past the versions of `u` when skipping. -/
def pending (p : ℕ) (skipping : Bool) (u : Bytes) : List (ParsedInternalKey × Bytes) :=
  if skipping then (R.es.drop p).dropWhile fun e => R.ucmp e.1.userKey u == .eq else R.es.drop p

/-- What the walk still has to show from the state `it`. -/
def ahead (it : DBIter) (skipping : Bool) : List (Bytes × Except Status Bytes) :=
  R.view (R.pending it.iter.pos skipping it.savedKey.GetUserKey)

/-- The iterator is ready for `Next` after showing `k`: the entries from where
`Next` resumes are not below `k`, and those past `k` show `rest`. -/
structure Ready (it : DBIter) (k : Bytes) (rest : List (Bytes × Except Status Bytes)) : Prop where
  savedKey_eq : it.savedKey = IterKey.SetUserKey k
  pos_lt : it.currentEntryIsMerged = false → it.iter.pos < R.es.length
  resume_le : it.resume ≤ R.es.length
  above : ∀ x ∈ R.es.drop (it.resume), (R.ucmp k x.1.userKey).isLE
  rest_eq : R.view (R.pending (it.resume) true k) = rest

/-- The iterator shows the head of `V`: invalid with an `OK` status when `V` is
empty, the key and value of a value, invalid with the status of a failed
merge; and it keeps the setting. -/
def Answers (it : DBIter) (V : List (Bytes × Except Status Bytes)) : Prop :=
  it.setting = R.setting ∧
    match V with
    | [] => it.valid = false ∧ it.status = Status.OK
    | (k, .ok v) :: rest =>
        it.valid = true ∧ it.key = k ∧ it.value = v ∧ it.status = Status.OK ∧ R.Ready it k rest
    | (_, .error s) :: _ => it.valid = false ∧ it.status = s

/-- The state of the walk between rounds: the setting, an `OK` status, no
merge yet, and when skipping, no entry ahead below the skipped key. -/
structure Walk (it : DBIter) (skipping : Bool) : Prop where
  setting_eq : it.setting = R.setting
  status_eq : it.status = Status.OK
  not_merged : it.currentEntryIsMerged = false
  above : skipping = true → ∀ x ∈ R.es.drop it.iter.pos, (R.ucmp it.savedKey.GetUserKey x.1.userKey).isLE

/-- The measure of the walk: twice the entries ahead, and one more while the
reseek is unspent. -/
def walkMeasure (p : ℕ) (reseekDone : Bool) : ℕ := 2 * (R.es.length - p) + if reseekDone then 0 else 1

/-- What one round does: it answers with what is ahead, or, once advanced, it
goes on from a walk with the same view ahead and a smaller measure. -/
def RoundOutcome (it : DBIter) (skipping reseekDone : Bool) : Round → Prop
  | .ret _ it' => R.Answers it' (R.ahead it skipping)
  | .skip it' skipping' numSkipped' reseekDone' =>
      let a := it'.advance skipping' numSkipped' reseekDone'
      R.Walk a.1 skipping' ∧ R.ahead a.1 skipping' = R.ahead it skipping ∧
        R.walkMeasure a.1.iter.pos a.2.2 < R.walkMeasure it.iter.pos reseekDone

/-- The positions `q` the merge loop may leave for the key `u`, started at `p`:
no earlier, inside the entries, and with the same entries past `u`. -/
def Past (p : ℕ) (u : Bytes) (q : ℕ) : Prop :=
  p ≤ q ∧ q ≤ R.es.length ∧ R.pending q true u = R.pending p true u

/-- What the merge loop for the key `u`, started at `p` from `it`, leaves in
`it'` for the answer `answer`. -/
structure Merged (p : ℕ) (u : Bytes) (it : DBIter) (answer : Except Status Bytes) (it' : DBIter) :
    Prop where
  setting_eq : it'.setting = it.setting
  savedKey_eq : it'.savedKey = it.savedKey
  merged_eq : it'.currentEntryIsMerged = it.currentEntryIsMerged
  of_ok : ∀ v, answer = .ok v →
    it'.valid = it.valid ∧ it'.status = it.status ∧ it'.value = v ∧ R.Past p u it'.iter.pos
  of_error : ∀ s, answer = .error s → it'.valid = false ∧ it'.status = s

/-! ## The fields of the setting -/

section Fields

variable {R} {it : DBIter} (hit : it.setting = R.setting)
include hit

theorem setting_ucmp : it.ucmp = R.ucmp := congrArg Setting.ucmp hit

theorem setting_mergeOperator : it.mergeOperator = some R.op := congrArg Setting.mergeOperator hit

theorem setting_entries : it.iter.entries = encode R.es := congrArg Setting.entries hit

theorem setting_sequence : it.sequence = R.sequence := congrArg Setting.sequence hit

theorem setting_separateHelper : it.separateHelper = R.sep := congrArg Setting.separateHelper hit

theorem setting_maxSkippable : it.maxSkippableInternalKeys = 0 :=
  congrArg Setting.maxSkippableInternalKeys hit

theorem setting_lowerBound : it.iterateLowerBound = R.lowerBound := congrArg Setting.iterateLowerBound hit

theorem setting_upperBound : it.iterateUpperBound = R.upperBound := congrArg Setting.iterateUpperBound hit

theorem setting_readCallback : it.readCallback = none := congrArg Setting.readCallback hit

theorem setting_startSeqnum : it.startSeqnum = 0 := congrArg Setting.startSeqnum hit

theorem setting_tombstones : it.rangeDelAgg.rep.iters = [] := congrArg Setting.tombstones hit

end Fields

/-! ## The calls under the setting -/

section Calls

variable {R} {it : DBIter} (hit : it.setting = R.setting)
include hit

theorem iter_valid_iff : it.iter.valid = true ↔ it.iter.pos < R.es.length := by
  simp [Cursor.valid, setting_entries hit, encode]

/-- The entry at the position, encoded. -/
theorem iter_entry {e : ParsedInternalKey × Bytes} {rest : List (ParsedInternalKey × Bytes)}
    (he : R.es.drop it.iter.pos = e :: rest) : it.iter.entry = (⟨appendInternalKey [] e.1⟩, e.2) := by
  have h : (encode R.es)[it.iter.pos]? = some (⟨appendInternalKey [] e.1⟩, e.2) := by
    rw [← List.head?_drop, encode, ← List.map_drop, he]
    rfl
  simp [Cursor.entry, setting_entries hit, List.getD_eq_getElem?_getD, h]

theorem ParseKey_eq (hR : R.WF) {e : ParsedInternalKey × Bytes} {rest : List (ParsedInternalKey × Bytes)}
    (he : R.es.drop it.iter.pos = e :: rest) : it.ParseKey = some e.1 := by
  have hmem : e ∈ R.es := List.mem_of_mem_drop (he ▸ List.mem_cons_self)
  rw [ParseKey, Cursor.key, iter_entry hit he]
  exact parseInternalKey_appendInternalKey e.1 (hR.sequence_le e hmem)
    (by simp [ValueType.IsExtendedValueType, hR.isValueType e hmem])

theorem iter_value {e : ParsedInternalKey × Bytes} {rest : List (ParsedInternalKey × Bytes)}
    (he : R.es.drop it.iter.pos = e :: rest) : it.iter.value = e.2 := by
  rw [Cursor.value, iter_entry hit he]

/-- With no limit on the keys skipped, the count only goes up. -/
theorem TooManyInternalKeysSkipped_eq :
    it.TooManyInternalKeysSkipped true =
      (false, { it with numInternalKeysSkipped := it.numInternalKeysSkipped + 1 }) := by
  simp [TooManyInternalKeysSkipped, setting_maxSkippable hit]

theorem IsVisible_eq (s : UInt64) : it.IsVisible s = decide (s ≤ R.sequence) := by
  simp [DBIter.IsVisible, MaxVisibleSequenceNumber, setting_readCallback hit, setting_sequence hit]

theorem key_eq : it.key = it.savedKey.GetUserKey := by
  simp [DBIter.key, setting_startSeqnum hit]

/-- A seek to an encoded key lands at the count of entries below it. -/
theorem seek_pos (hR : R.WF) {k : ParsedInternalKey} (hk : k.sequence ≤ kMaxSequenceNumber) :
    (it.iter.seek (internalKeyCompare it.ucmp) ⟨appendInternalKey [] k⟩).pos =
      R.es.countP fun e => parsedInternalKeyCompare R.ucmp e.1 k == .lt := by
  simp only [Cursor.seek, setting_entries hit, setting_ucmp hit, encode, List.countP_map]
  refine List.countP_congr fun e he => ?_
  simp [internalKeyCompare_appendInternalKey R.ucmp (hR.sequence_le e he) hk]

/-- A value record read at its user key gives the put of what `GetValue` reads. -/
theorem typedVersion_value {e : ParsedInternalKey × Bytes} {rest : List (ParsedInternalKey × Bytes)}
    (he : R.es.drop it.iter.pos = e :: rest) (hkey : it.savedKey.GetUserKey = e.1.userKey)
    (ht : e.1.type = .kTypeValue ∨ e.1.type = .kTypeValueIndex) :
    (snapshotView R.ucmp R.sequence R.sep e.1.userKey).typedVersion e.1.sequence e.1.type e.2 =
      some (.put (it.GetValue e.1 .kTypeValueIndex)) := by
  have hv := iter_value hit he
  rcases ht with ht | ht <;> cases hsep : R.sep <;>
    simp [ReadView.typedVersion, GetValue, setting_separateHelper hit, hsep, ht, hv, hkey, snapshotView,
      ReadView.combined]

/-- A merge record read at its user key gives the operand `GetValue` reads. -/
theorem typedVersion_merge {e : ParsedInternalKey × Bytes} {rest : List (ParsedInternalKey × Bytes)}
    (he : R.es.drop it.iter.pos = e :: rest) (hkey : it.savedKey.GetUserKey = e.1.userKey)
    (ht : e.1.type = .kTypeMerge ∨ e.1.type = .kTypeMergeIndex) :
    (snapshotView R.ucmp R.sequence R.sep e.1.userKey).typedVersion e.1.sequence e.1.type e.2 =
      some (.merge (it.GetValue e.1 .kTypeMergeIndex)) := by
  have hv := iter_value hit he
  rcases ht with ht | ht <;> cases hsep : R.sep <;>
    simp [ReadView.typedVersion, GetValue, setting_separateHelper hit, hsep, ht, hv, hkey, snapshotView,
      ReadView.combined]

/-- A deletion starts to skip its key. -/
theorem switchRound_of_delete {ikey : ParsedInternalKey}
    (ht : ikey.type = .kTypeDeletion ∨ ikey.type = .kTypeSingleDeletion) (skipping : Bool) :
    it.switchRound ikey skipping = .skip { it with savedKey := IterKey.SetUserKey ikey.userKey } true 0 false := by
  rcases ht with ht | ht <;> simp [switchRound, ht, setting_startSeqnum hit]

/-- A value is shown, with no range tombstone to hide it. -/
theorem switchRound_of_value {ikey : ParsedInternalKey}
    (ht : ikey.type = .kTypeValue ∨ ikey.type = .kTypeValueIndex) (skipping : Bool) :
    it.switchRound ikey skipping =
      let it' := { it with savedKey := IterKey.SetUserKey ikey.userKey }
      .ret true { it' with value := it'.GetValue ikey .kTypeValueIndex, valid := true } := by
  rcases ht with ht | ht <;>
    simp [switchRound, ht, setting_startSeqnum hit, DBIter.ShouldDelete,
      ReadRangeDelAggregator.ShouldDelete_of_nil (setting_tombstones hit)]

/-- A merge operand hands over to `MergeValuesNewToOld`. -/
theorem switchRound_of_merge {ikey : ParsedInternalKey}
    (ht : ikey.type = .kTypeMerge ∨ ikey.type = .kTypeMergeIndex) (skipping : Bool) :
    it.switchRound ikey skipping =
      let it' := { it with savedKey := IterKey.SetUserKey ikey.userKey, currentEntryIsMerged := true, valid := true }
      .ret (it'.MergeValuesNewToOld ikey).1 (it'.MergeValuesNewToOld ikey).2 := by
  rcases ht with ht | ht <;>
    simp [switchRound, ht, DBIter.ShouldDelete,
      ReadRangeDelAggregator.ShouldDelete_of_nil (setting_tombstones hit)]

end Calls

/-! ## The view ahead -/

section Ahead

variable {R} {p : ℕ} {e : ParsedInternalKey × Bytes} {rest : List (ParsedInternalKey × Bytes)}

theorem drop_succ_of_drop (he : R.es.drop p = e :: rest) : R.es.drop (p + 1) = rest := by
  rw [← List.drop_drop, he]
  rfl

theorem lt_length_of_drop (he : R.es.drop p = e :: rest) : p < R.es.length := by
  have h := congrArg List.length he
  simp only [List.length_drop, List.length_cons] at h
  omega

theorem sorted_of_drop (hR : R.WF) (he : R.es.drop p = e :: rest) : Sorted R.ucmp (e :: rest) :=
  he ▸ hR.sorted.sublist (List.drop_sublist _ _)

theorem mem_of_drop (he : R.es.drop p = e :: rest) {x : ParsedInternalKey × Bytes} (hx : x ∈ e :: rest) :
    x ∈ R.es :=
  List.mem_of_mem_drop (he ▸ hx)

theorem pending_sublist (p : ℕ) (skipping : Bool) (u : Bytes) : (R.pending p skipping u).Sublist (R.es.drop p) := by
  cases skipping
  · exact List.Sublist.refl _
  · exact List.dropWhile_sublist _

/-- Past the entries, nothing is ahead. -/
theorem view_pending_of_le (hp : R.es.length ≤ p) (skipping : Bool) (u : Bytes) :
    R.view (R.pending p skipping u) = [] := by
  have hnil := pending_sublist (R := R) p skipping u
  rw [List.drop_eq_nil_of_le hp, List.sublist_nil] at hnil
  simp [view, hnil, belowBound]

theorem pending_eq_cons (he : R.es.drop p = e :: rest) {skipping : Bool} {u : Bytes}
    (h : skipping = true → R.ucmp e.1.userKey u ≠ .eq) : R.pending p skipping u = e :: rest := by
  cases skipping with
  | false => simp [pending, he]
  | true => rw [pending, if_pos rfl, he, List.dropWhile_cons_of_neg (by simpa using h rfl)]

/-- A version of the skipped key is passed. -/
theorem pending_succ_of_eq (he : R.es.drop p = e :: rest) {u : Bytes} (hkey : R.ucmp e.1.userKey u = .eq) :
    R.pending (p + 1) true u = R.pending p true u := by
  rw [pending, pending, if_pos rfl, if_pos rfl, drop_succ_of_drop he, he,
    List.dropWhile_cons_of_pos (by simp [hkey])]

variable [Std.TransCmp R.ucmp] [Std.LawfulEqCmp R.ucmp]

omit [Std.TransCmp R.ucmp] in
/-- An entry the snapshot does not see is passed. -/
theorem view_cons_of_invisible (rest : List (ParsedInternalKey × Bytes)) (h : R.sequence < e.1.sequence) :
    R.view (e :: rest) = R.view rest := by
  rw [view, scan_cons_of_invisible R.ucmp rest h]
  rfl

/-- An entry at or above the upper bound ends the view: so is every entry
after it. -/
theorem view_pending_of_upperBound (hR : R.WF) (he : R.es.drop p = e :: rest)
    (hub : (R.upperBound.any fun ub => R.ucmp e.1.userKey ub ≠ .lt) = true) (skipping : Bool) (u : Bytes) :
    R.view (R.pending p skipping u) = [] := by
  obtain ⟨ub, hsome, hge⟩ : ∃ ub, R.upperBound = some ub ∧ R.ucmp e.1.userKey ub ≠ .lt := by
    cases h : R.upperBound with
    | none => simp [h] at hub
    | some ub => exact ⟨ub, rfl, by simpa [h] using hub⟩
  rw [view, hsome]
  refine belowBound_scan_eq_nil fun x hx hlt => hge ?_
  have hx' : x ∈ e :: rest := he ▸ (pending_sublist p skipping u).subset hx
  exact Std.TransCmp.lt_of_isLE_of_lt (userKey_le_of_sorted (sorted_of_drop hR he) hx') hlt

end Ahead

/-! ## A round of the walk -/

section Round

variable {R} {it : DBIter} {skipping : Bool} {e : ParsedInternalKey × Bytes}
  {rest : List (ParsedInternalKey × Bytes)}

/-- A round that passes the entry and starts over at the next one goes on, when
the entry does not change the view ahead. -/
theorem roundOutcome_pass {it' : DBIter} {skipping' : Bool} (hw' : R.Walk it' skipping')
    (hiter : it'.iter = it.iter) (hp : it.iter.pos < R.es.length)
    (hahead : R.view (R.pending (it.iter.pos + 1) skipping' it'.savedKey.GetUserKey) = R.ahead it skipping)
    (r : Bool) : R.RoundOutcome it skipping r (.skip it' skipping' 0 false) := by
  have hadv : it'.advance skipping' 0 false = ({ it' with iter := it'.iter.next }, 0, false) := by
    simp [advance]
  simp only [RoundOutcome, hadv]
  refine ⟨⟨hw'.setting_eq, hw'.status_eq, hw'.not_merged, fun hs x hx => hw'.above hs x ?_⟩, ?_, ?_⟩
  · exact List.drop_subset_drop_left _ (Nat.le_succ _) hx
  · simpa [ahead, Cursor.next, hiter] using hahead
  · simp only [walkMeasure, Cursor.next, hiter]
    split <;> omega

/-- No key of a user key sorts after its smallest internal key. -/
theorem compare_smallest_ne_gt {ucmp : Comparator} [Std.ReflCmp ucmp] (k : ParsedInternalKey) :
    parsedInternalKeyCompare ucmp k ⟨k.userKey, 0, .kTypeDeletion⟩ ≠ .gt := by
  simp only [parsedInternalKeyCompare, Std.ReflCmp.compare_self]
  split_ifs with h₁ h₂ h₃ h₄ <;> simp_all [UInt64.lt_iff_toNat_lt, UInt8.lt_iff_toNat_lt, ValueType.toByte]

variable [Std.TransCmp R.ucmp] [Std.LawfulEqCmp R.ucmp] (hR : R.WF)
include hR

/-- A round that counts the entry as another version of the key it walks goes
on: after a step, or after the reseek past those versions, to the smallest
internal key of the key when skipping it and to the snapshot otherwise. -/
theorem roundOutcome_version (hw : R.Walk it skipping) (he : R.es.drop it.iter.pos = e :: rest)
    (hkey : R.ucmp e.1.userKey it.savedKey.GetUserKey = .eq)
    (hinvisible : skipping = false → R.sequence < e.1.sequence) (n : UInt64) (r : Bool) :
    R.RoundOutcome it skipping r
      (.skip { it with numInternalKeysSkipped := it.numInternalKeysSkipped + 1 } skipping (n + 1) r) := by
  have hit := hw.setting_eq
  have hu : e.1.userKey = it.savedKey.GetUserKey := Std.LawfulEqCmp.eq_of_compare hkey
  have hp := lt_length_of_drop he
  have hs := sorted_of_drop hR he
  simp only [RoundOutcome]
  by_cases hre : (decide (n + 1 > it.maxSkip) && !r) = true
  · -- the reseek: past the versions of the key, where the view ahead is the same
    have hr : r = false := by cases r <;> simp_all
    subst hr
    cases skipping with
    | true =>
      have hk : (⟨it.savedKey.GetUserKey, 0, .kTypeDeletion⟩ : ParsedInternalKey).sequence ≤
          kMaxSequenceNumber := UInt64.zero_le
      have hcmp : parsedInternalKeyCompare R.ucmp e.1 ⟨it.savedKey.GetUserKey, 0, .kTypeDeletion⟩ ≠ .gt := by
        rw [← hu]
        exact compare_smallest_ne_gt e.1
      have hpos := seek_pos hit hR hk
      rw [countP_eq_add_of_drop hR.sorted he hcmp] at hpos
      simp only [advance, hre, if_true]
      refine ⟨⟨hit, hw.status_eq, hw.not_merged, fun _ x hx => hw.above rfl x ?_⟩, ?_, ?_⟩
      · rw [hpos, ← List.drop_drop, he] at hx
        exact he ▸ List.drop_subset _ _ hx
      · simp only [ahead, pending, if_true]
        rw [hpos, ← List.drop_drop, he, ← hu, dropWhile_drop_seek_skip hs]
      · simp only [walkMeasure, hpos, ↓reduceIte, Bool.false_eq_true]
        omega
    | false =>
      have hinv := hinvisible rfl
      have htypes : ∀ x ∈ e :: rest, x.1.type.IsExtendedValueType = true := fun x hx => by
        simp [ValueType.IsExtendedValueType, hR.isValueType x (mem_of_drop he hx)]
      obtain ⟨hpos_lt, hscan⟩ := @scan_drop_seek_snapshot R.ucmp R.op R.sequence R.sep _ _ e rest hs htypes hinv
      have hk : (⟨it.savedKey.GetUserKey, it.sequence, kValueTypeForSeek⟩ : ParsedInternalKey).sequence ≤
          kMaxSequenceNumber := by
        simpa [setting_sequence hit] using hR.snapshot_le
      have hlt : parsedInternalKeyCompare R.ucmp e.1 ⟨e.1.userKey, R.sequence, kValueTypeForSeek⟩ = .lt :=
        (lt_lookupKey_iff (htypes e List.mem_cons_self) _ _).mpr (Or.inr ⟨Std.ReflCmp.compare_self, hinv⟩)
      have hpos := seek_pos hit hR hk
      rw [← hu, setting_sequence hit, countP_eq_add_of_drop hR.sorted he (by simp [hlt])] at hpos
      simp only [advance, hre, if_true, Bool.false_eq_true, if_false]
      refine ⟨⟨hit, hw.status_eq, hw.not_merged, fun h => absurd h (by decide)⟩, ?_, ?_⟩
      · simp only [ahead, pending, Bool.false_eq_true, if_false]
        rw [← hu, setting_sequence hit, hpos, ← List.drop_drop, he]
        exact congrArg (belowBound R.ucmp R.upperBound) hscan
      · simp only [walkMeasure, ↓reduceIte, Bool.false_eq_true]
        rw [← hu, setting_sequence hit, hpos]
        omega
  · -- a step to the next entry
    simp only [advance, hre, Bool.false_eq_true, if_false]
    refine ⟨⟨hit, hw.status_eq, hw.not_merged, fun hskip x hx =>
      hw.above hskip x (List.drop_subset_drop_left _ (Nat.le_succ _) hx)⟩, ?_, ?_⟩
    · cases skipping with
      | true => exact congrArg R.view (pending_succ_of_eq he hkey)
      | false =>
        simp only [ahead, Cursor.next, pending, Bool.false_eq_true, if_false, drop_succ_of_drop he, he]
        exact (view_cons_of_invisible rest (hinvisible rfl)).symm
    · simp only [walkMeasure, Cursor.next]
      omega

end Round

/-! ## The merge of `MergeValuesNewToOld` -/

section Merge

variable {R} {p : ℕ} {u : Bytes}

/-- The answer of operands merged at once is what `TimedFullMerge` makes of them. -/
theorem finish_mergeOnto (u : Bytes) (base : Option Bytes) (operands : List Bytes) :
    (GetOutcome.mergeOnto (noEarlyMerge R.op) u base operands).finish (noEarlyMerge R.op) u =
      MergeHelper.TimedFullMerge R.op u base operands.reverse := by
  have hop : (noEarlyMerge R.op).toMergeOperator = R.op := rfl
  unfold GetOutcome.mergeOnto
  rw [hop]
  cases MergeHelper.TimedFullMerge R.op u base operands.reverse <;> rfl

theorem Past.refl (hp : p ≤ R.es.length) (u : Bytes) : R.Past p u p := ⟨le_rfl, hp, rfl⟩

theorem Past.of_succ {q : ℕ} (h : R.Past (p + 1) u q) (hpend : R.pending (p + 1) true u = R.pending p true u) :
    R.Past p u q :=
  ⟨by have := h.1; omega, h.2.1, h.2.2.trans hpend⟩

/-- `TimedFullMerge` of the operands collected answers, and leaves the position
where it is. -/
theorem mergeInto_merged {it₀ it : DBIter} (hset : it.setting = it₀.setting) (hkey : it.savedKey = it₀.savedKey)
    (hmerged : it.currentEntryIsMerged = it₀.currentEntryIsMerged) (hvalid : it.valid = it₀.valid)
    (hstatus : it.status = it₀.status) (hpast : R.Past p u it.iter.pos) (base : Option Bytes) :
    R.Merged p u it₀ (MergeHelper.TimedFullMerge R.op u base it.mergeContext.reverse)
      (it.mergeInto R.op u base).2 := by
  unfold DBIter.mergeInto
  cases MergeHelper.TimedFullMerge R.op u base it.mergeContext.reverse with
  | ok v =>
    refine ⟨hset, hkey, hmerged, fun v' h => ?_, fun s h => (by cases h)⟩
    cases h
    exact ⟨hvalid, hstatus, rfl, hpast⟩
  | error s =>
    refine ⟨hset, hkey, hmerged, fun v h => (by cases h), fun s' h => ?_⟩
    cases h
    exact ⟨rfl, rfl⟩

/-- The value that ends the operands: they are merged onto it, and on success
the position moves past it. -/
theorem mergeInto_next_merged {it : DBIter} (hpast : R.Past p u (it.iter.pos + 1)) (base : Option Bytes) :
    R.Merged p u it (MergeHelper.TimedFullMerge R.op u base it.mergeContext.reverse)
      (match it.mergeInto R.op u base with
        | (true, it') => (true, { it' with iter := it'.iter.next })
        | (false, it') => (false, it')).2 := by
  unfold DBIter.mergeInto
  cases MergeHelper.TimedFullMerge R.op u base it.mergeContext.reverse with
  | ok v =>
    refine ⟨rfl, rfl, rfl, fun v' h => ?_, fun s h => (by cases h)⟩
    cases h
    exact ⟨rfl, rfl, rfl, hpast⟩
  | error s =>
    refine ⟨rfl, rfl, rfl, fun v h => (by cases h), fun s' h => ?_⟩
    cases h
    exact ⟨rfl, rfl⟩

/-- A merge loop started one entry further, on the same fields, answers for the
loop started here when that entry is a version of the key. -/
theorem Merged.of_next {it₀ it it' : DBIter} {answer : Except Status Bytes} (h : R.Merged (p + 1) u it answer it')
    (hset : it.setting = it₀.setting) (hkey : it.savedKey = it₀.savedKey)
    (hmerged : it.currentEntryIsMerged = it₀.currentEntryIsMerged) (hvalid : it.valid = it₀.valid)
    (hstatus : it.status = it₀.status) (hpend : R.pending (p + 1) true u = R.pending p true u) :
    R.Merged p u it₀ answer it' := by
  refine ⟨h.setting_eq.trans hset, h.savedKey_eq.trans hkey, h.merged_eq.trans hmerged, fun v hv => ?_,
    h.of_error⟩
  obtain ⟨hv', hs', hval, hpast⟩ := h.of_ok v hv
  exact ⟨hv'.trans hvalid, hs'.trans hstatus, hval, hpast.of_succ hpend⟩

variable [Std.LawfulEqCmp R.ucmp] (hR : R.WF)
include hR

/-- The loop of `MergeValuesNewToOld` answers what a point lookup's fold of the
key's versions gives from the operands collected so far, and leaves the
position past the versions it read. -/
theorem mergeLoop_merged :
    ∀ (l : List (ParsedInternalKey × Bytes)) (it : DBIter), it.setting = R.setting →
      it.iter.pos ≤ R.es.length → R.es.drop it.iter.pos = l → it.savedKey.GetUserKey = u →
      (∀ x ∈ l, R.ucmp x.1.userKey u = .eq → x.1.sequence ≤ R.sequence) →
      R.Merged it.iter.pos u it ((((snapshotView R.ucmp R.sequence R.sep u).versionsOf l).foldl
        (GetOutcome.step (noEarlyMerge R.op) u) (.merging it.mergeContext)).finish (noEarlyMerge R.op) u)
        (mergeLoop R.op it).2 := by
  intro l
  induction l with
  | nil =>
    intro it hit hp hl hkey _
    -- the entries ran out: the operands are merged onto nothing
    have hinvalid : it.iter.valid = false := by
      rw [← Bool.not_eq_true, iter_valid_iff hit]
      exact Nat.not_lt.mpr (List.drop_eq_nil_iff.mp hl)
    rw [mergeLoop, if_neg (by simp [hinvalid]), hkey]
    exact mergeInto_merged rfl rfl rfl rfl rfl (Past.refl hp u) none
  | cons e rest ih =>
    intro it hit hp he hkey hvis
    have hvalid : it.iter.valid = true := (iter_valid_iff hit).mpr (lt_length_of_drop he)
    rw [mergeLoop, if_pos hvalid, ParseKey_eq hit hR he]
    dsimp only
    by_cases hne : R.ucmp e.1.userKey u = .eq
    · -- a version of the key, which the snapshot sees as it sees the first operand
      have heq : e.1.userKey = u := Std.LawfulEqCmp.eq_of_compare hne
      have hseq := hvis e List.mem_cons_self hne
      have hpend := pending_succ_of_eq he hne
      have hnext : R.Past it.iter.pos u (it.iter.pos + 1) := ⟨Nat.le_succ _, lt_length_of_drop he, hpend⟩
      have hsame : ¬(it.ucmp e.1.userKey it.savedKey.GetUserKey ≠ .eq) := by
        rw [setting_ucmp hit, hkey]
        exact not_not.mpr hne
      have hversions := ReadView.versionsOf_cons_of_eq (v := snapshotView R.ucmp R.sequence R.sep u) rest hne
      rw [versionOf_snapshotView hseq] at hversions
      rw [if_neg hsame, hversions, hkey]
      rcases ValueType.cases_of_isValueType (hR.isValueType e (mem_of_drop he List.mem_cons_self)) with
        ht | ht | ht
      · -- a deletion ends the operands: they are merged onto nothing
        have hv : (snapshotView R.ucmp R.sequence R.sep u).typedVersion e.1.sequence e.1.type e.2 =
            some .delete := by
          rcases ht with ht | ht <;> simp [ht, ReadView.typedVersion]
        rw [hv, if_pos ht]
        simp only [Option.toList_some, List.singleton_append, List.foldl_cons, GetOutcome.step,
          GetOutcome.foldl_step_of_isDecided (GetOutcome.isDecided_mergeOnto _ _), finish_mergeOnto,
          if_true]
        exact @mergeInto_merged R it.iter.pos u it { it with iter := it.iter.next } rfl rfl rfl rfl rfl hnext none
      · -- a value ends them: they are merged onto it, and the position moves past it
        have hv := typedVersion_value hit he (hkey.trans heq.symm) ht
        have hdel : ¬(e.1.type = .kTypeDeletion ∨ e.1.type = .kTypeSingleDeletion) := by
          rcases ht with ht | ht <;> simp [ht]
        rw [heq] at hv
        rw [hv, if_neg hdel, ReadRangeDelAggregator.ShouldDelete_of_nil (setting_tombstones hit)]
        simp only [Option.toList_some, List.singleton_append, List.foldl_cons, GetOutcome.step,
          GetOutcome.foldl_step_of_isDecided (GetOutcome.isDecided_mergeOnto _ _), finish_mergeOnto,
          Bool.false_eq_true, if_false, if_pos ht, heq]
        exact mergeInto_next_merged hnext _
      · -- another operand: collected, and the loop goes on
        have hv := typedVersion_merge hit he (hkey.trans heq.symm) ht
        have hdel : ¬(e.1.type = .kTypeDeletion ∨ e.1.type = .kTypeSingleDeletion) := by
          rcases ht with ht | ht <;> simp [ht]
        have hval : ¬(e.1.type = .kTypeValue ∨ e.1.type = .kTypeValueIndex) := by
          rcases ht with ht | ht <;> simp [ht]
        rw [heq] at hv
        rw [hv, if_neg hdel, ReadRangeDelAggregator.ShouldDelete_of_nil (setting_tombstones hit)]
        simp only [Option.toList_some, List.singleton_append, List.foldl_cons, Bool.false_eq_true, if_false,
          if_neg hval, if_pos ht]
        have hrest := ih { it with iter := it.iter.next
                                   mergeContext := it.mergeContext ++ [it.GetValue e.1 .kTypeMergeIndex] }
          hit (lt_length_of_drop he) (drop_succ_of_drop he) hkey fun x hx => hvis x (List.mem_cons_of_mem _ hx)
        exact hrest.of_next rfl rfl rfl rfl rfl hpend
    · -- the next user key ends the operands: they are merged onto nothing
      have hother : it.ucmp e.1.userKey it.savedKey.GetUserKey ≠ .eq := by
        rw [setting_ucmp hit, hkey]
        exact hne
      rw [if_pos hother, ReadView.versionsOf_cons_of_ne (v := snapshotView R.ucmp R.sequence R.sep u) rest hne, hkey]
      exact mergeInto_merged rfl rfl rfl rfl rfl (Past.refl hp u) none

end Merge

/-! ## The rounds that answer -/

section Answer

variable {R} [Std.TransCmp R.ucmp] [Std.LawfulEqCmp R.ucmp] (hR : R.WF)
  {it : DBIter} {skipping : Bool} {e : ParsedInternalKey × Bytes} {rest : List (ParsedInternalKey × Bytes)}
include hR

omit [Std.TransCmp R.ucmp] in
/-- A visible value, the first version of its key the walk meets, is the
answer: the iterator shows it and is ready to go on past its key. -/
theorem answers_value (he : R.es.drop it.iter.pos = e :: rest)
    (hseq : e.1.sequence ≤ R.sequence)
    (hfirst : skipping = true → R.ucmp e.1.userKey it.savedKey.GetUserKey ≠ .eq)
    (hbelow : (R.upperBound.all fun b => R.ucmp e.1.userKey b == .lt) = true)
    (ht : e.1.type = .kTypeValue ∨ e.1.type = .kTypeValueIndex)
    {it' : DBIter} (hit' : it'.setting = R.setting) (hiter : it'.iter = it.iter)
    (hkey : it'.savedKey = IterKey.SetUserKey e.1.userKey) (hstatus : it'.status = Status.OK)
    (hmerged : it'.currentEntryIsMerged = false) :
    R.Answers { it' with value := it'.GetValue e.1 .kTypeValueIndex, valid := true } (R.ahead it skipping) := by
  have he' : R.es.drop it'.iter.pos = e :: rest := hiter ▸ he
  have hv := typedVersion_value hit' he' (by rw [hkey]; rfl) ht
  have hs := sorted_of_drop hR he
  have hresume : ({ it' with value := it'.GetValue e.1 .kTypeValueIndex, valid := true } : DBIter).resume =
      it.iter.pos + 1 :=
    (resume_of_not_merged hmerged).trans (by rw [hiter])
  rw [ahead, pending_eq_cons he hfirst, view, scan_cons_of_put rest hseq hv, belowBound_cons _ hbelow]
  dsimp only [Answers]
  refine ⟨hit', rfl, by simp [DBIter.key, setting_startSeqnum hit', hkey], rfl, hstatus,
    ⟨hkey, fun _ => hiter ▸ lt_length_of_drop he, ?_, ?_, ?_⟩⟩
  · rw [hresume]
    exact lt_length_of_drop he
  · rw [hresume, drop_succ_of_drop he]
    exact fun x hx => userKey_le_of_sorted hs (List.mem_cons_of_mem _ hx)
  · rw [hresume]
    simp only [pending, if_true, drop_succ_of_drop he]
    rfl

/-- A visible merge operand, the first version of its key the walk meets,
hands over to `MergeValuesNewToOld`: the iterator shows the merge of the key's
operands, or stops at a failed merge. -/
theorem answers_merge (he : R.es.drop it.iter.pos = e :: rest)
    (hseq : e.1.sequence ≤ R.sequence)
    (hfirst : skipping = true → R.ucmp e.1.userKey it.savedKey.GetUserKey ≠ .eq)
    (hbelow : (R.upperBound.all fun b => R.ucmp e.1.userKey b == .lt) = true)
    (ht : e.1.type = .kTypeMerge ∨ e.1.type = .kTypeMergeIndex)
    {it' : DBIter} (hit' : it'.setting = R.setting) (hiter : it'.iter = it.iter)
    (hkey : it'.savedKey = IterKey.SetUserKey e.1.userKey) (hstatus : it'.status = Status.OK)
    (hmerged : it'.currentEntryIsMerged = true) (hvalid : it'.valid = true) :
    R.Answers (it'.MergeValuesNewToOld e.1).2 (R.ahead it skipping) := by
  have he' : R.es.drop it'.iter.pos = e :: rest := hiter ▸ he
  have hv := typedVersion_merge hit' he' (by rw [hkey]; rfl) ht
  have hs := sorted_of_drop hR he
  have hm := mergeLoop_merged hR (u := e.1.userKey) rest
    { it' with mergeContext := [it'.GetValue e.1 .kTypeMergeIndex], iter := it'.iter.next } hit'
    (lt_length_of_drop he') (drop_succ_of_drop he') (by simp [hkey])
    (fun x hx hk => UInt64.le_trans (sequence_le_of_sorted hs hx hk) hseq)
  dsimp only at hm
  unfold DBIter.MergeValuesNewToOld
  split
  next hnone => simp [setting_mergeOperator hit'] at hnone
  next op hop =>
  obtain rfl : op = R.op := Option.some.inj (hop.symm.trans (setting_mergeOperator hit'))
  rw [ahead, pending_eq_cons he hfirst, view, scan_cons_of_merge rest hseq hv, belowBound_cons _ hbelow]
  generalize (((snapshotView R.ucmp R.sequence R.sep e.1.userKey).versionsOf rest).foldl
    (GetOutcome.step (noEarlyMerge R.op) e.1.userKey) (.merging [it'.GetValue e.1 .kTypeMergeIndex])).finish
    (noEarlyMerge R.op) e.1.userKey = answer at hm ⊢
  have hset := hm.setting_eq.trans hit'
  cases answer with
  | ok v =>
    -- the merged value: the position is past the versions the merge read
    obtain ⟨hvalid', hstatus', hvalue, hpast⟩ := hm.of_ok v rfl
    have hmerged' := hm.merged_eq.trans hmerged
    have hstart : it'.iter.next.pos = it.iter.pos + 1 := by simp [Cursor.next, hiter]
    rw [hstart] at hpast
    dsimp only [Answers]
    refine ⟨hset, hvalid'.trans hvalid, by rw [key_eq hset, hm.savedKey_eq, hkey]; rfl, hvalue,
      hstatus'.trans hstatus, ⟨hm.savedKey_eq.trans hkey, fun h => absurd (hmerged'.symm.trans h) (by decide),
      ?_, ?_, ?_⟩⟩
    · rw [resume_of_merged hmerged']
      exact hpast.2.1
    · rw [resume_of_merged hmerged']
      intro x hx
      have hx' : x ∈ rest := drop_succ_of_drop he ▸ List.drop_subset_drop_left _ hpast.1 hx
      exact userKey_le_of_sorted hs (List.mem_cons_of_mem _ hx')
    · rw [resume_of_merged hmerged', hpast.2.2]
      simp only [pending, if_true, drop_succ_of_drop he]
      rfl
  | error s =>
    obtain ⟨hvalid', hstatus'⟩ := hm.of_error s rfl
    exact ⟨hset, hvalid', hstatus'⟩

omit [Std.LawfulEqCmp R.ucmp] hR in
/-- While skipping, an entry whose key is not above the skipped key is one of
its versions. -/
theorem Walk.eq_of_ne_gt (hw : R.Walk it true) (he : R.es.drop it.iter.pos = e :: rest)
    (h : R.ucmp e.1.userKey it.savedKey.GetUserKey ≠ .gt) : R.ucmp e.1.userKey it.savedKey.GetUserKey = .eq := by
  have hle := hw.above rfl e (by rw [he]; exact List.mem_cons_self)
  have hswap : R.ucmp it.savedKey.GetUserKey e.1.userKey = (R.ucmp e.1.userKey it.savedKey.GetUserKey).swap :=
    Std.OrientedCmp.eq_swap
  rw [hswap] at hle
  cases hc : R.ucmp e.1.userKey it.savedKey.GetUserKey <;> simp_all

/-- The round on a visible entry that starts a new user key: a deletion makes
the walk skip the key's older versions, a value or a merge answers. -/
theorem roundOutcome_switch (he : R.es.drop it.iter.pos = e :: rest) (hseq : e.1.sequence ≤ R.sequence)
    (hfirst : skipping = true → R.ucmp e.1.userKey it.savedKey.GetUserKey ≠ .eq)
    (hbelow : (R.upperBound.all fun b => R.ucmp e.1.userKey b == .lt) = true)
    {it₁ : DBIter} (hit₁ : it₁.setting = R.setting) (hiter : it₁.iter = it.iter)
    (hstatus : it₁.status = Status.OK) (hmerged : it₁.currentEntryIsMerged = false) (r : Bool) :
    R.RoundOutcome it skipping r (it₁.switchRound e.1 skipping) := by
  have hs := sorted_of_drop hR he
  rcases ValueType.cases_of_isValueType (hR.isValueType e (mem_of_drop he List.mem_cons_self)) with
    ht | ht | ht
  · -- a deletion: the walk goes on past the key's older versions
    have hdel : (snapshotView R.ucmp R.sequence R.sep e.1.userKey).typedVersion e.1.sequence e.1.type e.2 =
        some .delete := by
      rcases ht with ht | ht <;> simp [ReadView.typedVersion, ht]
    have hw' : R.Walk { it₁ with savedKey := IterKey.SetUserKey e.1.userKey } true := by
      refine ⟨hit₁, hstatus, hmerged, fun _ x hx => ?_⟩
      have hx' : x ∈ e :: rest := by simpa [hiter, he] using hx
      exact userKey_le_of_sorted hs hx'
    rw [switchRound_of_delete hit₁ ht]
    refine roundOutcome_pass hw' hiter (lt_length_of_drop he) ?_ r
    · show R.view (R.pending (it.iter.pos + 1) true e.1.userKey) = R.ahead it skipping
      rw [ahead, pending_eq_cons he hfirst]
      unfold view
      rw [scan_cons_of_delete rest hseq hdel]
      simp only [pending, if_true, drop_succ_of_drop he]
  · -- a value: shown, as no range tombstone hides it
    have hit' : ({ it₁ with savedKey := IterKey.SetUserKey e.1.userKey } : DBIter).setting = R.setting := hit₁
    rw [switchRound_of_value hit₁ ht]
    exact answers_value hR he hseq hfirst hbelow ht hit' hiter rfl hstatus hmerged
  · -- a merge operand: the merge of the key's operands is shown
    have hit' : ({ it₁ with
        savedKey := IterKey.SetUserKey e.1.userKey, currentEntryIsMerged := true, valid := true } :
          DBIter).setting = R.setting := hit₁
    rw [switchRound_of_merge hit₁ ht]
    exact answers_merge hR he hseq hfirst hbelow ht hit' hiter rfl hstatus rfl rfl

/-- Each round of the loop of `FindNextUserEntryInternal` keeps to the view:
it answers with what is ahead, or goes on with the same view ahead and a
smaller measure. -/
theorem round_advance (hw : R.Walk it skipping) (he : R.es.drop it.iter.pos = e :: rest) (n : UInt64)
    (r : Bool) : R.RoundOutcome it skipping r (it.round e.1 skipping n r) := by
  have hit := hw.setting_eq
  unfold DBIter.round
  split
  next hub =>
    -- a key at the upper bound ends the walk
    rw [setting_upperBound hit, setting_ucmp hit] at hub
    show R.Answers _ (R.ahead it skipping)
    rw [ahead, view_pending_of_upperBound hR he hub]
    exact ⟨hit, rfl, hw.status_eq⟩
  next hub =>
  have hbelow : (R.upperBound.all fun b => R.ucmp e.1.userKey b == .lt) = true := by
    rw [setting_upperBound hit, setting_ucmp hit] at hub
    cases hb : R.upperBound <;> simp_all
  have hit₁ : ({ it with numInternalKeysSkipped := it.numInternalKeysSkipped + 1 } : DBIter).setting =
      R.setting := hit
  rw [TooManyInternalKeysSkipped_eq hit]
  dsimp only
  split
  next hvis =>
    rw [IsVisible_eq hit₁, decide_eq_true_iff] at hvis
    split
    next hskip =>
      -- an older version of the key being skipped
      rw [setting_ucmp hit, Bool.and_eq_true, decide_eq_true_iff] at hskip
      obtain ⟨rfl, hne⟩ := hskip
      exact roundOutcome_version hR hw he (hw.eq_of_ne_gt he hne) (by simp) n r
    next hskip =>
      have hfirst : skipping = true → R.ucmp e.1.userKey it.savedKey.GetUserKey ≠ .eq := by
        rintro rfl hk
        simp [setting_ucmp hit, hk] at hskip
      exact roundOutcome_switch hR he hvis hfirst hbelow hit₁ rfl hw.status_eq hw.not_merged r
  next hvis =>
    rw [IsVisible_eq hit₁, decide_eq_true_iff, UInt64.not_le] at hvis
    split
    next hkey =>
      -- a version written after the snapshot, of the key walked or being skipped
      rw [setting_ucmp hit] at hkey
      have hkey' : R.ucmp e.1.userKey it.savedKey.GetUserKey = .eq := by
        rcases hkey with hkey | ⟨rfl, hne⟩
        · exact hkey
        · exact hw.eq_of_ne_gt he hne
      exact roundOutcome_version hR hw he hkey' (fun _ => hvis) n r
    next hkey =>
      -- a new key, none of whose versions the snapshot has seen yet
      rw [setting_ucmp hit] at hkey
      have hfirst : skipping = true → R.ucmp e.1.userKey it.savedKey.GetUserKey ≠ .eq := by
        rintro rfl hk
        exact hkey (Or.inl hk)
      have hw' : R.Walk { it with
          numInternalKeysSkipped := it.numInternalKeysSkipped + 1, savedKey := IterKey.SetUserKey e.1.userKey }
          false :=
        ⟨hit, hw.status_eq, hw.not_merged, fun h => absurd h (by decide)⟩
      refine roundOutcome_pass hw' (rfl : it.iter = it.iter) (lt_length_of_drop he) ?_ r
      show R.view (R.pending (it.iter.pos + 1) false e.1.userKey) = R.ahead it skipping
      rw [ahead, pending_eq_cons he hfirst, view_cons_of_invisible rest hvis]
      simp only [pending, Bool.false_eq_true, if_false, drop_succ_of_drop he]

end Answer

end ForwardRead

end HapDB
