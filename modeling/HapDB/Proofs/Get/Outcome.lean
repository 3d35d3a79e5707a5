import HapDB.Table.GetContext

/-!
# What a point lookup answers

The reference a point lookup is compared with: the versions of the lookup key
that the read sees, newest first, folded into an outcome.  Which version an
entry gives is a `ReadView`'s: the snapshot's visibility, the covering range
tombstones and the separate helper, the same for a table's `GetContext` and a
memtable's `Saver`.  A put is the answer
and a delete says the key is gone, each under the merge operands newer than
it; merge operands wait for an older version, or are merged on their own when
the merge operator says they suffice or the versions run out.  Once decided
(`isDecided`), an outcome no older version changes (`foldl_step_of_isDecided`).
-/

namespace HapDB

/-- A version of the lookup key, as the read sees it. -/
inductive KeyVersion where
  | put (value : Bytes)
  | delete
  | merge (operand : Bytes)
  deriving DecidableEq, Repr

/-- What a lookup knows after the versions it has read: the merge operands
pending are newest first. -/
inductive GetOutcome where
  | notFound
  | merging (operands : List Bytes)
  | found (value : Bytes)
  | deleted
  | corrupt (s : Status)
  deriving DecidableEq, Repr

/-- What decides the version an entry of the lookup key gives: the user
comparator and key, the read's visibility test, the newest range tombstone
over the key, and how an index entry becomes its value. -/
structure ReadView where
  ucmp : Comparator
  userKey : Bytes
  callback : Option (UInt64 → Bool)
  maxCoveringTombstoneSeq : Option UInt64
  separateHelper : Option (Bytes → UInt64 → Bytes → Bytes)

namespace ReadView

variable (v : ReadView)

/-- Whether the read's snapshot sees the sequence number. -/
def visible (seq : UInt64) : Bool := v.callback.all fun isVisible => isVisible seq

/-- Whether a range tombstone newer than the entry covers it: values and merge
operands only. -/
def covers (parsedKey : ParsedInternalKey) : Bool :=
  (parsedKey.type == .kTypeValue || parsedKey.type == .kTypeMerge ||
      parsedKey.type == .kTypeValueIndex || parsedKey.type == .kTypeMergeIndex) &&
    v.maxCoveringTombstoneSeq.any (parsedKey.sequence < ·)

/-- An entry's value, an index turned into its value by the separate helper. -/
def combined (sequence : UInt64) (value : Bytes) : Bytes :=
  match v.separateHelper with
  | some transToCombined => transToCombined v.userKey sequence value
  | none => value

/-- The version an entry gives by its type once the snapshot sees it and no
range tombstone covers it. -/
def typedVersion (sequence : UInt64) : ValueType → Bytes → Option KeyVersion
  | .kTypeValue, value => some (.put value)
  | .kTypeValueIndex, value => some (.put (v.combined sequence value))
  | .kTypeMerge, value => some (.merge value)
  | .kTypeMergeIndex, value => some (.merge (v.combined sequence value))
  | .kTypeDeletion, _ | .kTypeSingleDeletion, _ | .kTypeRangeDeletion, _ => some .delete
  | _, _ => none

/-- The version an entry of the lookup key gives, if the read's snapshot sees it. -/
def versionOf (e : ParsedInternalKey × Bytes) : Option KeyVersion :=
  if !v.visible e.1.sequence then none
  else if v.covers e.1 then some .delete
  else v.typedVersion e.1.sequence e.1.type e.2

/-- The versions a source gives from the lookup key on: its entries up to the
first of another user key, those the snapshot sees. -/
def versionsOf (es : List (ParsedInternalKey × Bytes)) : List KeyVersion :=
  (es.takeWhile fun e => v.ucmp e.1.userKey v.userKey == .eq).filterMap v.versionOf

variable {v}

theorem versionsOf_cons_of_eq {e : ParsedInternalKey × Bytes} (es : List (ParsedInternalKey × Bytes))
    (hkey : v.ucmp e.1.userKey v.userKey = .eq) :
    v.versionsOf (e :: es) = (v.versionOf e).toList ++ v.versionsOf es := by
  unfold versionsOf
  rw [List.takeWhile_cons_of_pos (by simp [hkey]), List.filterMap_cons]
  cases v.versionOf e <;> rfl

theorem versionsOf_cons_of_ne {e : ParsedInternalKey × Bytes} (es : List (ParsedInternalKey × Bytes))
    (hkey : v.ucmp e.1.userKey v.userKey ≠ .eq) : v.versionsOf (e :: es) = [] := by
  unfold versionsOf
  rw [List.takeWhile_cons_of_neg (by simp [hkey])]
  rfl

end ReadView

namespace GetOutcome

section Fold

variable (op : GetMergeOperator) (key : Bytes)

/-- The operands, newest first, merged onto `base`. -/
def mergeOnto (base : Option Bytes) (operands : List Bytes) : GetOutcome :=
  match MergeHelper.TimedFullMerge op.toMergeOperator key base operands.reverse with
  | .ok value => .found value
  | .error s => .corrupt s

/-- An operand older than the pending ones: merged at once when the operator
says the operands suffice. -/
def addOperand (operands : List Bytes) (operand : Bytes) : GetOutcome :=
  if op.shouldMerge (operands ++ [operand]) then mergeOnto op key none (operands ++ [operand])
  else .merging (operands ++ [operand])

/-- The next older version. -/
def step : GetOutcome → KeyVersion → GetOutcome
  | .notFound, .put value => .found value
  | .notFound, .delete => .deleted
  | .notFound, .merge operand => addOperand op key [] operand
  | .merging operands, .put value => mergeOnto op key (some value) operands
  | .merging operands, .delete => mergeOnto op key none operands
  | .merging operands, .merge operand => addOperand op key operands operand
  | o, _ => o

/-- The answer once the versions ran out: pending operands are merged onto
nothing. -/
def finish : GetOutcome → Except Status Bytes
  | .found value => .ok value
  | .deleted | .notFound => .error Status.NotFound
  | .corrupt s => .error s
  | .merging operands => MergeHelper.TimedFullMerge op.toMergeOperator key none operands.reverse

end Fold

/-- A value, a deletion or a failed merge: the lookup has its answer. -/
def isDecided : GetOutcome → Bool
  | .found _ | .deleted | .corrupt _ => true
  | .notFound | .merging _ => false

variable {op : GetMergeOperator} {key : Bytes}

theorem isDecided_mergeOnto (base : Option Bytes) (operands : List Bytes) :
    (mergeOnto op key base operands).isDecided = true := by
  unfold mergeOnto
  split <;> rfl

theorem step_of_isDecided {o : GetOutcome} (h : o.isDecided = true) (v : KeyVersion) :
    step op key o v = o := by
  cases o <;> simp_all [isDecided, step]

theorem foldl_step_of_isDecided {o : GetOutcome} (h : o.isDecided = true) (vs : List KeyVersion) :
    vs.foldl (step op key) o = o := by
  induction vs with
  | nil => rfl
  | cons v vs ih => rw [List.foldl_cons, step_of_isDecided h, ih]

/-- A decided outcome answers a value only when it found one. -/
theorem eq_found_of_finish_eq_ok {o : GetOutcome} (hd : o.isDecided = true) {value : Bytes}
    (h : o.finish op key = .ok value) : o = .found value := by
  cases o <;> simp_all [isDecided, finish]

/-- The status of an answer: `OK` for a value. -/
def statusOf : Except Status Bytes → Status
  | .ok _ => Status.OK
  | .error s => s

end GetOutcome

end HapDB
