import HapDB.Proofs.Get.Outcome
import HapDB.Proofs.RangeDel.Fragments
import HapDB.Proofs.DbFormat.InternalKey
import HapDB.Lib.Cursor

/-!
# What the user's iterator shows

A read of the whole store sees the internal entries sorted by
`InternalKeyComparator`: by user key, and within a user key newest first.  The
user's view of them at a snapshot is every user key once, in order, with the
answer a point lookup of the key gives there (`GetOutcome`), left out where
that answer is that the key is absent (`scan`).  An iterator merges operands
only when it has read them all, so its lookups take no early merge
(`noEarlyMerge`).

The view does not change when an entry the snapshot does not see is dropped
from the front (`scan_cons_of_invisible`), and the first visible entry of a
key decides how the key shows (`scan_cons_of_visible`).  A seek to the lookup
key of `t` lands where the view holds the keys from `t` on
(`scan_drop_seek`).
-/

namespace HapDB

/-! ## The order of parsed internal keys -/

/-- `parsedInternalKeyCompare` is the user comparator, then the larger
sequence number first, then the larger type first. -/
theorem parsedInternalKeyCompare_eq_compareLex (ucmp : Comparator) :
    parsedInternalKeyCompare ucmp = compareLex (fun a b => ucmp a.userKey b.userKey)
      (compareLex (fun a b => compare b.sequence a.sequence)
        (fun a b => compare b.type.toByte a.type.toByte)) := by
  funext a b
  simp only [parsedInternalKeyCompare, compareLex]
  cases ucmp a.userKey b.userKey with
  | lt | gt => rfl
  | eq =>
    -- the footers compare as `(sequence, type)`, larger first
    simp only [Ordering.eq_then, compare, compareOfLessAndEq, gt_iff_lt]
    split_ifs <;> simp_all [UInt64.lt_iff_toNat_lt, UInt8.lt_iff_toNat_lt, ← UInt64.toNat_inj,
      ← UInt8.toNat_inj] <;> omega

instance (ucmp : Comparator) [Std.TransCmp ucmp] : Std.TransCmp (parsedInternalKeyCompare ucmp) :=
  have : Std.TransCmp fun a b : ParsedInternalKey => ucmp a.userKey b.userKey :=
    { eq_swap := Std.OrientedCmp.eq_swap, isLE_trans := Std.TransCmp.isLE_trans }
  have : Std.TransCmp fun a b : ParsedInternalKey => compare b.sequence a.sequence :=
    inferInstanceAs (Std.TransCmp fun a b => compareOn ParsedInternalKey.sequence b a)
  have : Std.TransCmp fun a b : ParsedInternalKey => compare b.type.toByte a.type.toByte :=
    inferInstanceAs (Std.TransCmp fun a b => compareOn (fun k : ParsedInternalKey => k.type.toByte) b a)
  parsedInternalKeyCompare_eq_compareLex ucmp ▸ inferInstance

namespace GetOutcome

/-- Whether a key shows in the view: not when it has no visible version or its
newest is a deletion. -/
def shows : GetOutcome → Bool
  | .notFound | .deleted => false
  | .merging _ | .found _ | .corrupt _ => true

end GetOutcome

namespace UserView

variable (ucmp : Comparator) (op : MergeOperator) (sequence : UInt64)
  (sep : Option (Bytes → UInt64 → Bytes → Bytes))

/-- A merge operator that merges only when the versions run out or an older
value or deletion comes. -/
def noEarlyMerge : GetMergeOperator := { op with shouldMerge := fun _ => false }

/-- How the snapshot `sequence` reads the versions of `u`, with no range
tombstone. -/
def snapshotView (u : Bytes) : ReadView := ⟨ucmp, u, some fun s => decide (s ≤ sequence), none, sep⟩

/-- The answer for `u` of the entries from the first of `u` on. -/
def answer (u : Bytes) (es : List (ParsedInternalKey × Bytes)) : GetOutcome :=
  ((snapshotView ucmp sequence sep u).versionsOf es).foldl (GetOutcome.step (noEarlyMerge op) u) .notFound

/-- The view: each user key of the sorted entries once, with its answer. -/
def scan : List (ParsedInternalKey × Bytes) → List (Bytes × Except Status Bytes)
  | [] => []
  | e :: es =>
    let o := answer ucmp op sequence sep e.1.userKey (e :: es)
    (if o.shows then [(e.1.userKey, o.finish (noEarlyMerge op) e.1.userKey)] else []) ++
      scan (es.dropWhile fun e' => ucmp e'.1.userKey e.1.userKey == .eq)
termination_by es => es.length
decreasing_by
  have := (List.dropWhile_suffix (fun e' : ParsedInternalKey × Bytes =>
    ucmp e'.1.userKey e.1.userKey == .eq) (l := es)).length_le
  simp only [List.length_cons]
  omega

/-- The keys below the upper bound. -/
def belowBound (upperBound : Option Bytes) (view : List (Bytes × Except Status Bytes)) :
    List (Bytes × Except Status Bytes) :=
  view.takeWhile fun p => upperBound.all fun b => ucmp p.1 b == .lt

/-- The keys from the lower bound on. -/
def fromBound (lowerBound : Option Bytes) (view : List (Bytes × Except Status Bytes)) :
    List (Bytes × Except Status Bytes) :=
  view.dropWhile fun p => lowerBound.any fun b => ucmp p.1 b == .lt

/-! ## How an entry at the front shows -/

section Front

variable {ucmp op sequence sep}

@[simp] theorem scan_nil : scan ucmp op sequence sep [] = [] := by
  rw [scan]

theorem scan_cons (e : ParsedInternalKey × Bytes) (rest : List (ParsedInternalKey × Bytes)) :
    scan ucmp op sequence sep (e :: rest) =
      (if (answer ucmp op sequence sep e.1.userKey (e :: rest)).shows then
        [(e.1.userKey, (answer ucmp op sequence sep e.1.userKey (e :: rest)).finish (noEarlyMerge op)
          e.1.userKey)] else []) ++
      scan ucmp op sequence sep (rest.dropWhile fun e' => ucmp e'.1.userKey e.1.userKey == .eq) := by
  rw [scan]

/-- No entry of another key answers for `u`. -/
theorem answer_cons_of_ne {u : Bytes} {e : ParsedInternalKey × Bytes} (rest : List (ParsedInternalKey × Bytes))
    (hkey : ucmp e.1.userKey u ≠ .eq) : answer ucmp op sequence sep u (e :: rest) = .notFound := by
  simp only [answer, ReadView.versionsOf_cons_of_ne (v := snapshotView ucmp sequence sep u) rest hkey,
    List.foldl_nil]

/-- An entry the snapshot sees gives the version of its type: no range
tombstone covers it. -/
theorem versionOf_snapshotView {u : Bytes} {e : ParsedInternalKey × Bytes} (h : e.1.sequence ≤ sequence) :
    (snapshotView ucmp sequence sep u).versionOf e =
      (snapshotView ucmp sequence sep u).typedVersion e.1.sequence e.1.type e.2 := by
  simp [ReadView.versionOf, ReadView.visible, ReadView.covers, snapshotView, h]

/-- A key below the upper bound stays in front of the view. -/
theorem belowBound_cons {ub : Option Bytes} {p : Bytes × Except Status Bytes}
    (l : List (Bytes × Except Status Bytes)) (h : (ub.all fun b => ucmp p.1 b == .lt) = true) :
    belowBound ucmp ub (p :: l) = p :: belowBound ucmp ub l := by
  unfold belowBound
  exact List.takeWhile_cons_of_pos h

variable [Std.LawfulEqCmp ucmp]

variable (ucmp) in
/-- An entry the snapshot does not see leaves the view as it is. -/
theorem scan_cons_of_invisible {e : ParsedInternalKey × Bytes} (rest : List (ParsedInternalKey × Bytes))
    (h : sequence < e.1.sequence) : scan ucmp op sequence sep (e :: rest) = scan ucmp op sequence sep rest := by
  have hself : ucmp e.1.userKey e.1.userKey = .eq := Std.ReflCmp.compare_self
  have hnone : (snapshotView ucmp sequence sep e.1.userKey).versionOf e = none := by
    simp [ReadView.versionOf, ReadView.visible, snapshotView, UInt64.not_le.mpr h]
  have hans : answer ucmp op sequence sep e.1.userKey (e :: rest) =
      answer ucmp op sequence sep e.1.userKey rest := by
    simp only [answer, ReadView.versionsOf_cons_of_eq (v := snapshotView ucmp sequence sep e.1.userKey) rest hself, hnone, Option.toList_none,
      List.nil_append]
  rw [scan_cons, hans]
  cases rest with
  | nil => rfl
  | cons e' rest' =>
    by_cases hkey : ucmp e'.1.userKey e.1.userKey = .eq
    · -- the next entry is of the same key: it starts the key's versions
      have heq : e'.1.userKey = e.1.userKey := Std.LawfulEqCmp.eq_of_compare hkey
      rw [List.dropWhile_cons_of_pos (by simp [hkey]), scan_cons e', heq]
    · -- the key has no visible version
      rw [answer_cons_of_ne rest' hkey, List.dropWhile_cons_of_neg (by simp [hkey])]
      rfl

/-- A visible entry is the newest version of its key that the snapshot sees. -/
theorem scan_cons_of_visible {e : ParsedInternalKey × Bytes} (rest : List (ParsedInternalKey × Bytes))
    (h : e.1.sequence ≤ sequence) {v : KeyVersion}
    (hv : (snapshotView ucmp sequence sep e.1.userKey).typedVersion e.1.sequence e.1.type e.2 = some v) :
    scan ucmp op sequence sep (e :: rest) =
      let o := ((snapshotView ucmp sequence sep e.1.userKey).versionsOf rest).foldl
        (GetOutcome.step (noEarlyMerge op) e.1.userKey)
        (GetOutcome.step (noEarlyMerge op) e.1.userKey .notFound v)
      (if o.shows then [(e.1.userKey, o.finish (noEarlyMerge op) e.1.userKey)] else []) ++
        scan ucmp op sequence sep (rest.dropWhile fun e' => ucmp e'.1.userKey e.1.userKey == .eq) := by
  have hself : ucmp e.1.userKey e.1.userKey = .eq := Std.ReflCmp.compare_self
  have hsome : (snapshotView ucmp sequence sep e.1.userKey).versionOf e = some v :=
    (versionOf_snapshotView h).trans hv
  rw [scan_cons]
  simp only [answer, ReadView.versionsOf_cons_of_eq (v := snapshotView ucmp sequence sep e.1.userKey) rest hself, hsome, Option.toList_some,
    List.singleton_append, List.foldl_cons]

/-- The newest visible version is a deletion: the key does not show. -/
theorem scan_cons_of_delete {e : ParsedInternalKey × Bytes} (rest : List (ParsedInternalKey × Bytes))
    (h : e.1.sequence ≤ sequence)
    (hv : (snapshotView ucmp sequence sep e.1.userKey).typedVersion e.1.sequence e.1.type e.2 = some .delete) :
    scan ucmp op sequence sep (e :: rest) =
      scan ucmp op sequence sep (rest.dropWhile fun e' => ucmp e'.1.userKey e.1.userKey == .eq) := by
  rw [scan_cons_of_visible rest h hv]
  simp only [GetOutcome.step, GetOutcome.foldl_step_of_isDecided (rfl : GetOutcome.deleted.isDecided = true)]
  rfl

/-- The newest visible version is a value: the key shows with it. -/
theorem scan_cons_of_put {e : ParsedInternalKey × Bytes} (rest : List (ParsedInternalKey × Bytes))
    (h : e.1.sequence ≤ sequence) {value : Bytes}
    (hv : (snapshotView ucmp sequence sep e.1.userKey).typedVersion e.1.sequence e.1.type e.2 =
      some (.put value)) :
    scan ucmp op sequence sep (e :: rest) = (e.1.userKey, .ok value) ::
      scan ucmp op sequence sep (rest.dropWhile fun e' => ucmp e'.1.userKey e.1.userKey == .eq) := by
  rw [scan_cons_of_visible rest h hv]
  simp only [GetOutcome.step,
    GetOutcome.foldl_step_of_isDecided (rfl : (GetOutcome.found value).isDecided = true)]
  rfl

/-- Operands pending stay pending or are merged: the key shows. -/
theorem shows_foldl_merging (u : Bytes) (vs : List KeyVersion) (operands : List Bytes) :
    (vs.foldl (GetOutcome.step (noEarlyMerge op) u) (.merging operands)).shows = true := by
  induction vs generalizing operands with
  | nil => rfl
  | cons v vs ih =>
    rw [List.foldl_cons]
    cases v with
    | merge operand => exact ih (operands ++ [operand])
    | put value | delete =>
      -- the operands are merged: the outcome is decided
      simp only [GetOutcome.step]
      rw [GetOutcome.foldl_step_of_isDecided (GetOutcome.isDecided_mergeOnto _ _)]
      unfold GetOutcome.mergeOnto
      split <;> rfl

/-- The newest visible version is a merge operand: the key shows with the
merge of the operands down to the first value or deletion. -/
theorem scan_cons_of_merge {e : ParsedInternalKey × Bytes} (rest : List (ParsedInternalKey × Bytes))
    (h : e.1.sequence ≤ sequence) {operand : Bytes}
    (hv : (snapshotView ucmp sequence sep e.1.userKey).typedVersion e.1.sequence e.1.type e.2 =
      some (.merge operand)) :
    scan ucmp op sequence sep (e :: rest) =
      (e.1.userKey, (((snapshotView ucmp sequence sep e.1.userKey).versionsOf rest).foldl
        (GetOutcome.step (noEarlyMerge op) e.1.userKey) (.merging [operand])).finish
          (noEarlyMerge op) e.1.userKey) ::
      scan ucmp op sequence sep (rest.dropWhile fun e' => ucmp e'.1.userKey e.1.userKey == .eq) := by
  rw [scan_cons_of_visible rest h hv]
  have hstep : GetOutcome.step (noEarlyMerge op) e.1.userKey .notFound (.merge operand) =
      .merging [operand] := rfl
  simp only [hstep, shows_foldl_merging, if_true]
  rfl

end Front

/-! ## Sorted sources -/

/-- Entries strictly sorted by internal key. -/
def Sorted (ucmp : Comparator) (es : List (ParsedInternalKey × Bytes)) : Prop :=
  es.Pairwise fun a b => parsedInternalKeyCompare ucmp a.1 b.1 = .lt

section Sorted

variable {ucmp op sequence sep}

/-- Every key of the view is the user key of one of the entries. -/
theorem mem_scan {l : List (ParsedInternalKey × Bytes)} {p : Bytes × Except Status Bytes}
    (hp : p ∈ scan ucmp op sequence sep l) : ∃ x ∈ l, x.1.userKey = p.1 := by
  fun_induction scan ucmp op sequence sep l with
  | case1 => simp at hp
  | case2 e es o ih =>
    rw [List.mem_append] at hp
    rcases hp with hp | hp
    · -- the first key of the view is the first entry's
      split at hp
      · simp only [List.mem_singleton] at hp
        exact ⟨e, List.mem_cons_self, by rw [hp]⟩
      · simp at hp
    · obtain ⟨x, hx, hxp⟩ := ih hp
      exact ⟨x, List.mem_cons_of_mem _ ((List.dropWhile_suffix _).subset hx), hxp⟩

/-- An entry is below the lookup key of `t` at `s` when its user key is below
`t`, or it is `t` written above `s`. -/
theorem lt_lookupKey_iff {e : ParsedInternalKey} (ht : e.type.IsExtendedValueType) (t : Bytes) (s : UInt64) :
    parsedInternalKeyCompare ucmp e ⟨t, s, kValueTypeForSeek⟩ = .lt ↔
      ucmp e.userKey t = .lt ∨ (ucmp e.userKey t = .eq ∧ s < e.sequence) := by
  by_cases hkey : ucmp e.userKey t = .eq
  · have hle := toByte_le_kValueTypeForSeek ht
    simp only [parsedInternalKeyCompare, hkey, reduceCtorEq, false_or, true_and]
    -- the type byte never decides it below the lookup key
    split_ifs <;> simp_all [UInt8.lt_iff_toNat_lt, UInt8.le_iff_toNat_le]
    omega
  · rw [parsedInternalKeyCompare_of_userKey hkey]
    simp [hkey]

variable [Std.LawfulEqCmp ucmp]

variable (ucmp op sequence sep) in
/-- The view of a source is the keys of its versions of `u` at the front, if
any, then the view of the rest. -/
theorem scan_eq_append_dropWhile (u : Bytes) (l : List (ParsedInternalKey × Bytes)) :
    ∃ pre, (∀ p ∈ pre, p.1 = u) ∧
      scan ucmp op sequence sep l =
        pre ++ scan ucmp op sequence sep (l.dropWhile fun e => ucmp e.1.userKey u == .eq) := by
  cases l with
  | nil => exact ⟨[], by simp, rfl⟩
  | cons e rest =>
    by_cases hkey : ucmp e.1.userKey u = .eq
    · have heq : e.1.userKey = u := Std.LawfulEqCmp.eq_of_compare hkey
      subst heq
      rw [scan_cons, List.dropWhile_cons_of_pos (by simp [hkey])]
      exact ⟨_, by split <;> simp, rfl⟩
    · refine ⟨[], by simp, ?_⟩
      rw [List.dropWhile_cons_of_neg (by simp [hkey]), List.nil_append]

variable (ucmp) in
/-- Entries the snapshot does not see, at the front, leave the view as it is. -/
theorem scan_append_of_invisible {pre : List (ParsedInternalKey × Bytes)}
    (h : ∀ x ∈ pre, sequence < x.1.sequence) (l : List (ParsedInternalKey × Bytes)) :
    scan ucmp op sequence sep (pre ++ l) = scan ucmp op sequence sep l := by
  induction pre with
  | nil => rfl
  | cons x pre ih =>
    rw [List.cons_append, scan_cons_of_invisible ucmp _ (h x List.mem_cons_self)]
    exact ih fun y hy => h y (List.mem_cons_of_mem _ hy)

/-- In a sorted source, no entry after the first has a smaller user key. -/
theorem userKey_le_of_sorted {e x : ParsedInternalKey × Bytes} {rest : List (ParsedInternalKey × Bytes)}
    (hs : Sorted ucmp (e :: rest)) (hx : x ∈ e :: rest) : (ucmp e.1.userKey x.1.userKey).isLE := by
  rcases List.mem_cons.mp hx with rfl | hx
  · exact Std.ReflCmp.isLE_rfl
  · exact isLE_userKey_of_isLE (Ordering.isLE_of_eq_lt (List.rel_of_pairwise_cons hs hx))

/-- No key of the view of a sorted source is below its first user key. -/
theorem le_of_mem_scan {e : ParsedInternalKey × Bytes} {rest : List (ParsedInternalKey × Bytes)}
    (hs : Sorted ucmp (e :: rest)) {p : Bytes × Except Status Bytes}
    (hp : p ∈ scan ucmp op sequence sep (e :: rest)) : (ucmp e.1.userKey p.1).isLE := by
  obtain ⟨x, hx, hxp⟩ := mem_scan hp
  rw [← hxp]
  exact userKey_le_of_sorted hs hx

variable [Std.TransCmp ucmp]

omit [Std.LawfulEqCmp ucmp] in
/-- A sorted source whose first entry is not below `k`: no later one is either. -/
theorem not_lt_of_sorted {e : ParsedInternalKey × Bytes} {rest : List (ParsedInternalKey × Bytes)}
    (hs : Sorted ucmp (e :: rest)) {k : ParsedInternalKey} (he : parsedInternalKeyCompare ucmp e.1 k ≠ .lt) :
    ∀ x ∈ rest, parsedInternalKeyCompare ucmp x.1 k ≠ .lt := by
  intro x hx hxk
  have hke : (parsedInternalKeyCompare ucmp k e.1).isLE :=
    Std.OrientedCmp.isLE_of_isGE (Ordering.isGE_iff_ne_lt.mpr he)
  have hkx := Std.TransCmp.lt_of_isLE_of_lt hke (List.rel_of_pairwise_cons hs hx)
  exact absurd (Std.OrientedCmp.gt_of_lt hkx) (by simp [hxk])

/-- A seek to the lookup key of `t` at the snapshot lands where the view holds
the keys from `t` on. -/
theorem scan_drop_seek {es : List (ParsedInternalKey × Bytes)} (hs : Sorted ucmp es)
    (ht : ∀ e ∈ es, e.1.type.IsExtendedValueType) (t : Bytes) :
    scan ucmp op sequence sep (es.drop (es.countP fun e =>
        parsedInternalKeyCompare ucmp e.1 ⟨t, sequence, kValueTypeForSeek⟩ == .lt)) =
      (scan ucmp op sequence sep es).dropWhile fun p => ucmp p.1 t == .lt := by
  induction es with
  | nil => simp only [List.drop_nil, scan_nil, List.dropWhile_nil]
  | cons e rest ih =>
    have hrest := ih hs.of_cons fun x hx => ht x (List.mem_cons_of_mem _ hx)
    rw [List.countP_cons]
    by_cases hlt : parsedInternalKeyCompare ucmp e.1 ⟨t, sequence, kValueTypeForSeek⟩ = .lt
    · -- the seek passes `e`
      simp only [hlt, beq_self_eq_true, if_true, List.drop_succ_cons]
      rw [hrest]
      rcases (lt_lookupKey_iff (ht e List.mem_cons_self) t sequence).mp hlt with hkey | ⟨-, hinv⟩
      · -- `e`'s key is below `t`: its versions come first in both views
        obtain ⟨pre, hpre, hscan⟩ := scan_eq_append_dropWhile ucmp op sequence sep e.1.userKey rest
        have hbelow : ∀ p : Bytes × Except Status Bytes, p.1 = e.1.userKey → (ucmp p.1 t == .lt) = true :=
          fun p hp => by simp [hp, hkey]
        rw [hscan, scan_cons, List.dropWhile_append_of_pos fun p hp => hbelow p (hpre p hp),
          List.dropWhile_append_of_pos fun p hp => hbelow p (by split at hp <;> simp_all)]
      · -- `e` is `t` written after the snapshot
        rw [scan_cons_of_invisible ucmp rest hinv]
    · -- the seek stops at `e`: no key of the view is below `t`
      have hzero : (rest.countP fun x =>
          parsedInternalKeyCompare ucmp x.1 ⟨t, sequence, kValueTypeForSeek⟩ == .lt) = 0 :=
        List.countP_eq_zero.mpr fun x hx => by simpa using not_lt_of_sorted hs hlt x hx
      have hkey : (ucmp t e.1.userKey).isLE := by
        have := mt (lt_lookupKey_iff (ht e List.mem_cons_self) t sequence).mpr hlt
        exact Std.OrientedCmp.isLE_of_isGE (Ordering.isGE_iff_ne_lt.mpr fun h => this (Or.inl h))
      simp only [hlt, hzero, beq_iff_eq, if_false]
      refine (List.dropWhile_eq_self_iff.mpr fun hl => ?_).symm
      have hp := le_of_mem_scan hs (List.getElem_mem hl)
      simp only [beq_iff_eq]
      exact Std.OrientedCmp.not_lt_of_isLE (Std.TransCmp.isLE_trans hkey hp)

omit [Std.LawfulEqCmp ucmp] in
/-- The entries a seek to `k` passes over are below `k`. -/
theorem lt_of_mem_take_countP {l : List (ParsedInternalKey × Bytes)} (hs : Sorted ucmp l)
    (k : ParsedInternalKey) {x : ParsedInternalKey × Bytes}
    (hx : x ∈ l.take (l.countP fun e => parsedInternalKeyCompare ucmp e.1 k == .lt)) :
    parsedInternalKeyCompare ucmp x.1 k = .lt := by
  obtain ⟨i, hi, rfl⟩ := List.mem_take_iff_getElem.mp hx
  have hcut := (lt_countP_cut hs (isCut_lt k) i (by omega)).mp (by omega)
  simpa using hcut

/-- A seek from an entry of `u` to a key of `u` passes over entries of `u` only. -/
theorem userKey_of_mem_take_countP {e : ParsedInternalKey × Bytes} {rest : List (ParsedInternalKey × Bytes)}
    (hs : Sorted ucmp (e :: rest)) {k : ParsedInternalKey} {x : ParsedInternalKey × Bytes}
    (hx : x ∈ (e :: rest).take ((e :: rest).countP fun e => parsedInternalKeyCompare ucmp e.1 k == .lt))
    (hk : k.userKey = e.1.userKey) : x.1.userKey = e.1.userKey := by
  have hex := userKey_le_of_sorted hs (List.mem_of_mem_take hx)
  have hxk := isLE_userKey_of_isLE (Ordering.isLE_of_eq_lt (lt_of_mem_take_countP hs k hx))
  rw [hk] at hxk
  exact Std.LawfulEqCmp.eq_of_compare (Std.OrientedCmp.isLE_antisymm hxk hex)

/-- A seek from an entry of `u` to the smallest internal key of `u` lands where
the entries of `u` still end. -/
theorem dropWhile_drop_seek_skip {e : ParsedInternalKey × Bytes} {rest : List (ParsedInternalKey × Bytes)}
    (hs : Sorted ucmp (e :: rest)) :
    (((e :: rest).drop ((e :: rest).countP fun x =>
        parsedInternalKeyCompare ucmp x.1 ⟨e.1.userKey, 0, .kTypeDeletion⟩ == .lt)).dropWhile
        fun x => ucmp x.1.userKey e.1.userKey == .eq) =
      (e :: rest).dropWhile fun x => ucmp x.1.userKey e.1.userKey == .eq := by
  conv_rhs => rw [← List.take_append_drop ((e :: rest).countP fun x =>
    parsedInternalKeyCompare ucmp x.1 ⟨e.1.userKey, 0, .kTypeDeletion⟩ == .lt) (e :: rest)]
  refine (List.dropWhile_append_of_pos fun x hx => ?_).symm
  rw [userKey_of_mem_take_countP hs hx rfl]
  simp [Std.ReflCmp.compare_self]

/-- A seek from an entry of `u` written after the snapshot to the lookup key of
`u` at the snapshot passes at least that entry, and only entries the snapshot
does not see. -/
theorem scan_drop_seek_snapshot {e : ParsedInternalKey × Bytes} {rest : List (ParsedInternalKey × Bytes)}
    (hs : Sorted ucmp (e :: rest)) (ht : ∀ x ∈ e :: rest, x.1.type.IsExtendedValueType)
    (hinv : sequence < e.1.sequence) :
    let n := (e :: rest).countP fun x =>
      parsedInternalKeyCompare ucmp x.1 ⟨e.1.userKey, sequence, kValueTypeForSeek⟩ == .lt
    0 < n ∧ scan ucmp op sequence sep ((e :: rest).drop n) = scan ucmp op sequence sep (e :: rest) := by
  intro n
  have hself : ucmp e.1.userKey e.1.userKey = .eq := Std.ReflCmp.compare_self
  have he : parsedInternalKeyCompare ucmp e.1 ⟨e.1.userKey, sequence, kValueTypeForSeek⟩ = .lt :=
    (lt_lookupKey_iff (ht e List.mem_cons_self) _ _).mpr (Or.inr ⟨hself, hinv⟩)
  refine ⟨by simp [n, he], ?_⟩
  conv_rhs => rw [← List.take_append_drop n (e :: rest)]
  refine (scan_append_of_invisible ucmp (fun x hx => ?_) _).symm
  -- a passed entry is of `u` and below the lookup key: written after the snapshot
  have hxu := userKey_of_mem_take_countP hs hx rfl
  rcases (lt_lookupKey_iff (ht x (List.mem_of_mem_take hx)) _ _).mp (lt_of_mem_take_countP hs _ hx) with
    hlt | ⟨-, hseq⟩
  · rw [hxu, hself] at hlt
    exact absurd hlt (by decide)
  · exact hseq

omit [Std.LawfulEqCmp ucmp] in
/-- A seek to a key not below the entry at position `p` passes the `p` entries
before it. -/
theorem countP_eq_add_of_drop {es : List (ParsedInternalKey × Bytes)} (hs : Sorted ucmp es) {p : ℕ}
    {e : ParsedInternalKey × Bytes} {rest : List (ParsedInternalKey × Bytes)} (he : es.drop p = e :: rest)
    {k : ParsedInternalKey} (hk : parsedInternalKeyCompare ucmp e.1 k ≠ .gt) :
    (es.countP fun x => parsedInternalKeyCompare ucmp x.1 k == .lt) =
      p + (e :: rest).countP fun x => parsedInternalKeyCompare ucmp x.1 k == .lt := by
  have hsplit : Sorted ucmp (es.take p ++ es.drop p) := by rwa [List.take_append_drop]
  have hp : p ≤ es.length := by
    by_contra hlt
    rw [List.drop_eq_nil_of_le (by omega)] at he
    exact List.cons_ne_nil _ _ he.symm
  conv_lhs => rw [← List.take_append_drop p es]
  rw [List.countP_append, he, List.countP_eq_length.mpr, List.length_take_of_le hp]
  -- every entry before the position is below the one there, so below `k`
  intro x hx
  have hxe := (List.pairwise_append.mp hsplit).2.2 x hx e (by rw [he]; exact List.mem_cons_self)
  simpa using Std.TransCmp.lt_of_lt_of_isLE hxe (Ordering.isLE_iff_ne_gt.mpr hk)

omit [Std.LawfulEqCmp ucmp] [Std.TransCmp ucmp] in
/-- Keys from the upper bound on are not in the view below it. -/
theorem belowBound_scan_eq_nil {l : List (ParsedInternalKey × Bytes)} {ub : Bytes}
    (h : ∀ x ∈ l, ucmp x.1.userKey ub ≠ .lt) : belowBound ucmp (some ub) (scan ucmp op sequence sep l) = [] := by
  unfold belowBound
  refine List.takeWhile_eq_nil_iff.mpr fun hl => ?_
  obtain ⟨x, hx, hxp⟩ := mem_scan (List.getElem_mem hl)
  simpa [← hxp] using h x hx

/-- After the versions of its first key, a sorted source holds larger user keys only. -/
theorem lt_of_mem_dropWhile {e : ParsedInternalKey × Bytes} {rest : List (ParsedInternalKey × Bytes)}
    (hs : Sorted ucmp (e :: rest)) {y : ParsedInternalKey × Bytes}
    (hy : y ∈ rest.dropWhile fun x => ucmp x.1.userKey e.1.userKey == .eq) :
    ucmp e.1.userKey y.1.userKey = .lt := by
  induction rest with
  | nil => simp at hy
  | cons x rest ih =>
    have hsx : Sorted ucmp (e :: rest) := hs.sublist (List.Sublist.cons_cons e (List.sublist_cons_self x rest))
    by_cases hkey : ucmp x.1.userKey e.1.userKey = .eq
    · rw [List.dropWhile_cons_of_pos (by simp [hkey])] at hy
      exact ih hsx hy
    · -- `x` is the first entry of a larger key, and `y` is `x` or after it
      rw [List.dropWhile_cons_of_neg (by simp [hkey])] at hy
      have hex : ucmp e.1.userKey x.1.userKey = .lt :=
        lt_of_isLE_of_ne_eq (userKey_le_of_sorted hs (by simp)) fun h => hkey (Std.OrientedCmp.eq_symm h)
      rcases List.mem_cons.mp hy with rfl | hy
      · exact hex
      · have hxy := userKey_le_of_sorted hs.of_cons (List.mem_cons_of_mem _ hy)
        exact Std.TransCmp.lt_of_lt_of_isLE hex hxy

omit [Std.LawfulEqCmp ucmp] in
/-- In a sorted source the later versions of the first entry's user key are
not newer. -/
theorem sequence_le_of_sorted {e x : ParsedInternalKey × Bytes} {rest : List (ParsedInternalKey × Bytes)}
    (hs : Sorted ucmp (e :: rest)) (hx : x ∈ rest) (hkey : ucmp x.1.userKey e.1.userKey = .eq) :
    x.1.sequence ≤ e.1.sequence := by
  have hlt := List.rel_of_pairwise_cons hs hx
  rw [parsedInternalKeyCompare, Std.OrientedCmp.eq_symm hkey] at hlt
  by_contra hle
  -- a newer `x` would sort before `e`
  have hgt : e.1.sequence < x.1.sequence := UInt64.not_le.mp hle
  simp [hgt, UInt64.not_lt.mpr (UInt64.le_of_lt hgt)] at hlt

/-- The keys of the view of a sorted source are strictly increasing. -/
theorem pairwise_scan {l : List (ParsedInternalKey × Bytes)} (hs : Sorted ucmp l) :
    (scan ucmp op sequence sep l).Pairwise fun a b => ucmp a.1 b.1 = .lt := by
  fun_induction scan ucmp op sequence sep l with
  | case1 => exact List.Pairwise.nil
  | case2 e es o ih =>
    have hafter : Sorted ucmp (es.dropWhile fun e' => ucmp e'.1.userKey e.1.userKey == .eq) :=
      hs.of_cons.sublist (List.dropWhile_sublist _)
    refine List.pairwise_append.mpr ⟨by split <;> simp, ih hafter, fun a ha b hb => ?_⟩
    have ha1 : a.1 = e.1.userKey := by split at ha <;> simp_all
    obtain ⟨y, hy, hyb⟩ := mem_scan hb
    rw [ha1, ← hyb]
    exact lt_of_mem_dropWhile hs hy

end Sorted

end UserView

end HapDB
