import HapDB.Db.RangeDelAggregator

/-!
# Each fragment comes from the tombstones over it, when every tombstone is a range

What `ShouldDelete` is meant to answer: a key is deleted
when a tombstone with a larger sequence number in the window covers it, the
tombstone covering the internal keys from its start key at the largest
sequence number up to its end key there (`RangeTombstone.Covers`).

`FragmentTombstones` is sound when every tombstone is a range, start key below
end key, and they come sorted by start key (`FragmentTombstones_sound`): every
fragment is a range, and each of its sequence numbers is that of a tombstone
over the whole fragment (`SoundFragment`).  The run keeps an invariant
(`FragInv`) over the fragments cut so far and the working set of end keys:
every end key in the set is that of a tombstone begun at or before
`cur_start_key`, at or after it, and the set is ordered by user key.  A flush
cuts fragments `[cur_start_key, end)` that the end keys still in the set reach
past (`flushLoop_sound`), and keeps those at or past the next start key.

A tombstone whose start key is above its end key breaks this.  Its end key
goes into the set all the same, the flush then starts the next fragment there,
below the start key of the tombstones it takes its sequence numbers from, and
the fragment list is no longer sorted.  DeleteRange writes such a tombstone
without a check, and both walks of the aggregator then delete a key that no
tombstone covers (`inverted_tombstone_deletes_uncovered_key`).
-/

namespace HapDB

/-- `BytewiseComparator()` is the lexicographic comparison of byte lists. -/
theorem bytewiseCompare_eq_compareLex : bytewiseCompare = List.compareLex compare := by
  funext a b
  induction a generalizing b with
  | nil => cases b <;> rfl
  | cons x xs ih =>
      cases b with
      | nil => rfl
      | cons y ys =>
          simp only [bytewiseCompare, List.compareLex]
          cases compare x y <;> simp [ih]

instance : Std.TransCmp bytewiseCompare := bytewiseCompare_eq_compareLex ▸ inferInstance

/-! ## What a tombstone deletes -/

/-- The internal key a range starts or ends at: the user key at the largest
sequence number. -/
def rangeBound (userKey : Bytes) : ParsedInternalKey :=
  ⟨userKey, kMaxSequenceNumber, .kTypeRangeDeletion⟩

/-- A tombstone covers the key: `[start@kMaxSeq, end@kMaxSeq)` holds it. -/
def RangeTombstone.Covers (ucmp : Comparator) (t : RangeTombstone) (k : ParsedInternalKey) : Prop :=
  (parsedInternalKeyCompare ucmp (rangeBound t.startKey) k).isLE ∧
    parsedInternalKeyCompare ucmp k (rangeBound t.endKey) = .lt

instance (ucmp : Comparator) (t : RangeTombstone) (k : ParsedInternalKey) :
    Decidable (t.Covers ucmp k) :=
  inferInstanceAs (Decidable (_ ∧ _))

/-- A fragment that is a range, each of whose sequence numbers is that of a
tombstone of `ts` over the whole fragment. -/
def SoundFragment (ucmp : Comparator) (ts : List RangeTombstone) (f : RangeTombstoneStack) : Prop :=
  ucmp f.startKey f.endKey = .lt ∧
    ∀ s ∈ f.seqs, ∃ t ∈ ts, t.seq = s ∧ (ucmp t.startKey f.startKey).isLE ∧
      (ucmp f.endKey t.endKey).isLE

/-! ## Comparisons -/

@[simp] theorem Ordering.bne_gt (o : Ordering) : (o != .gt) = o.isLE := by
  cases o <;> rfl

theorem lt_of_isLE_of_ne_eq {o : Ordering} (hle : o.isLE) (hne : o ≠ .eq) : o = .lt := by
  cases o <;> simp_all

/-- A comparison of internal keys is decided by the user keys when they differ. -/
theorem parsedInternalKeyCompare_of_userKey {ucmp : Comparator} {a b : ParsedInternalKey}
    (h : ucmp a.userKey b.userKey ≠ .eq) :
    parsedInternalKeyCompare ucmp a b = ucmp a.userKey b.userKey := by
  unfold parsedInternalKeyCompare
  split <;> simp_all

theorem isLE_userKey_of_isLE {ucmp : Comparator} {a b : ParsedInternalKey}
    (h : (parsedInternalKeyCompare ucmp a b).isLE) : (ucmp a.userKey b.userKey).isLE := by
  by_cases heq : ucmp a.userKey b.userKey = .eq
  · simp [heq]
  · rwa [← parsedInternalKeyCompare_of_userKey heq]

section Lawful

variable {ucmp : Comparator} [Std.TransCmp ucmp]

theorem isLE_of_not_isLE {a b : Bytes} (h : ¬ (ucmp a b).isLE) : (ucmp b a).isLE := by
  have hgt : ucmp a b = .gt := by simpa using h
  simp [Std.OrientedCmp.lt_of_gt hgt]

theorem isLE_userKey_of_gt {a b : ParsedInternalKey} (h : parsedInternalKeyCompare ucmp a b = .gt) :
    (ucmp b.userKey a.userKey).isLE := by
  by_cases heq : ucmp a.userKey b.userKey = .eq
  · simp [Std.OrientedCmp.eq_symm heq]
  · rw [parsedInternalKeyCompare_of_userKey heq] at h
    simp [Std.OrientedCmp.lt_of_gt h]

/-- In a list ordered by `R`, every element is `R`-below the last or is it. -/
theorem rel_getLast_of_pairwise {α : Type*} {R : α → α → Prop} {l : List α} (hl : l.Pairwise R)
    {x y : α} (hx : x ∈ l) (hy : l.getLast? = some y) : x = y ∨ R x y := by
  rw [← List.dropLast_append_getLast? y hy] at hl hx
  rcases List.mem_append.mp hx with hx | hx
  · exact .inr ((List.pairwise_append.mp hl).2.2 x hx y (List.mem_singleton_self y))
  · exact .inl (List.mem_singleton.mp hx)

end Lawful

/-! ## The sequence numbers a fragment gets -/

namespace FragmentedRangeTombstoneList

theorem mem_keepVisible (snapshots : List UInt64) :
    ∀ (nextSnapshot : UInt64) (seqs : List UInt64) (s : UInt64),
      s ∈ keepVisible snapshots nextSnapshot seqs → s ∈ seqs
  | _, [], s, hs => by simp [keepVisible] at hs
  | n, q :: rest, s, hs => by
      unfold keepVisible at hs
      dsimp only at hs
      split_ifs at hs with hle hub
      · rw [List.mem_singleton.mp hs]
        exact List.mem_cons_self
      · rcases List.mem_cons.mp hs with rfl | hs
        · exact List.mem_cons_self
        · exact List.mem_cons_of_mem _ (mem_keepVisible snapshots _ rest s hs)
      · exact List.mem_cons_of_mem _ (mem_keepVisible snapshots _ rest s hs)

/-- Every sequence number a fragment gets is that of an end key over it. -/
theorem mem_flushSeqs {forCompaction : Bool} {snapshots : List UInt64}
    {ends : List ParsedInternalKey} {s : UInt64} (hs : s ∈ flushSeqs forCompaction snapshots ends) :
    ∃ x ∈ ends, x.sequence = s := by
  have hsorted : s ∈ (ends.map (·.sequence)).insertionSort (fun a b => b ≤ a) := by
    unfold flushSeqs at hs
    split at hs
    · exact mem_keepVisible snapshots _ _ s hs
    · exact hs
  simpa using (List.mem_insertionSort _).mp hsorted

end FragmentedRangeTombstoneList

/-! ## The working set of end keys -/

section Fragmenting

open FragmentedRangeTombstoneList

variable {ucmp : Comparator}

/-- An end key of the working set: that of a tombstone of `ts` begun at or
before `cur`. -/
def OpenEnd (ucmp : Comparator) (ts : List RangeTombstone) (cur : Bytes) (x : ParsedInternalKey) :
    Prop :=
  ∃ t ∈ ts, t.seq = x.sequence ∧ t.endKey = x.userKey ∧ (ucmp t.startKey cur).isLE

/-- The working set at `cur_start_key = cur`: every end key open there and at
or after it. -/
def EndsAfter (ucmp : Comparator) (ts : List RangeTombstone) (cur : Bytes)
    (ends : List ParsedInternalKey) : Prop :=
  ∀ x ∈ ends, OpenEnd ucmp ts cur x ∧ (ucmp cur x.userKey).isLE

/-- Ordered by user key. -/
def ByUserKey (ucmp : Comparator) (ends : List ParsedInternalKey) : Prop :=
  ends.Pairwise fun a b => (ucmp a.userKey b.userKey).isLE

theorem SoundFragment.mono {ts ts' : List RangeTombstone} {f : RangeTombstoneStack}
    (h : SoundFragment ucmp ts f) (hts : ts ⊆ ts') : SoundFragment ucmp ts' f := by
  obtain ⟨hlt, hseqs⟩ := h
  refine ⟨hlt, fun s hs => ?_⟩
  obtain ⟨t, ht, hrest⟩ := hseqs s hs
  exact ⟨t, hts ht, hrest⟩

/-- A fragment `[cur, curEnd)` cut from end keys open at `cur` that all reach
`curEnd` is sound. -/
theorem sound_cut (ts : List RangeTombstone) (forCompaction : Bool) (snapshots : List UInt64)
    {cur curEnd : Bytes} {ends : List ParsedInternalKey} (hlt : ucmp cur curEnd = .lt)
    (hends : EndsAfter ucmp ts cur ends) (hreach : ∀ x ∈ ends, (ucmp curEnd x.userKey).isLE) :
    SoundFragment ucmp ts ⟨cur, curEnd, flushSeqs forCompaction snapshots ends⟩ := by
  refine ⟨hlt, fun s hs => ?_⟩
  obtain ⟨x, hx, rfl⟩ := mem_flushSeqs hs
  obtain ⟨t, ht, hseq, hend, hstart⟩ := (hends x hx).1
  exact ⟨t, ht, hseq, hstart, hend ▸ hreach x hx⟩

/-- The invariant of `FragmentTombstones` after the tombstones `ts`. -/
structure FragInv (ucmp : Comparator) (ts : List RangeTombstone) (st : Fragmenter) : Prop where
  sound : ∀ f ∈ st.tombstones, SoundFragment ucmp ts f
  ends : EndsAfter ucmp ts st.curStartKey st.curEndKeys
  sorted : ByUserKey ucmp st.curEndKeys
  /-- Something is left to cut: an end key past `cur_start_key`. -/
  live : st.curEndKeys ≠ [] → ∃ x ∈ st.curEndKeys, ucmp st.curStartKey x.userKey = .lt

theorem fragInv_init : FragInv ucmp [] ⟨[], [], []⟩ :=
  ⟨by simp, by simp [EndsAfter], List.Pairwise.nil, by simp⟩

theorem mem_insertEndKey {l : List ParsedInternalKey} {k x : ParsedInternalKey}
    (hx : x ∈ insertEndKey ucmp l k) : x ∈ l ∨ x = k := by
  unfold insertEndKey at hx
  split at hx
  · exact .inl hx
  · rcases (List.mem_orderedInsert _).mp hx with rfl | hx
    · exact .inr rfl
    · exact .inl hx

variable [Std.TransCmp ucmp]

theorem isLE_refl (a : Bytes) : (ucmp a a).isLE := Std.ReflCmp.isLE_rfl

theorem OpenEnd.mono {ts ts' : List RangeTombstone} {cur cur' : Bytes} {x : ParsedInternalKey}
    (h : OpenEnd ucmp ts cur x) (hts : ts ⊆ ts') (hcur : (ucmp cur cur').isLE) :
    OpenEnd ucmp ts' cur' x := by
  obtain ⟨t, ht, hseq, hend, hstart⟩ := h
  exact ⟨t, hts ht, hseq, hend, Std.TransCmp.isLE_trans hstart hcur⟩

theorem ByUserKey.head_le {it : ParsedInternalKey} {rest : List ParsedInternalKey}
    (h : ByUserKey ucmp (it :: rest)) : ∀ x ∈ it :: rest, (ucmp it.userKey x.userKey).isLE := by
  intro x hx
  rcases List.mem_cons.mp hx with rfl | hx
  · exact isLE_refl _
  · exact (List.pairwise_cons.mp h).1 x hx

/-- The loop of `flush_current_tombstones` cuts sound fragments, and keeps end
keys open at and past the next start key. -/
theorem flushLoop_sound (ts : List RangeTombstone) (forCompaction : Bool)
    (snapshots : List UInt64) (nextStartKey : Bytes) :
    ∀ (cur : Bytes) (ends : List ParsedInternalKey) (out : List RangeTombstoneStack),
      (∀ f ∈ out, SoundFragment ucmp ts f) → EndsAfter ucmp ts cur ends → ByUserKey ucmp ends →
      ucmp cur nextStartKey = .lt →
      let r := flushLoop ucmp forCompaction snapshots nextStartKey cur ends out
      (∀ f ∈ r.1, SoundFragment ucmp ts f) ∧
        ∀ kept, r.2 = some kept → kept.Sublist ends ∧ EndsAfter ucmp ts nextStartKey kept
  | _, [], out, hout, _, _, _ => ⟨hout, by simp [flushLoop]⟩
  | cur, it :: rest, out, hout, hends, hsorted, hnext => by
      have hhead := hsorted.head_le
      have hrest : EndsAfter ucmp ts cur rest := fun x hx => hends x (List.mem_cons_of_mem _ hx)
      have hrestSorted : ByUserKey ucmp rest := (List.pairwise_cons.mp hsorted).2
      dsimp only [flushLoop]
      split_ifs with hempty hreached
      · -- an empty tombstone is skipped
        obtain ⟨hsound, hkept⟩ :=
          flushLoop_sound ts forCompaction snapshots nextStartKey cur rest out hout hrest
            hrestSorted hnext
        exact ⟨hsound, fun kept hk => ⟨(hkept kept hk).1.trans (List.sublist_cons_self _ _),
          (hkept kept hk).2⟩⟩
      · -- the end key reaches the next start key: the last fragment ends there
        have hreach : ∀ x ∈ it :: rest, (ucmp nextStartKey x.userKey).isLE := fun x hx =>
          Std.TransCmp.isLE_trans (by simpa using hreached) (hhead x hx)
        refine ⟨fun f hf => ?_, fun kept hk => ?_⟩
        · rcases List.mem_append.mp hf with hf | hf
          · exact hout f hf
          · rw [List.mem_singleton.mp hf]
            exact sound_cut ts forCompaction snapshots hnext hends hreach
        · cases hk
          exact ⟨List.Sublist.refl _, fun x hx =>
            ⟨(hends x hx).1.mono (List.Subset.refl _) (Ordering.isLE_of_eq_lt hnext), hreach x hx⟩⟩
      · -- the fragment ends at this end key, and the loop goes on from it
        have hgt : ucmp nextStartKey it.userKey = .gt := by simpa using hreached
        have hcut : ucmp cur it.userKey = .lt := lt_of_isLE_of_ne_eq (hends it List.mem_cons_self).2 hempty
        have hout' : ∀ f ∈ out ++ [⟨cur, it.userKey, flushSeqs forCompaction snapshots (it :: rest)⟩],
            SoundFragment ucmp ts f := by
          intro f hf
          rcases List.mem_append.mp hf with hf | hf
          · exact hout f hf
          · rw [List.mem_singleton.mp hf]
            exact sound_cut ts forCompaction snapshots hcut hends hhead
        have hrest' : EndsAfter ucmp ts it.userKey rest := fun x hx =>
          ⟨(hrest x hx).1.mono (List.Subset.refl _) (Ordering.isLE_of_eq_lt hcut),
            hhead x (List.mem_cons_of_mem _ hx)⟩
        obtain ⟨hsound, hkept⟩ :=
          flushLoop_sound ts forCompaction snapshots nextStartKey it.userKey rest _ hout' hrest'
            hrestSorted (Std.OrientedCmp.lt_of_gt hgt)
        exact ⟨hsound, fun kept hk => ⟨(hkept kept hk).1.trans (List.sublist_cons_self _ _),
          (hkept kept hk).2⟩⟩

/-! ## Inserting an end key -/

theorem byUserKey_orderedInsert (k : ParsedInternalKey) :
    ∀ (l : List ParsedInternalKey), ByUserKey ucmp l →
      ByUserKey ucmp (l.orderedInsert (fun a b => parsedInternalKeyCompare ucmp a b ≠ .gt) k)
  | [], _ => List.pairwise_singleton _ _
  | b :: l, hl => by
      obtain ⟨hb, hl⟩ := List.pairwise_cons.mp hl
      simp only [List.orderedInsert]
      split_ifs with hkb
      · -- `k` goes in front of `b`, and so of everything after it
        have hk := isLE_userKey_of_isLE (Ordering.isLE_iff_ne_gt.mpr hkb)
        refine List.pairwise_cons.mpr ⟨fun c hc => ?_, List.pairwise_cons.mpr ⟨hb, hl⟩⟩
        rcases List.mem_cons.mp hc with rfl | hc
        · exact hk
        · exact Std.TransCmp.isLE_trans hk (hb c hc)
      · have hbk := isLE_userKey_of_gt (not_not.mp hkb)
        refine List.pairwise_cons.mpr ⟨fun c hc => ?_, byUserKey_orderedInsert k l hl⟩
        rcases (List.mem_orderedInsert _).mp hc with rfl | hc
        · exact hbk
        · exact hb c hc

theorem byUserKey_insertEndKey {l : List ParsedInternalKey} (k : ParsedInternalKey)
    (hl : ByUserKey ucmp l) : ByUserKey ucmp (insertEndKey ucmp l k) := by
  unfold insertEndKey
  split
  · exact hl
  · exact byUserKey_orderedInsert k l hl

/-- After the insertion the set has an end key with `k`'s user key: `k`, or the
equal key that was there. -/
theorem exists_insertEndKey (l : List ParsedInternalKey) (k : ParsedInternalKey) :
    ∃ x ∈ insertEndKey ucmp l k, ucmp x.userKey k.userKey = .eq := by
  unfold insertEndKey
  split
  · rename_i hany
    obtain ⟨x, hx, heq⟩ := List.any_eq_true.mp hany
    refine ⟨x, hx, ?_⟩
    by_contra hne
    rw [← parsedInternalKeyCompare_of_userKey hne] at hne
    exact hne (by simpa using heq)
  · exact ⟨k, (List.mem_orderedInsert _).mpr (.inl rfl), Std.ReflCmp.compare_self⟩

/-! ## The run -/

/-- A flush at a next start key past `cur_start_key`. -/
theorem flushCurrentTombstones_sound {ts : List RangeTombstone} {st : Fragmenter}
    (forCompaction : Bool) (snapshots : List UInt64) (hinv : FragInv ucmp ts st) {next : Bytes}
    (hnext : ucmp st.curStartKey next = .lt) :
    let st' := flushCurrentTombstones ucmp forCompaction snapshots st next
    (∀ f ∈ st'.tombstones, SoundFragment ucmp ts f) ∧ st'.curStartKey = next ∧
      EndsAfter ucmp ts next st'.curEndKeys ∧ ByUserKey ucmp st'.curEndKeys := by
  obtain ⟨hsound, hkept⟩ := flushLoop_sound ts forCompaction snapshots next st.curStartKey
    st.curEndKeys st.tombstones hinv.sound hinv.ends hinv.sorted hnext
  unfold flushCurrentTombstones
  cases hr : flushLoop ucmp forCompaction snapshots next st.curStartKey st.curEndKeys st.tombstones
    with
  | mk out kept =>
      rw [hr] at hsound hkept
      cases kept with
      | none => exact ⟨hsound, rfl, by simp [EndsAfter], List.Pairwise.nil⟩
      | some kept =>
          obtain ⟨hsub, hends⟩ := hkept kept rfl
          exact ⟨hsound, rfl, hends, hinv.sorted.sublist hsub⟩

/-- One round of the loop: a flush if the start key moves on, then the new end
key goes into the set. -/
theorem fragmentStep_inv {ts : List RangeTombstone} {st : Fragmenter} (forCompaction : Bool)
    (snapshots : List UInt64) (hinv : FragInv ucmp ts st) {t : RangeTombstone}
    (hwf : ucmp t.startKey t.endKey = .lt)
    (hle : st.curEndKeys ≠ [] → (ucmp st.curStartKey t.startKey).isLE) :
    let st₁ := if !st.curEndKeys.isEmpty && ucmp st.curStartKey t.startKey != .eq then
        flushCurrentTombstones ucmp forCompaction snapshots st t.startKey
      else st
    FragInv ucmp (ts ++ [t])
      { st₁ with
        curStartKey := t.startKey
        curEndKeys := insertEndKey ucmp st₁.curEndKeys ⟨t.endKey, t.seq, .kTypeRangeDeletion⟩ } := by
  intro st₁
  -- before the insertion: sound fragments, and the set open at the new start key
  have hbefore : (∀ f ∈ st₁.tombstones, SoundFragment ucmp ts f) ∧
      EndsAfter ucmp ts t.startKey st₁.curEndKeys ∧ ByUserKey ucmp st₁.curEndKeys := by
    simp only [st₁]
    split_ifs with hflush
    · simp only [Bool.and_eq_true, Bool.not_eq_true', List.isEmpty_eq_false_iff, bne_iff_ne,
        ne_eq] at hflush
      obtain ⟨hsound, -, hends, hsorted⟩ := flushCurrentTombstones_sound forCompaction snapshots
        hinv (lt_of_isLE_of_ne_eq (hle hflush.1) hflush.2)
      exact ⟨hsound, hends, hsorted⟩
    · -- no flush: the set is empty, or the start key is the same
      refine ⟨hinv.sound, fun x hx => ?_, hinv.sorted⟩
      have hne : st.curEndKeys ≠ [] := List.ne_nil_of_mem hx
      have heq : ucmp st.curStartKey t.startKey = .eq := by
        simpa [List.isEmpty_eq_false_iff.mpr hne] using hflush
      obtain ⟨hopen, hafter⟩ := hinv.ends x hx
      exact ⟨hopen.mono (List.Subset.refl _) (Ordering.isLE_of_eq_eq heq),
        Std.TransCmp.isLE_trans (Ordering.isLE_of_eq_eq (Std.OrientedCmp.eq_symm heq)) hafter⟩
  obtain ⟨hsound, hends, hsorted⟩ := hbefore
  have hsub : ts ⊆ ts ++ [t] := List.subset_append_left _ _
  refine ⟨fun f hf => (hsound f hf).mono hsub, fun x hx => ?_,
    byUserKey_insertEndKey _ hsorted, fun _ => ?_⟩
  · rcases mem_insertEndKey hx with hx | rfl
    · exact ⟨(hends x hx).1.mono hsub (isLE_refl _), (hends x hx).2⟩
    · exact ⟨⟨t, List.mem_append_right _ (List.mem_singleton_self t), rfl, rfl,
        isLE_refl _⟩, Ordering.isLE_of_eq_lt hwf⟩
  · -- the new end key, or an equal one, is past the new start key
    obtain ⟨x, hx, heq⟩ : ∃ x ∈ insertEndKey ucmp st₁.curEndKeys ⟨t.endKey, t.seq, .kTypeRangeDeletion⟩,
        ucmp x.userKey t.endKey = .eq := exists_insertEndKey _ _
    exact ⟨x, hx, Std.TransCmp.lt_of_lt_of_eq hwf (Std.OrientedCmp.eq_symm heq)⟩

theorem fragmentLoop_inv (forCompaction : Bool) (snapshots : List UInt64) :
    ∀ (input ts : List RangeTombstone) (st : Fragmenter), FragInv ucmp ts st →
      (∀ t ∈ input, ucmp t.startKey t.endKey = .lt) →
      input.Pairwise (fun a b => (ucmp a.startKey b.startKey).isLE) →
      (∀ t ∈ input, st.curEndKeys ≠ [] → (ucmp st.curStartKey t.startKey).isLE) →
      FragInv ucmp (ts ++ input) (fragmentLoop ucmp forCompaction snapshots st input)
  | [], ts, st, hinv, _, _, _ => by simpa [fragmentLoop] using hinv
  | t :: rest, ts, st, hinv, hwf, hsorted, hle => by
      obtain ⟨ht, hrest⟩ := List.pairwise_cons.mp hsorted
      have hstep := fragmentStep_inv forCompaction snapshots hinv
        (hwf t List.mem_cons_self) (hle t List.mem_cons_self)
      have := fragmentLoop_inv forCompaction snapshots rest (ts ++ [t]) _ hstep
        (fun t' ht' => hwf t' (List.mem_cons_of_mem _ ht')) hrest (fun t' ht' _ => ht t' ht')
      simpa [fragmentLoop] using this

/-- `FragmentTombstones` on tombstones that are ranges, sorted by start key,
cuts only sound fragments. -/
theorem FragmentTombstones_sound (input : List RangeTombstone) (forCompaction : Bool)
    (snapshots : List UInt64) (hwf : ∀ t ∈ input, ucmp t.startKey t.endKey = .lt)
    (hsorted : input.Pairwise fun a b => (ucmp a.startKey b.startKey).isLE) :
    ∀ f ∈ FragmentTombstones ucmp input forCompaction snapshots, SoundFragment ucmp input f := by
  have hinv := fragmentLoop_inv forCompaction snapshots input [] _ fragInv_init hwf hsorted
    (by simp)
  rw [List.nil_append] at hinv
  unfold FragmentTombstones
  dsimp only
  split
  · -- the rest is cut up to the largest end key, which is past `cur_start_key`
    rename_i last hlast
    have hne := List.ne_nil_of_mem (List.mem_of_getLast? hlast)
    obtain ⟨x, hx, hlt⟩ := hinv.live hne
    have hcur : ucmp (fragmentLoop ucmp forCompaction snapshots ⟨[], [], []⟩ input).curStartKey
        last.userKey = .lt := by
      rcases rel_getLast_of_pairwise hinv.sorted hx hlast with rfl | hxl
      · exact hlt
      · exact Std.TransCmp.lt_of_lt_of_isLE hlt hxl
    exact (flushCurrentTombstones_sound forCompaction snapshots hinv hcur).1
  · exact hinv.sound

end Fragmenting

/-! ## A tombstone whose start key is above its end key -/

/-- `DeleteRange([3], [1])` at `5`, below `DeleteRange([3], [5])` at `7`, in the
order of their internal keys. -/
def invertedTombstones : List RangeTombstone := [⟨[3], [5], 7⟩, ⟨[3], [1], 5⟩]

/-- The two fragmented for reads. -/
def invertedList : FragmentedRangeTombstoneList :=
  FragmentedRangeTombstoneList.create bytewiseCompare invertedTombstones false []

/-- The two read through a fragment iterator that sees every sequence number. -/
def invertedIter : FragmentedRangeTombstoneIterator :=
  FragmentedRangeTombstoneIterator.create invertedList kMaxSequenceNumber

theorem inverted_tombstone_deletes_uncovered_key :
    invertedList.tombstones = [⟨[3], [1], [7, 5]⟩, ⟨[1], [5], [7]⟩] ∧
      (∀ t ∈ invertedTombstones, ¬ t.Covers bytewiseCompare ⟨[2], 1, .kTypeValue⟩) ∧
      (((ReadRangeDelAggregator.create kMaxSequenceNumber).AddTombstones invertedIter none none).ShouldDelete
        bytewiseCompare ⟨[2], 1, .kTypeValue⟩ .kForwardTraversal).1 = true ∧
      (((ReadRangeDelAggregator.create kMaxSequenceNumber).AddTombstones invertedIter none none).ShouldDelete
        bytewiseCompare ⟨[2], 1, .kTypeValue⟩ .kBackwardTraversal).1 = true ∧
      (((CompactionRangeDelAggregator.create []).AddTombstones invertedIter none none).ShouldDelete
        bytewiseCompare ⟨[2], 1, .kTypeValue⟩ .kForwardTraversal).1 = true := by
  refine ⟨by decide, by decide, by decide +kernel, by decide +kernel, by decide +kernel⟩

/-- A lone tombstone that is not empty comes out as one fragment over its own
keys, whichever way round they are: nothing compares its start key with its
end key. -/
theorem FragmentedRangeTombstoneList.FragmentTombstones_single {ucmp : Comparator} [Std.ReflCmp ucmp]
    (t : RangeTombstone) (snapshots : List UInt64) (hne : ucmp t.startKey t.endKey ≠ .eq) :
    FragmentedRangeTombstoneList.FragmentTombstones ucmp [t] false snapshots =
      [⟨t.startKey, t.endKey, [t.seq]⟩] := by
  simp [FragmentedRangeTombstoneList.FragmentTombstones, FragmentedRangeTombstoneList.fragmentLoop,
    FragmentedRangeTombstoneList.insertEndKey, FragmentedRangeTombstoneList.flushCurrentTombstones,
    FragmentedRangeTombstoneList.flushLoop, FragmentedRangeTombstoneList.flushSeqs, hne,
    Std.ReflCmp.compare_self]

theorem inverted_tombstone_breaks_exact_fragments :
    (FragmentedRangeTombstoneList.create bytewiseCompare [⟨[3], [1], 5⟩] false []).tombstones =
        [⟨[3], [1], [5]⟩] ∧
      invertedList.tombstones.map (·.startKey) = [[3], [1]] ∧
      (invertedTombstones.filter fun t =>
        bytewiseCompare t.startKey [2] != .gt && bytewiseCompare [2] t.endKey == .lt) = [] ∧
      invertedIter.MaxCoveringTombstoneSeqnum bytewiseCompare [2] = 7 := by
  refine ⟨?_, by decide, by decide, by decide +kernel⟩
  -- one tombstone is sorted as it is, and fragmenting keeps it whole
  simp only [FragmentedRangeTombstoneList.create, FragmentedRangeTombstoneList.isSorted, if_true]
  exact FragmentedRangeTombstoneList.FragmentTombstones_single _ [] (by decide)

end HapDB
