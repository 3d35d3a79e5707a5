import HapDB.Proofs.Table.BlockLayout
import HapDB.Lib.Cursor

/-!
# The scans of `DataBlockIter`

Over a block that is a `BlockLayout`, the iterator's state between two calls
of `ParseNextDataKey` is one of two kinds:

* `Before L it j`: the next parse reads entry `j`, since the current value ends
  where entry `j` starts and the key holds the bytes entry `j` shares;
* `At L it i`: the iterator is on entry `i`, with its key and value.

`ParseNextDataKey_of_before` is the step between them, and
`ParseNextDataKey_of_end` the parse past the last entry.  Every loop of the
iterator is a run of that step, proved by induction on its fuel:

* `parseWhile_spec`: a scan from entry `j` stops at the first entry `k` where
  its condition fails, or past the end;
* `prevScan_spec`: `Prev`'s scan stops at the entry before the one it started
  from, and has cached every entry it passed;
* `restartBefore_spec`: `Prev`'s first loop finds a restart point before the
  current entry unless it is the first;
* `binarySeekLoop_spec`: `BinarySeek` returns a restart point whose key is
  not above the target, or the first one.

What the operations never change is their `Frame`; a cache of consecutive
entries (`CacheOk`) is what `Prev` relies on.
-/

namespace HapDB

namespace BlockLayout

variable (L : BlockLayout)

/-- The cache record of entry `i`. -/
def cachedEntry (i : ℕ) : CachedPrevEntry :=
  ⟨UInt32.ofNat (L.off i), (L.entry i).key, L.valueStart i, (L.entry i).value.length⟩

/-- The key at restart point `r`. -/
def restartKey (r : ℕ) : Bytes := (L.entry (L.restartEntry r)).key

end BlockLayout

namespace DataBlockIter

variable {L : BlockLayout} {cmp : Comparator} {it : DataBlockIter}

/-- The fields that the operations never change, as `NewIterator` sets them
for the block of `L`. -/
structure Frame (L : BlockLayout) (cmp : Comparator) (it : DataBlockIter) : Prop where
  comparator : it.comparator = cmp
  data : it.data = L.data
  initialized : it.initialized = true
  restarts : it.restarts = UInt32.ofNat L.limit
  numRestarts : it.numRestarts = UInt32.ofNat L.restartIdx.length

/-- The next `ParseNextDataKey` reads entry `j`: the current value ends where
entry `j` starts, and the key holds the bytes that entry `j` shares. -/
structure Before (L : BlockLayout) (it : DataBlockIter) (j : ℕ) : Prop where
  le : j ≤ L.entries.length
  next : it.valueOffset + it.valueSize = L.off j
  shared_le : (L.entry j).shared ≤ it.key.length
  take_key : it.key.take (L.entry j).shared = (L.entry j).key.take (L.entry j).shared
  restartIndex : it.restartIndex.toNat < L.restartIdx.length

/-- The iterator is on entry `i`. -/
structure At (L : BlockLayout) (it : DataBlockIter) (i : ℕ) : Prop where
  lt : i < L.entries.length
  current : it.current = UInt32.ofNat (L.off i)
  key : it.key = (L.entry i).key
  valueOffset : it.valueOffset = L.valueStart i
  valueSize : it.valueSize = (L.entry i).value.length
  restartIndex : it.restartIndex.toNat < L.restartIdx.length

/-- The cache holds consecutive entries of the block. -/
def CacheOk (L : BlockLayout) (cache : List CachedPrevEntry) : Prop :=
  ∃ j m, j + m ≤ L.entries.length ∧ cache = (List.range' j m).map L.cachedEntry

/-- What holds between any two calls. -/
structure Inv (L : BlockLayout) (cmp : Comparator) (it : DataBlockIter) : Prop where
  frame : Frame L cmp it
  cache : CacheOk L it.prevEntries

/-- The iterator is on entry `pos`, or invalid with `pos` past the last entry. -/
def Pos (L : BlockLayout) (it : DataBlockIter) (pos : ℕ) : Prop :=
  At L it pos ∨ (pos = L.entries.length ∧ it.Valid = false)

theorem cacheOk_nil : CacheOk L [] := ⟨0, 0, by simp, rfl⟩

/-! ## Reading the restart array -/

theorem Frame.restarts_toNat (hF : Frame L cmp it) : it.restarts.toNat = L.limit := by
  rw [hF.restarts, BlockLayout.toNat_ofNat_of_lt BlockLayout.limit_lt]

theorem Frame.numRestarts_toNat (hF : Frame L cmp it) : it.numRestarts.toNat = L.restartIdx.length := by
  have := BlockLayout.length_restartIdx_lt (L := L)
  rw [hF.numRestarts, BlockLayout.toNat_ofNat_of_lt (by omega)]

theorem Frame.GetRestartPoint_eq (hF : Frame L cmp it) {index : UInt32}
    (hr : index.toNat < L.restartIdx.length) :
    it.GetRestartPoint index = UInt32.ofNat (L.off (L.restartEntry index.toNat)) := by
  rw [GetRestartPoint, hF.restarts_toNat, hF.data, BlockLayout.restartPoint_eq hr]

theorem Frame.before_SeekToRestartPoint (hF : Frame L cmp it) {index : UInt32}
    (hr : index.toNat < L.restartIdx.length) :
    Before L (it.SeekToRestartPoint index) (L.restartEntry index.toNat) where
  le := BlockLayout.restartEntry_le_length hr
  next := by
    have hle := BlockLayout.restartEntry_le_length hr
    simp only [SeekToRestartPoint, hF.GetRestartPoint_eq hr, Nat.add_zero]
    exact BlockLayout.toNat_ofNat_of_lt (BlockLayout.off_lt hle)
  shared_le := by simp [BlockLayout.shared_restartEntry hr]
  take_key := by simp [SeekToRestartPoint, BlockLayout.shared_restartEntry hr]
  restartIndex := hr

/-! ## One parse -/

theorem At.before_succ (h : At L it i) : Before L it (i + 1) where
  le := h.lt
  next := by rw [h.valueOffset, h.valueSize, BlockLayout.valueStart_add h.lt]
  shared_le := by
    rcases Nat.lt_or_ge (i + 1) L.entries.length with hi | hi
    · exact h.key ▸ (L.follows i hi).2.1
    · simp [BlockLayout.entry_of_le hi]
  take_key := by
    rcases Nat.lt_or_ge (i + 1) L.entries.length with hi | hi
    · exact h.key ▸ (L.follows i hi).2.2.symm
    · simp [BlockLayout.entry_of_le hi]
  restartIndex := h.restartIndex

/-- The loop at the end of a parse only moves `restart_index_`, and keeps it
below `num_restarts_`. -/
theorem advanceRestartIndex_exists (it : DataBlockIter) :
    ∃ ri : UInt32, it.advanceRestartIndex = { it with restartIndex := ri } ∧
      (it.restartIndex.toNat < it.numRestarts.toNat → ri.toNat < it.numRestarts.toNat) := by
  fun_induction advanceRestartIndex it with
  | case1 it hguard ih =>
    obtain ⟨ri, heq, hlt⟩ := ih
    exact ⟨ri, heq, fun _ => hlt (UInt32.lt_iff_toNat_lt.mp hguard.1)⟩
  | case2 it _ => exact ⟨it.restartIndex, rfl, id⟩

theorem advanceRestartIndex_eq (it : DataBlockIter) :
    it.advanceRestartIndex = { it with restartIndex := it.advanceRestartIndex.restartIndex } := by
  obtain ⟨ri, heq, -⟩ := advanceRestartIndex_exists it
  rw [heq]

theorem restartIndex_advanceRestartIndex_lt (it : DataBlockIter)
    (h : it.restartIndex.toNat < it.numRestarts.toNat) :
    it.advanceRestartIndex.restartIndex.toNat < it.numRestarts.toNat := by
  obtain ⟨ri, heq, hlt⟩ := advanceRestartIndex_exists it
  rw [heq]
  exact hlt h

/-- `ParseNextDataKey` before entry `j` reads it. -/
theorem ParseNextDataKey_of_before (hF : Frame L cmp it) (hB : Before L it j) (hj : j < L.entries.length) :
    ∃ ri : UInt32, ri.toNat < L.restartIdx.length ∧
      it.ParseNextDataKey = (true, { it with
        current := UInt32.ofNat (L.off j), key := (L.entry j).key, valueOffset := L.valueStart j,
        valueSize := (L.entry j).value.length, restartIndex := ri }) := by
  have hoff := BlockLayout.off_lt (L := L) hj.le
  have hsh : (L.entry j).shared ≤ (L.entry j).key.length := by
    rcases j with _ | j
    · simp [BlockLayout.shared_restart_zero]
    · exact (L.follows j hj).1
  have hklen := BlockLayout.key_length_lt hj
  have hshared : (UInt32.ofNat (L.entry j).shared).toNat = (L.entry j).shared :=
    BlockLayout.toNat_ofNat_of_lt (by omega)
  have hns : (UInt32.ofNat ((L.entry j).key.length - (L.entry j).shared)).toNat =
      (L.entry j).key.length - (L.entry j).shared := BlockLayout.toNat_ofNat_of_lt (by omega)
  have hvl : (UInt32.ofNat (L.entry j).value.length).toNat = (L.entry j).value.length :=
    BlockLayout.toNat_ofNat_of_lt (BlockLayout.value_length_lt hj)
  -- entry `j` lies before the restart array
  have hbefore : ¬UInt32.ofNat (L.off j) ≥ it.restarts := by
    rw [hF.restarts, ge_iff_le, UInt32.le_iff_toNat_le, BlockLayout.toNat_ofNat_of_lt hoff,
      BlockLayout.toNat_ofNat_of_lt BlockLayout.limit_lt]
    exact Nat.not_le.mpr (entryOffset_lt_entryOffset hj le_rfl)
  have hdecode : DecodeEntry it.data (UInt32.ofNat (L.off j)).toNat it.restarts.toNat =
      some (UInt32.ofNat (L.entry j).shared, UInt32.ofNat ((L.entry j).key.length - (L.entry j).shared),
        UInt32.ofNat (L.entry j).value.length, L.off j + (L.entry j).header.length) := by
    rw [hF.data, hF.restarts_toNat, BlockLayout.toNat_ofNat_of_lt hoff, BlockLayout.DecodeEntry_off hj]
  have hdelta := BlockLayout.keyDelta_off hj
  have hnext : it.NextEntryOffset = UInt32.ofNat (L.off j) := by rw [NextEntryOffset, hB.next]
  have hkey : ¬it.key.length < (L.entry j).shared := Nat.not_lt.mpr hB.shared_le
  unfold ParseNextDataKey
  dsimp only
  rw [hnext, if_neg hbefore, hdecode]
  dsimp only
  rw [hshared, if_neg hkey, hns, hvl, hF.data, hdelta]
  -- either way the key is rebuilt whole
  have hkeyeq : (if UInt32.ofNat (L.entry j).shared = 0 then (L.entry j).key.drop (L.entry j).shared
      else it.key.take (L.entry j).shared ++ (L.entry j).key.drop (L.entry j).shared) = (L.entry j).key := by
    split
    · rename_i hzero
      have h0 : (L.entry j).shared = 0 := by rw [← hshared, hzero]; rfl
      rw [h0, List.drop_zero]
    · rw [hB.take_key, List.take_append_drop]
  rw [hkeyeq]
  by_cases hzero : UInt32.ofNat (L.entry j).shared = 0
  · -- a key that shares nothing: `restart_index_` moves past the restart points before it
    rw [if_pos hzero, advanceRestartIndex_eq]
    refine ⟨_, ?_, rfl⟩
    rw [← hF.numRestarts_toNat]
    exact restartIndex_advanceRestartIndex_lt _ (hF.numRestarts_toNat ▸ hB.restartIndex)
  · rw [if_neg hzero]
    exact ⟨it.restartIndex, hB.restartIndex, rfl⟩

/-- `ParseNextDataKey` past the last entry invalidates the iterator. -/
theorem ParseNextDataKey_of_end (hF : Frame L cmp it) (hB : Before L it L.entries.length) :
    it.ParseNextDataKey = (false, { it with current := it.restarts, restartIndex := it.numRestarts }) := by
  have hend : it.NextEntryOffset ≥ it.restarts := by
    rw [NextEntryOffset, hB.next, hF.restarts]
    exact UInt32.le_iff_toNat_le.mpr (Nat.le_refl _)
  unfold ParseNextDataKey
  dsimp only
  rw [if_pos hend]

/-- The parse step as the loops use it: the entry is read, and neither the
frame nor the cache changes. -/
theorem parse_step (hF : Frame L cmp it) (hB : Before L it j) (hj : j < L.entries.length) :
    it.ParseNextDataKey.1 = true ∧ Frame L cmp it.ParseNextDataKey.2 ∧ At L it.ParseNextDataKey.2 j ∧
      it.ParseNextDataKey.2.prevEntries = it.prevEntries := by
  obtain ⟨ri, hri, hparse⟩ := ParseNextDataKey_of_before hF hB hj
  rw [hparse]
  exact ⟨rfl, ⟨hF.1, hF.2, hF.3, hF.4, hF.5⟩, ⟨hj, rfl, rfl, rfl, rfl, hri⟩, rfl⟩

theorem parse_end (hF : Frame L cmp it) (hB : Before L it L.entries.length) :
    it.ParseNextDataKey.1 = false ∧ Frame L cmp it.ParseNextDataKey.2 ∧
      it.ParseNextDataKey.2.Valid = false ∧ it.ParseNextDataKey.2.prevEntries = it.prevEntries := by
  rw [ParseNextDataKey_of_end hF hB]
  refine ⟨rfl, ⟨hF.1, hF.2, hF.3, hF.4, hF.5⟩, ?_, rfl⟩
  simp [Valid]

theorem At.cachedEntry_eq (h : At L it i) : it.cachedEntry = L.cachedEntry i := by
  simp [cachedEntry, BlockLayout.cachedEntry, h.current, h.key, h.valueOffset, h.valueSize]

theorem At.valid (h : At L it i) (hF : Frame L cmp it) : it.Valid = true := by
  have hoff := BlockLayout.off_lt (L := L) h.lt.le
  simp only [Valid, h.current, hF.restarts, decide_eq_true_eq,
    BlockLayout.ofNat_lt_ofNat_iff hoff BlockLayout.limit_lt]
  exact entryOffset_lt_entryOffset h.lt le_rfl

theorem At.value_eq (h : At L it i) (hF : Frame L cmp it) : it.value = (L.entry i).value := by
  rw [value, h.valueOffset, h.valueSize, hF.data, BlockLayout.value_off h.lt]

/-! ## The scans -/

/-- A scan from entry `j`, whose condition holds on the entries before `k`
and fails on entry `k`, stops on entry `k`; past the end when `k` is the
number of entries. -/
theorem parseWhile_spec {cond : DataBlockIter → Bool} {k : ℕ} (hk : k ≤ L.entries.length)
    (hgo : ∀ it' i, i < k → Frame L cmp it' → At L it' i → cond it' = true)
    (hstop : ∀ it', Frame L cmp it' → At L it' k → cond it' = false) :
    ∀ (fuel : ℕ) (it : DataBlockIter) (j : ℕ), j ≤ k → k - j < fuel → Inv L cmp it → Before L it j →
      Inv L cmp (parseWhile cond fuel it) ∧ Pos L (parseWhile cond fuel it) k := by
  intro fuel
  induction fuel with
  | zero => intro it j _ hfuel; omega
  | succ fuel ih =>
    intro it j hjk hfuel hI hB
    rcases Nat.lt_or_ge j L.entries.length with hj | hj
    · -- entry `j` is read; the scan goes on while `j < k`
      obtain ⟨hok, hF1, hAt, hcache⟩ := parse_step hI.frame hB hj
      have hI1 : Inv L cmp it.ParseNextDataKey.2 := ⟨hF1, hcache ▸ hI.cache⟩
      rcases hp : it.ParseNextDataKey with ⟨ok, it1⟩
      rw [hp] at hok hI1 hAt
      subst hok
      simp only [parseWhile, hp]
      rcases Nat.lt_or_ge j k with hjk' | hjk'
      · rw [if_pos (hgo it1 j hjk' hI1.frame hAt)]
        exact ih it1 (j + 1) hjk' (by omega) hI1 hAt.before_succ
      · have hkj : j = k := by omega
        subst hkj
        rw [if_neg (by simp [hstop it1 hI1.frame hAt])]
        exact ⟨hI1, .inl hAt⟩
    · -- past the last entry
      have hjn : j = L.entries.length := le_antisymm hB.le hj
      subst hjn
      obtain ⟨hok, hF1, hvalid, hcache⟩ := parse_end hI.frame hB
      have hI1 : Inv L cmp it.ParseNextDataKey.2 := ⟨hF1, hcache ▸ hI.cache⟩
      rcases hp : it.ParseNextDataKey with ⟨ok, it1⟩
      rw [hp] at hok hI1 hvalid
      subst hok
      simp only [parseWhile, hp]
      exact ⟨hI1, .inr ⟨by omega, hvalid⟩⟩

/-- `Prev`'s scan from entry `j`, for the entry `i` it started from, stops on
entry `i - 1` and has cached the entries from `j` to `i - 1`. -/
theorem prevScan_spec {i : ℕ} (hi : i ≤ L.entries.length) :
    ∀ (fuel : ℕ) (it : DataBlockIter) (j : ℕ), j < i → i - j ≤ fuel → Frame L cmp it → Before L it j →
      Frame L cmp (prevScan (UInt32.ofNat (L.off i)) fuel it) ∧
        At L (prevScan (UInt32.ofNat (L.off i)) fuel it) (i - 1) ∧
        (prevScan (UInt32.ofNat (L.off i)) fuel it).prevEntries =
          it.prevEntries ++ (List.range' j (i - j)).map L.cachedEntry := by
  intro fuel
  induction fuel with
  | zero => intro it j hji hfuel; omega
  | succ fuel ih =>
    intro it j hji hfuel hF hB
    obtain ⟨hok, hF1, hAt, hcache⟩ := parse_step hF hB (by omega)
    rcases hp : it.ParseNextDataKey with ⟨ok, it1⟩
    rw [hp] at hok hF1 hAt hcache
    subst hok
    -- the entry just parsed goes to the cache
    set it2 : DataBlockIter := { it1 with prevEntries := it1.prevEntries ++ [it1.cachedEntry] } with hit2
    have hF2 : Frame L cmp it2 := ⟨hF1.1, hF1.2, hF1.3, hF1.4, hF1.5⟩
    have hAt2 : At L it2 j := ⟨hAt.1, hAt.2, hAt.3, hAt.4, hAt.5, hAt.6⟩
    have hcache2 : it2.prevEntries = it.prevEntries ++ [L.cachedEntry j] := by
      rw [hit2]
      dsimp only
      rw [hcache, hAt.cachedEntry_eq]
    -- it ends at entry `j + 1`, which is before entry `i` unless it is entry `i`
    have hnext : it2.NextEntryOffset < UInt32.ofNat (L.off i) ↔ j + 1 < i := by
      have h1 := BlockLayout.off_lt (L := L) (i := j + 1) (by omega)
      rw [NextEntryOffset, hAt2.before_succ.next, BlockLayout.ofNat_lt_ofNat_iff h1 (BlockLayout.off_lt hi),
        BlockLayout.off_lt_off_iff hi]
    simp only [prevScan, hp]
    rcases Nat.lt_or_ge (j + 1) i with hlt | hge
    · rw [if_pos (hnext.mpr hlt)]
      obtain ⟨hF3, hAt3, hcache3⟩ := ih it2 (j + 1) hlt (by omega) hF2 hAt2.before_succ
      refine ⟨hF3, hAt3, ?_⟩
      rw [hcache3, hcache2, List.append_assoc]
      congr 1
      rw [show i - j = (i - (j + 1)) + 1 by omega, List.range'_succ, List.map_cons]
      rfl
    · rw [if_neg (fun h => by have := hnext.mp h; omega)]
      have hij : i - 1 = j := by omega
      refine ⟨hF2, hij ▸ hAt2, ?_⟩
      rw [hcache2, show i - j = 1 by omega]
      rfl

/-- `Prev`'s first loop: the first entry has no restart point before it, and
for any other the loop stops at one. -/
theorem restartBefore_spec {i : ℕ} (hi : i < L.entries.length) :
    ∀ it : DataBlockIter, Frame L cmp it → it.restartIndex.toNat < L.restartIdx.length →
      (i = 0 → it.restartBefore (UInt32.ofNat (L.off i)) = none) ∧
      (0 < i → ∃ ri : UInt32, ri.toNat < L.restartIdx.length ∧ L.restartEntry ri.toNat < i ∧
        it.restartBefore (UInt32.ofNat (L.off i)) = some { it with restartIndex := ri }) := by
  intro it
  fun_induction restartBefore it (UInt32.ofNat (L.off i)) with
  | case1 it hge h0 =>
    intro hF hri
    -- restart point `0` is entry `0`, and it is not before entry `i`
    have hle : i ≤ L.restartEntry it.restartIndex.toNat := by
      have hre := BlockLayout.restartEntry_le_length hri
      rw [hF.GetRestartPoint_eq hri, ge_iff_le,
        BlockLayout.ofNat_le_ofNat_iff (BlockLayout.off_lt hi.le) (BlockLayout.off_lt hre)] at hge
      exact Nat.not_lt.mp fun hlt => Nat.not_le.mpr ((BlockLayout.off_lt_off_iff hi.le).mpr hlt) hge
    rw [h0, UInt32.toNat_zero, BlockLayout.restartEntry_zero] at hle
    exact ⟨fun _ => rfl, fun hpos => by omega⟩
  | case2 it hge h0 ih =>
    intro hF hri
    have hpred : (it.restartIndex - 1).toNat = it.restartIndex.toNat - 1 := by
      have hne : it.restartIndex.toNat ≠ 0 := fun h => h0 (UInt32.toNat_inj.mp h)
      rw [UInt32.toNat_sub_of_le _ _ (UInt32.le_iff_toNat_le.mpr (by simp; omega))]
      rfl
    obtain ⟨hnone, hsome⟩ := ih ⟨hF.1, hF.2, hF.3, hF.4, hF.5⟩ (by simp only [hpred]; omega)
    refine ⟨hnone, fun hpos => ?_⟩
    obtain ⟨ri, hri', hlt, heq⟩ := hsome hpos
    exact ⟨ri, hri', hlt, heq⟩
  | case3 it hlt =>
    intro hF hri
    have hre := BlockLayout.restartEntry_le_length hri
    have hbefore : L.restartEntry it.restartIndex.toNat < i := by
      rw [hF.GetRestartPoint_eq hri, ge_iff_le,
        BlockLayout.ofNat_le_ofNat_iff (BlockLayout.off_lt hi.le) (BlockLayout.off_lt hre)] at hlt
      exact (BlockLayout.off_lt_off_iff hi.le).mp (Nat.not_le.mp hlt)
    exact ⟨fun h0 => by omega, fun _ => ⟨it.restartIndex, hri, hbefore, rfl⟩⟩

/-! ## The binary search over restart points -/

/-- A restart point that a scan for `t` may start from: the first, or one
whose key is not above `t`. -/
def SeekStart (L : BlockLayout) (cmp : Comparator) (t : Bytes) (r : ℕ) : Prop :=
  r = 0 ∨ cmp (L.restartKey r) t ≠ .gt

/-- The key at a restart point past the first, as `BinarySeek` decodes it. -/
theorem Frame.DecodeEntry_restart (hF : Frame L cmp it) {mid : UInt32} (hpos : 0 < mid.toNat)
    (hmid : mid.toNat < L.restartIdx.length) :
    ∃ nonShared valueLength p, DecodeEntry it.data (it.GetRestartPoint mid).toNat it.restarts.toNat =
      some (0, nonShared, valueLength, p) ∧ (it.data.drop p).take nonShared.toNat = L.restartKey mid.toNat := by
  obtain ⟨-, hlt⟩ := BlockLayout.restartEntry_pos_lt hpos hmid
  have hshared := BlockLayout.shared_restartEntry hmid
  have hklen := BlockLayout.key_length_lt hlt
  refine ⟨UInt32.ofNat ((L.entry (L.restartEntry mid.toNat)).key.length -
      (L.entry (L.restartEntry mid.toNat)).shared),
    UInt32.ofNat (L.entry (L.restartEntry mid.toNat)).value.length,
    L.off (L.restartEntry mid.toNat) + (L.entry (L.restartEntry mid.toNat)).header.length, ?_, ?_⟩
  · rw [hF.GetRestartPoint_eq hmid, BlockLayout.toNat_ofNat_of_lt (BlockLayout.off_lt hlt.le), hF.data,
      hF.restarts_toNat, BlockLayout.DecodeEntry_off hlt, hshared]
    rfl
  · rw [BlockLayout.toNat_ofNat_of_lt (by omega), hF.data, BlockLayout.keyDelta_off hlt, hshared,
      List.drop_zero]
    rfl

/-- `BinarySeek`'s loop keeps a left end that a scan may start from, and
returns it. -/
theorem binarySeekLoop_spec (hF : Frame L cmp it) (t : Bytes) :
    ∀ (fuel : ℕ) (left right : UInt32), left.toNat ≤ right.toNat → right.toNat < L.restartIdx.length →
      right.toNat - left.toNat < fuel → SeekStart L cmp t left.toNat →
      ∃ r : UInt32, binarySeekLoop t fuel it left right = (some r, it) ∧ r.toNat < L.restartIdx.length ∧
        SeekStart L cmp t r.toNat := by
  intro fuel
  induction fuel with
  | zero => intro left right _ _ hfuel; omega
  | succ fuel ih =>
    intro left right hlr hright hfuel hstart
    rcases Nat.lt_or_ge left.toNat right.toNat with hlt | hge
    · -- the middle point, computed in `uint32_t` without wrapping
      have hsmall := BlockLayout.length_restartIdx_lt (L := L)
      have hmid : ((left + right + 1) / 2).toNat = (left.toNat + right.toNat + 1) / 2 := by
        simp only [UInt32.toNat_div, UInt32.toNat_add, UInt32.reduceToNat]
        rw [Nat.mod_eq_of_lt (by omega), Nat.mod_eq_of_lt (by omega)]
      set mid := (left + right + 1) / 2 with hmid_def
      obtain ⟨nonShared, valueLength, p, hdecode, hkey⟩ :=
        hF.DecodeEntry_restart (show 0 < mid.toNat by omega) (by omega)
      simp only [binarySeekLoop, UInt32.lt_iff_toNat_lt.mpr hlt, if_true]
      rw [← hmid_def, hdecode]
      simp only [ne_eq, not_true_eq_false, if_false, hkey, hF.comparator]
      cases hcmp : cmp (L.restartKey mid.toNat) t with
      | lt =>
        exact ih mid right (by omega) hright (by omega) (.inr (by simp [hcmp]))
      | gt =>
        have hpred : (mid - 1).toNat = mid.toNat - 1 := by
          rw [UInt32.toNat_sub_of_le _ _ (UInt32.le_iff_toNat_le.mpr (by simp; omega))]
          rfl
        exact ih left (mid - 1) (by omega) (by omega) (by omega) hstart
      | eq =>
        exact ih mid mid le_rfl (by omega) (by omega) (.inr (by simp [hcmp]))
    · have heq : left = right := UInt32.toNat_inj.mp (by omega)
      simp only [binarySeekLoop, heq, UInt32.lt_irrefl, if_false]
      exact ⟨right, rfl, hright, heq ▸ hstart⟩

theorem BinarySeek_spec (hF : Frame L cmp it) (t : Bytes) :
    ∃ r : UInt32, it.BinarySeek t 0 (it.numRestarts - 1) = (some r, it) ∧
      r.toNat < L.restartIdx.length ∧ SeekStart L cmp t r.toNat := by
  have hpos : 0 < L.restartIdx.length := List.length_pos_iff.mpr BlockLayout.restartIdx_ne_nil
  have hright : (it.numRestarts - 1).toNat = L.restartIdx.length - 1 := by
    rw [UInt32.toNat_sub_of_le _ _ (UInt32.le_iff_toNat_le.mpr (by simp [hF.numRestarts_toNat]; omega)),
      hF.numRestarts_toNat]
    rfl
  exact binarySeekLoop_spec hF t _ 0 (it.numRestarts - 1) (by simp) (by omega) (by simp) (.inl rfl)

end DataBlockIter

end HapDB
