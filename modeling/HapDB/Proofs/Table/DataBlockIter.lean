import HapDB.Proofs.Table.BlockScan
import HapDB.Proofs.Table.BlockBuild

/-!
# `DataBlockIter` refines a cursor over the block's entries

Over a block that is a `BlockLayout` with strictly increasing keys, every
operation of the iterator moves it as `Cursor.apply` moves a cursor over the
block's pairs (`apply_refines`): `SeekToFirst` to the first entry,
`SeekToLast` to the last, `Seek t` to the first key not below `t`,
`SeekForPrev t` to the last key not above `t`, `Next` and `Prev` one entry
along.  The relation `Refines` is the iterator's invariant (`Inv`: its frame
and a cache of consecutive entries) and its position (`Pos`).

## Strategy

Each operation is a composition of the scans of `BlockScan`:

* `SeekToFirst`, `Next`: one parse (`parse_pos`);
* `SeekToLast`: a scan from the last restart point to the last entry;
* `Seek`: `BinarySeek` gives a restart point with no key at or above `t`
  before it (`before_seekStart`), and the scan stops at the first key not
  below `t`, which is the count of keys below `t` (`lt_countP_cut`);
* `Prev`: from the cache when its entry at `prev_entries_idx_` is the current
  one, since the cache holds consecutive entries; otherwise the restart point
  before the entry, a scan that refills the cache, and its last entry;
* `SeekForPrev`: `Seek`'s scan, then `SeekToLast` when it runs off the end,
  or at most one `Prev` when its key is above `t`.

`run_refines` carries the relation along any sequence of operations that calls
`Next` and `Prev` only on a valid iterator, from `NewIterator`
(`refines_NewIterator`).  For the block built by `BlockBuilder`
(`BlockBuilder.builtLayout`) this is the round trip of the builder and the
iterator (`built_block_iterates_as_cursor`).  Its one hypothesis beyond sorted
keys is that the block is under `2 ^ 32` bytes: the builder casts offsets and
lengths to `uint32_t`, and `block.h` says blocks over 2GB are not supported.
-/

namespace HapDB

/-- The positioning calls of an iterator, on a data-block iterator. -/
def DataBlockIter.apply (it : DataBlockIter) : IterOp Bytes → DataBlockIter
  | .seekToFirst => it.SeekToFirst
  | .seekToLast => it.SeekToLast
  | .seek t => it.Seek t
  | .seekForPrev t => it.SeekForPrev t
  | .next => it.Next
  | .prev => it.Prev

/-- The iterator after a sequence of positioning calls. -/
def DataBlockIter.run (it : DataBlockIter) (ops : List (IterOp Bytes)) : DataBlockIter :=
  ops.foldl DataBlockIter.apply it

namespace DataBlockIter

variable {L : BlockLayout} {cmp : Comparator} {it : DataBlockIter}

/-! ## Small steps -/

theorem Frame.SeekToRestartPoint (hF : Frame L cmp it) (index : UInt32) :
    Frame L cmp (it.SeekToRestartPoint index) :=
  ⟨hF.1, hF.2, hF.3, hF.4, hF.5⟩

theorem Inv.SeekToRestartPoint (hI : Inv L cmp it) (index : UInt32) :
    Inv L cmp (it.SeekToRestartPoint index) :=
  ⟨hI.frame.SeekToRestartPoint index, hI.cache⟩

/-- One parse from before entry `j` ends on entry `j`, or past the end. -/
theorem parse_pos (hI : Inv L cmp it) (hB : Before L it j) :
    Inv L cmp it.ParseNextDataKey.2 ∧ Pos L it.ParseNextDataKey.2 j := by
  rcases Nat.lt_or_ge j L.entries.length with hj | hj
  · obtain ⟨-, hF, hAt, hcache⟩ := parse_step hI.frame hB hj
    exact ⟨⟨hF, hcache ▸ hI.cache⟩, .inl hAt⟩
  · have hjn : j = L.entries.length := le_antisymm hB.le hj
    subst hjn
    obtain ⟨-, hF, hvalid, hcache⟩ := parse_end hI.frame hB
    exact ⟨⟨hF, hcache ▸ hI.cache⟩, .inr ⟨rfl, hvalid⟩⟩

theorem SeekToFirst_spec (hI : Inv L cmp it) :
    Inv L cmp it.SeekToFirst ∧ Pos L it.SeekToFirst 0 := by
  have hpos : (0 : UInt32).toNat < L.restartIdx.length :=
    List.length_pos_iff.mpr BlockLayout.restartIdx_ne_nil
  have hB := hI.frame.before_SeekToRestartPoint hpos
  rw [UInt32.toNat_zero, BlockLayout.restartEntry_zero] at hB
  simp only [SeekToFirst, hI.frame.initialized, Bool.not_true, Bool.false_eq_true, if_false]
  exact parse_pos (hI.SeekToRestartPoint 0) hB

theorem Next_spec (hI : Inv L cmp it) (hAt : At L it i) : Inv L cmp it.Next ∧ Pos L it.Next (i + 1) :=
  parse_pos hI hAt.before_succ

theorem SeekToLast_spec (hI : Inv L cmp it) :
    Inv L cmp it.SeekToLast ∧ Pos L it.SeekToLast (L.entries.length - 1) := by
  have hF := hI.frame
  have hnum : (it.numRestarts - 1).toNat = L.restartIdx.length - 1 := by
    have hpos := List.length_pos_iff.mpr (BlockLayout.restartIdx_ne_nil (L := L))
    rw [UInt32.toNat_sub_of_le _ _ (UInt32.le_iff_toNat_le.mpr (by simp [hF.numRestarts_toNat]; omega)),
      hF.numRestarts_toNat]
    rfl
  have hlast : (it.numRestarts - 1).toNat < L.restartIdx.length := by
    have := List.length_pos_iff.mpr (BlockLayout.restartIdx_ne_nil (L := L))
    omega
  have hB := hF.before_SeekToRestartPoint hlast
  have hlen := BlockLayout.length_le_limit (L := L)
  -- the last restart point is an entry, unless the block has none
  have hstart : L.restartEntry (it.numRestarts - 1).toNat ≤ L.entries.length - 1 := by
    rcases Nat.eq_zero_or_pos L.entries.length with h0 | hn
    · have := BlockLayout.restartEntry_le_length hlast
      omega
    · have := BlockLayout.restartEntry_lt_length hlast hn
      omega
  simp only [SeekToLast, hF.initialized, Bool.not_true, Bool.false_eq_true, if_false]
  -- the scan goes on while another entry follows
  refine parseWhile_spec (by omega) (fun it' i hi hF' hAt => ?_) (fun it' hF' hAt => ?_) _ _ _ hstart
    (by rw [hF.restarts_toNat]; omega) (hI.SeekToRestartPoint _) hB
  · have hnext := hAt.before_succ.next
    simp only [NextEntryOffset, hnext, hF'.restarts, decide_eq_true_eq,
      BlockLayout.ofNat_lt_ofNat_iff (BlockLayout.off_lt (L := L) (i := i + 1) (by omega))
        BlockLayout.limit_lt]
    exact (BlockLayout.off_lt_off_iff (L := L) le_rfl).mpr (by omega)
  · have hnext := hAt.before_succ.next
    have hlt := hAt.lt
    simp only [NextEntryOffset, hnext, hF'.restarts, decide_eq_false_iff_not,
      show L.entries.length - 1 + 1 = L.entries.length by omega]
    exact fun h => (UInt32.lt_irrefl _) h

/-! ## `Prev` -/

theorem toNatClampNeg_sub_one {a : Int32} (h : 0 < a) : (a - 1).toNatClampNeg = a.toNatClampNeg - 1 := by
  have hlt := a.toInt_lt
  have hpos : 0 < a.toInt := by simpa [Int32.lt_iff_toInt_lt] using h
  have hsub : (a - 1).toInt = a.toInt - 1 := by
    rw [Int32.toInt_sub, Int32.toInt_one]
    apply Int.bmod_eq_of_le <;> norm_num at hlt ⊢ <;> omega
  simp only [Int32.toNatClampNeg, hsub]
  omega

theorem toNatClampNeg_pos {a : Int32} (h : 0 < a) : 0 < a.toNatClampNeg := by
  have hpos : 0 < a.toInt := by simpa [Int32.lt_iff_toInt_lt] using h
  simp only [Int32.toNatClampNeg]
  omega

/-- A cached entry whose offset is that of entry `i` is entry `i`, and the
one cached before it is entry `i - 1`. -/
theorem cached_prev {cache : List CachedPrevEntry} (hcache : CacheOk L cache) {a i : ℕ}
    (hi : i < L.entries.length) (hpos : 0 < a)
    (hoff : (cache[a]?.map (·.offset)) = some (UInt32.ofNat (L.off i))) :
    0 < i ∧ cache.getD (a - 1) default = L.cachedEntry (i - 1) := by
  obtain ⟨j, m, hjm, rfl⟩ := hcache
  rcases Nat.lt_or_ge a m with ham | ham
  · have hget : ((List.range' j m).map L.cachedEntry)[a]? = some (L.cachedEntry (j + a)) := by
      simp [ham]
    rw [hget] at hoff
    simp only [Option.map_some, Option.some.injEq, BlockLayout.cachedEntry] at hoff
    -- offsets below `2 ^ 32` tell entries apart
    have hsame : L.off (j + a) = L.off i := by
      rw [← BlockLayout.toNat_ofNat_of_lt (BlockLayout.off_lt (L := L) (i := j + a) (by omega)), hoff,
        BlockLayout.toNat_ofNat_of_lt (BlockLayout.off_lt hi.le)]
    have hja : j + a = i := entryOffset_inj (by omega) hi.le hsame
    refine ⟨by omega, ?_⟩
    rw [List.getD_eq_getElem?_getD]
    simp [show a - 1 < m by omega]
    congr 1
    omega
  · have hnone : ((List.range' j m).map L.cachedEntry)[a]? = none :=
      List.getElem?_eq_none (by simpa using ham)
    simp [hnone] at hoff

theorem Prev_spec (hI : Inv L cmp it) (hAt : At L it i) :
    Inv L cmp it.Prev ∧ Pos L it.Prev (if i = 0 then L.entries.length else i - 1) := by
  have hF := hI.frame
  by_cases hcond : 0 < it.prevEntriesIdx ∧
      (it.prevEntries[it.prevEntriesIdx.toNatClampNeg]?.map (·.offset)) = some it.current
  · -- the cache holds the current entry: step back through it
    obtain ⟨hpos, hoff⟩ := hcond
    rw [hAt.current] at hoff
    have hlt := hAt.lt
    obtain ⟨hi0, he⟩ := cached_prev hI.cache hlt (toNatClampNeg_pos hpos) hoff
    rw [← toNatClampNeg_sub_one hpos] at he
    rw [Prev, if_pos ⟨hpos, by rw [hAt.current]; exact hoff⟩]
    dsimp only
    rw [he, if_neg (by omega)]
    refine ⟨⟨⟨hF.1, hF.2, hF.3, hF.4, hF.5⟩, hI.cache⟩, .inl ⟨by omega, rfl, rfl, rfl, rfl, hAt.restartIndex⟩⟩
  · -- scan from the restart point before the current entry, refilling the cache
    rw [Prev, if_neg hcond]
    dsimp only
    set it' : DataBlockIter := { it with prevEntriesIdx := -1, prevEntries := [] } with hit'
    have hF' : Frame L cmp it' := ⟨hF.1, hF.2, hF.3, hF.4, hF.5⟩
    obtain ⟨hnone, hsome⟩ := restartBefore_spec hAt.lt it' hF' hAt.restartIndex
    rw [show it'.current = UInt32.ofNat (L.off i) from hAt.current]
    rcases Nat.eq_zero_or_pos i with hi0 | hipos
    · -- the first entry: nothing before it
      rw [hnone hi0, if_pos hi0]
      refine ⟨⟨⟨hF.1, hF.2, hF.3, hF.4, hF.5⟩, cacheOk_nil⟩, .inr ⟨rfl, ?_⟩⟩
      simp [Valid]
    · obtain ⟨r, hr, hre, heq⟩ := hsome hipos
      rw [heq, if_neg (by omega)]
      dsimp only
      have hF0 : Frame L cmp { it' with restartIndex := r } := ⟨hF.1, hF.2, hF.3, hF.4, hF.5⟩
      have hlen := BlockLayout.length_le_limit (L := L)
      have hlt := hAt.lt
      obtain ⟨hF3, hAt3, hcache3⟩ := prevScan_spec hAt.lt.le (it.restarts.toNat + 1) _ _ hre
        (by rw [hF.restarts_toNat]; omega) (hF0.SeekToRestartPoint r) (hF0.before_SeekToRestartPoint hr)
      refine ⟨⟨⟨hF3.1, hF3.2, hF3.3, hF3.4, hF3.5⟩, ⟨L.restartEntry r.toNat, i - L.restartEntry r.toNat,
        by omega, ?_⟩⟩, .inl ⟨hAt3.1, hAt3.2, hAt3.3, hAt3.4, hAt3.5, hAt3.6⟩⟩
      exact hcache3.trans (List.nil_append _)

/-! ## The refinement relation -/

/-- The iterator stands for a cursor over the block's pairs: it keeps its
invariant and is where the cursor is. -/
structure Refines (L : BlockLayout) (cmp : Comparator) (it : DataBlockIter)
    (c : Cursor Bytes Bytes) : Prop where
  entries : c.entries = L.pairs
  inv : Inv L cmp it
  pos : Pos L it c.pos

variable {c : Cursor Bytes Bytes}

theorem Refines.length (h : Refines L cmp it c) : c.entries.length = L.entries.length := by
  rw [h.entries, BlockLayout.length_pairs]

/-- The iterator of a valid cursor is on the cursor's entry. -/
theorem Refines.at (h : Refines L cmp it c) (hv : c.valid = true) : At L it c.pos := by
  rcases h.pos with hAt | ⟨hpos, -⟩
  · exact hAt
  · simp only [Cursor.valid, decide_eq_true_eq, h.length, hpos] at hv
    exact absurd hv (lt_irrefl _)

theorem Refines.valid_eq (h : Refines L cmp it c) : it.Valid = c.valid := by
  rcases h.pos with hAt | ⟨hpos, hv⟩
  · rw [hAt.valid h.inv.frame]
    simp [Cursor.valid, h.length, hAt.lt]
  · rw [hv]
    simp [Cursor.valid, h.length, hpos]

/-- A valid iterator reads the cursor's key and value. -/
theorem Refines.entry_eq (h : Refines L cmp it c) (hv : c.valid = true) :
    it.key = c.key ∧ it.value = c.value := by
  have hAt := h.at hv
  have hentry : c.entry = ((L.entry c.pos).key, (L.entry c.pos).value) := by
    rw [Cursor.entry, h.entries, List.getD_eq_getElem _ _ (by simpa using hAt.lt),
      BlockLayout.getElem_pairs]
  exact ⟨by rw [hAt.key, Cursor.key, hentry], by rw [hAt.value_eq h.inv.frame, Cursor.value, hentry]⟩

/-- A new iterator over the block of `L` stands for an invalid cursor over its pairs. -/
theorem refines_NewIterator (cmp : Comparator) :
    Refines L cmp ((Block.make L.data).NewIterator cmp) ⟨L.pairs, L.entries.length⟩ := by
  have hrs := List.length_pos_iff.mpr (BlockLayout.restartIdx_ne_nil (L := L))
  have hsize : ¬L.data.length < 2 * 4 := by
    rw [BlockLayout.length_data]
    omega
  have hnum : UInt32.ofNat L.restartIdx.length ≠ 0 := by
    intro h0
    have hlt := BlockLayout.length_restartIdx_lt (L := L)
    have h := congrArg UInt32.toNat h0
    rw [BlockLayout.toNat_ofNat_of_lt (by omega), UInt32.toNat_zero] at h
    omega
  rw [BlockLayout.make_data, Block.NewIterator]
  dsimp only
  rw [if_neg hsize, if_neg hnum]
  refine ⟨rfl, ⟨⟨rfl, rfl, rfl, rfl, rfl⟩, cacheOk_nil⟩, .inr ⟨rfl, ?_⟩⟩
  simp [Valid, Initialize]

/-! ## Seeking among strictly increasing keys -/

section Sorted

variable [Std.TransCmp cmp] (hsorted : L.pairs.Pairwise fun a b => cmp a.1 b.1 = .lt)
include hsorted

omit [Std.TransCmp cmp] in
theorem key_lt_key {i j : ℕ} (hij : i < j) (hj : j < L.entries.length) :
    cmp (L.entry i).key (L.entry j).key = .lt := by
  have h := List.pairwise_iff_getElem.mp hsorted i j (by simp; omega) (by simpa using hj) hij
  rwa [BlockLayout.getElem_pairs, BlockLayout.getElem_pairs] at h

/-- The keys below `t` are the first ones, as many as `countP` counts. -/
theorem lt_countP_below (t : Bytes) {i : ℕ} (hi : i < L.entries.length) :
    i < L.pairs.countP (fun e => cmp e.1 t == .lt) ↔ cmp (L.entry i).key t = .lt := by
  have h := lt_countP_cut hsorted (isCut_lt t) i (by simpa using hi)
  simp only [BlockLayout.getElem_pairs (L := L) (i := i) (by simpa using hi), beq_iff_eq] at h
  exact h

/-- After a key not below `t` every key is above it. -/
theorem above_of_not_below (t : Bytes) {i j : ℕ} (hij : i < j) (hj : j < L.entries.length)
    (hi : cmp (L.entry i).key t ≠ .lt) : cmp (L.entry j).key t = .gt := by
  have hti : (cmp t (L.entry i).key).isLE = true :=
    Ordering.isLE_iff_ne_gt.mpr fun h => hi (Std.OrientedCmp.gt_iff_lt.mp h)
  exact Std.OrientedCmp.gt_iff_lt.mpr (Std.TransCmp.lt_of_isLE_of_lt hti (key_lt_key hsorted hij hj))

/-- The count of keys not above `t`, from where they stop. -/
theorem countP_notAbove_eq (t : Bytes) {k : ℕ} (hk : k ≤ L.entries.length)
    (h : ∀ i, i < L.entries.length → (i < k ↔ cmp (L.entry i).key t ≠ .gt)) :
    L.pairs.countP (fun e => cmp e.1 t != .gt) = k := by
  refine countP_cut_eq hsorted (isCut_le t) (by simpa using hk) fun i hi => ?_
  simp only [BlockLayout.getElem_pairs hi, bne_iff_ne]
  exact h i (by simpa using hi)

/-- No key at the restart point that `BinarySeek` picks is below the first
key not below `t`. -/
theorem before_seekStart {t : Bytes} {r : ℕ} (hs : SeekStart L cmp t r) (hr : r < L.restartIdx.length) :
    L.restartEntry r ≤ L.pairs.countP (fun e => cmp e.1 t == .lt) := by
  by_contra hlt
  rw [Nat.not_le] at hlt
  have hr0 : r ≠ 0 := by
    rintro rfl
    rw [BlockLayout.restartEntry_zero] at hlt
    omega
  have hre := (BlockLayout.restartEntry_pos_lt (Nat.pos_of_ne_zero hr0) hr).2
  -- the first key not below `t` is below the restart key, which is not above `t`
  have hnot := mt (lt_countP_below hsorted t (hlt.trans hre)).mpr (lt_irrefl _)
  have hle : cmp (L.restartKey r) t ≠ .gt := hs.resolve_left hr0
  exact hnot (Std.TransCmp.lt_of_lt_of_isLE (key_lt_key hsorted hlt hre) (Ordering.isLE_iff_ne_gt.mpr hle))

/-- The scan of `Seek` and `SeekForPrev` from the restart point of `BinarySeek`
stops at the first key not below `t`. -/
theorem seekScan_spec (hI : Inv L cmp it) (t : Bytes) {r : UInt32} (hr : r.toNat < L.restartIdx.length)
    (hs : SeekStart L cmp t r.toNat) :
    Inv L cmp (parseWhile (fun it => it.comparator it.key t == .lt) (it.restarts.toNat + 1)
        (it.SeekToRestartPoint r)) ∧
      Pos L (parseWhile (fun it => it.comparator it.key t == .lt) (it.restarts.toNat + 1)
        (it.SeekToRestartPoint r)) (L.pairs.countP fun e => cmp e.1 t == .lt) := by
  have hF := hI.frame
  have hk : L.pairs.countP (fun e => cmp e.1 t == .lt) ≤ L.entries.length := by
    simpa using List.countP_le_length (l := L.pairs)
  have hlen := BlockLayout.length_le_limit (L := L)
  refine parseWhile_spec hk (fun it' i hi hF' hAt => ?_) (fun it' hF' hAt => ?_) _ _ _
    (before_seekStart hsorted hs hr) (by rw [hF.restarts_toNat]; omega) (hI.SeekToRestartPoint r)
    (hF.before_SeekToRestartPoint hr)
  · rw [hF'.comparator, hAt.key, beq_iff_eq]
    exact (lt_countP_below hsorted t (by omega)).mp hi
  · rw [hF'.comparator, hAt.key, beq_eq_false_iff_ne]
    exact mt (lt_countP_below hsorted t hAt.lt).mpr (lt_irrefl _)

theorem Seek_spec (hI : Inv L cmp it) (t : Bytes) :
    Inv L cmp (it.Seek t) ∧ Pos L (it.Seek t) (L.pairs.countP fun e => cmp e.1 t == .lt) := by
  obtain ⟨r, hbin, hr, hs⟩ := BinarySeek_spec hI.frame t
  simp only [Seek, hI.frame.initialized, Bool.not_true, Bool.false_eq_true, if_false, hbin]
  exact seekScan_spec hsorted hI t hr hs

/-- From the first key not below `t`, the last loop of `SeekForPrev` steps
back at most once, to the last key not above `t`. -/
theorem prevWhileAbove_spec (hI : Inv L cmp it) (t : Bytes) {c : ℕ} (hAt : At L it c)
    (hc : c = L.pairs.countP fun e => cmp e.1 t == .lt) (fuel : ℕ) :
    Inv L cmp (prevWhileAbove t (fuel + 1 + 1) it) ∧ Pos L (prevWhileAbove t (fuel + 1 + 1) it)
      (if L.pairs.countP (fun e => cmp e.1 t != .gt) = 0 then L.entries.length
        else L.pairs.countP (fun e => cmp e.1 t != .gt) - 1) := by
  have hF := hI.frame
  have hcn := hAt.lt
  have hbelow : ∀ i, i < c → cmp (L.entry i).key t ≠ .gt := fun i hi h => by
    have hlt := (lt_countP_below hsorted t (by omega)).mp (hc ▸ hi)
    rw [h] at hlt
    cases hlt
  have hnot : cmp (L.entry c).key t ≠ .lt := mt (lt_countP_below hsorted t hcn).mpr (by omega)
  have hkey : it.comparator it.key t = cmp (L.entry c).key t := by rw [hF.comparator, hAt.key]
  by_cases hgt : cmp (L.entry c).key t = .gt
  · -- the key is above `t`: one `Prev`, onto the last key below `t`
    have hm : L.pairs.countP (fun e => cmp e.1 t != .gt) = c := by
      refine countP_notAbove_eq hsorted t hcn.le fun i hi => ⟨hbelow i, fun hle => ?_⟩
      by_contra hci
      rcases Nat.eq_or_lt_of_le (Nat.le_of_not_lt hci) with rfl | hlt
      · exact hle hgt
      · exact hle (above_of_not_below hsorted t hlt hi hnot)
    obtain ⟨hI2, hpos2⟩ := Prev_spec hI hAt
    rw [prevWhileAbove, if_pos ⟨hAt.valid hF, hkey.trans hgt⟩, hm]
    rcases Nat.eq_zero_or_pos c with hc0 | hcpos
    · -- from the first entry `Prev` leaves the iterator invalid
      rw [if_pos hc0] at hpos2
      rw [if_pos hc0]
      rcases hpos2 with hAt2 | ⟨-, hv2⟩
      · exact absurd hAt2.lt (lt_irrefl _)
      rw [prevWhileAbove, if_neg (by simp [hv2])]
      exact ⟨hI2, .inr ⟨rfl, hv2⟩⟩
    · rw [if_neg (by omega)] at hpos2
      rw [if_neg (by omega)]
      rcases hpos2 with hAt2 | ⟨h, -⟩
      · have hlt : cmp (L.entry (c - 1)).key t = .lt :=
          (lt_countP_below hsorted t (by omega)).mp (by omega)
        rw [prevWhileAbove, if_neg fun h => by
          have hgt2 := h.2
          rw [hI2.frame.comparator, hAt2.key, hlt] at hgt2
          cases hgt2]
        exact ⟨hI2, .inl hAt2⟩
      · omega
  · -- the key is `t` itself: the loop stops at once
    have hm : L.pairs.countP (fun e => cmp e.1 t != .gt) = c + 1 := by
      refine countP_notAbove_eq hsorted t hcn fun i hi => ⟨fun hic => ?_, fun hle => ?_⟩
      · rcases Nat.lt_succ_iff_lt_or_eq.mp hic with hlt | rfl
        · exact hbelow i hlt
        · exact hgt
      · by_contra hci
        exact hle (above_of_not_below hsorted t (by omega) hi hnot)
    rw [prevWhileAbove, if_neg fun h => hgt (hkey.symm.trans h.2), hm, if_neg (by omega),
      Nat.add_sub_cancel]
    exact ⟨hI, .inl hAt⟩

theorem SeekForPrev_spec (hI : Inv L cmp it) (t : Bytes) :
    Inv L cmp (it.SeekForPrev t) ∧ Pos L (it.SeekForPrev t)
      (if L.pairs.countP (fun e => cmp e.1 t != .gt) = 0 then L.entries.length
        else L.pairs.countP (fun e => cmp e.1 t != .gt) - 1) := by
  obtain ⟨r, hbin, hr, hs⟩ := BinarySeek_spec hI.frame t
  obtain ⟨hI1, hpos1⟩ := seekScan_spec hsorted hI t hr hs
  simp only [SeekForPrev, hI.frame.initialized, Bool.not_true, Bool.false_eq_true, if_false, hbin]
  generalize parseWhile (fun it => it.comparator it.key t == .lt) (it.restarts.toNat + 1)
    (it.SeekToRestartPoint r) = it1 at hI1 hpos1 ⊢
  rcases hpos1 with hAt | ⟨hc, hv⟩
  · -- on the first key not below `t`
    have hlen := BlockLayout.length_le_limit (L := L)
    have hcn := hAt.lt
    obtain ⟨fuel, hfuel⟩ : ∃ fuel, it1.restarts.toNat + 1 = fuel + 1 + 1 :=
      ⟨L.limit - 1, by rw [hI1.frame.restarts_toNat]; omega⟩
    simp only [hAt.valid hI1.frame, Bool.not_true, Bool.false_eq_true, if_false]
    rw [hfuel]
    exact prevWhileAbove_spec hsorted hI1 t hAt rfl fuel
  · -- past the last key: every key is below `t`, and `SeekToLast` finds the last
    have hm : L.pairs.countP (fun e => cmp e.1 t != .gt) = L.entries.length := by
      refine countP_notAbove_eq hsorted t le_rfl fun i hi => ⟨fun _ h => ?_, fun _ => hi⟩
      have hlt := (lt_countP_below hsorted t hi).mp (hc ▸ hi)
      rw [h] at hlt
      cases hlt
    simp only [hv, Bool.not_false, if_true]
    obtain ⟨hI2, hpos2⟩ := SeekToLast_spec hI1
    refine ⟨hI2, ?_⟩
    rw [hm]
    rcases Nat.eq_zero_or_pos L.entries.length with h0 | hn
    · rw [if_pos h0]
      simpa [h0] using hpos2
    · rw [if_neg (by omega)]
      exact hpos2

/-- Each positioning call moves the iterator as it moves the cursor; `Next`
and `Prev` from a valid position. -/
theorem apply_refines (h : Refines L cmp it c) (op : IterOp Bytes)
    (hop : op.isStep = true → c.valid = true) : Refines L cmp (it.apply op) (c.apply cmp op) := by
  have hlen := h.length
  cases op with
  | seekToFirst =>
    obtain ⟨hI, hP⟩ := SeekToFirst_spec h.inv
    exact ⟨h.entries, hI, hP⟩
  | seekToLast =>
    obtain ⟨hI, hP⟩ := SeekToLast_spec h.inv
    refine ⟨h.entries, hI, ?_⟩
    show Pos L it.SeekToLast (c.entries.length - 1)
    rw [hlen]
    exact hP
  | seek t =>
    obtain ⟨hI, hP⟩ := Seek_spec hsorted h.inv t
    refine ⟨h.entries, hI, ?_⟩
    show Pos L (it.Seek t) (c.entries.countP fun e => cmp e.1 t == .lt)
    rw [h.entries]
    exact hP
  | seekForPrev t =>
    obtain ⟨hI, hP⟩ := SeekForPrev_spec hsorted h.inv t
    refine ⟨h.entries, hI, ?_⟩
    show Pos L (it.SeekForPrev t) (if c.entries.countP (fun e => cmp e.1 t != .gt) = 0 then
      c.entries.length else c.entries.countP (fun e => cmp e.1 t != .gt) - 1)
    rw [hlen, h.entries]
    exact hP
  | next =>
    obtain ⟨hI, hP⟩ := Next_spec h.inv (h.at (hop rfl))
    exact ⟨h.entries, hI, hP⟩
  | prev =>
    obtain ⟨hI, hP⟩ := Prev_spec h.inv (h.at (hop rfl))
    refine ⟨h.entries, hI, ?_⟩
    show Pos L it.Prev (if c.pos = 0 then c.entries.length else c.pos - 1)
    rw [hlen]
    exact hP

/-- The refinement holds along any sequence of calls that steps only from a
valid position. -/
theorem run_refines (ops : List (IterOp Bytes)) :
    ∀ (it : DataBlockIter) (c : Cursor Bytes Bytes), Refines L cmp it c → c.Legal cmp ops →
      Refines L cmp (ops.foldl DataBlockIter.apply it) (ops.foldl (Cursor.apply cmp) c) := by
  induction ops with
  | nil => intro it c h _; exact h
  | cons op ops ih =>
    intro it c h hlegal
    exact ih _ _ (apply_refines hsorted h op hlegal.1) hlegal.2

end Sorted

end DataBlockIter

/-- The round trip of `BlockBuilder` and `DataBlockIter`.  For any restart
interval, with or without key delta encoding, the block built from pairs in
strictly increasing key order and read through a new iterator answers every
sequence of positioning calls that steps only from a valid position as a
cursor over the pairs does: it is valid when the cursor is, and then on the
same key and value.  The block must fit the `uint32_t` offsets of the format. -/
theorem built_block_iterates_as_cursor {cmp : Comparator} [Std.TransCmp cmp] {R : ℕ} (hR : 0 < R)
    (D : Bool) {es : List (Bytes × Bytes)} (hsorted : es.Pairwise fun a b => cmp a.1 b.1 = .lt)
    (hsize : (BlockBuilder.build R D es).length < 2 ^ 32) {ops : List (IterOp Bytes)}
    (hlegal : Cursor.Legal cmp ⟨es, es.length⟩ ops) :
    let it := ((Block.make (BlockBuilder.build R D es)).NewIterator cmp).run ops
    let c := Cursor.run cmp ⟨es, es.length⟩ ops
    it.Valid = c.valid ∧ (c.valid = true → it.key = c.key ∧ it.value = c.value) := by
  intro it c
  set L := BlockBuilder.builtLayout hR D es hsize
  have hpairs : L.pairs = es := BlockBuilder.pairs_builtLayout hR D es hsize
  have hdata : L.data = BlockBuilder.build R D es := BlockBuilder.data_builtLayout hR D es hsize
  have hlen : L.entries.length = es.length := by rw [← BlockLayout.length_pairs, hpairs]
  have h0 := DataBlockIter.refines_NewIterator (L := L) cmp
  rw [hdata, hpairs, hlen] at h0
  have hsorted' : L.pairs.Pairwise fun a b => cmp a.1 b.1 = .lt := by
    rw [hpairs]
    exact hsorted
  have h := DataBlockIter.run_refines hsorted' ops _ _ h0 hlegal
  exact ⟨h.valid_eq, h.entry_eq⟩

/-- Three pairs with a shared prefix, a restart interval of two, and a call of
every kind. -/
theorem built_block_iterates_as_cursor_three :
    let es : List (Bytes × Bytes) := [([1], [5]), ([1, 2], [6]), ([3], [])]
    let ops : List (IterOp Bytes) := [.seekToLast, .prev, .seek [2], .seekForPrev [1, 5], .next]
    es.Pairwise (fun a b => bytewiseCompare a.1 b.1 = .lt) ∧
      (BlockBuilder.build 2 true es).length < 2 ^ 32 ∧
      Cursor.Legal bytewiseCompare ⟨es, es.length⟩ ops ∧
      (let it := ((Block.make (BlockBuilder.build 2 true es)).NewIterator bytewiseCompare).run ops
       let c := Cursor.run bytewiseCompare ⟨es, es.length⟩ ops
       it.Valid = c.valid ∧ (c.valid = true → it.key = c.key ∧ it.value = c.value)) :=
  ⟨by decide, by decide, by decide,
    built_block_iterates_as_cursor (by decide) true (by decide) (by decide) (by decide)⟩

end HapDB
