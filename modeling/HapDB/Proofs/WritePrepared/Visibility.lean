import HapDB.Txn.WritePrepared
import HapDB.Lib.Fold

/-!
# What `IsInSnapshot` relies on, and where it goes wrong

`IsInSnapshot` never looks at `prepared_txns_`: a prepare sequence number above
`max_evicted_seq_` missing from the commit cache is taken to be still
prepared, and one at or below it to be in `delayed_prepared_` or committed.
It reads the sets it does look at through the flags kept beside them.  `Inv`
is what makes those readings right, and `run_inv` proves it of every run from
the empty database:

* every transaction in `prepared_txns_` is above `max_evicted_seq_`, and every
  one in `delayed_prepared_` at or below it and above `0`;
* `delayed_prepared_empty_` and `old_commit_map_empty_` tell whether their
  sets are empty.

The snapshot bookkeeping (`UpdateSnapshots`, `CheckAgainstSnapshots` and the
functions under them) changes nothing the invariant reads but the old commit
map, whose flag it keeps right: `InvFrame`, proved once per function.

## The `min_uncommitted` shortcut

`SmallestUnCommittedSeq` ignores `delayed_prepared_`, so the invariant puts
every transaction there below the `min_uncommitted` of a snapshot taken
meanwhile (`lt_SmallestUnCommittedSeq_of_delayed`).  Once such a transaction
leaves `delayed_prepared_`, which its commit and `RemovePrepared` do, the
shortcut answers for it that it is in the snapshot, whatever its commit
(`IsInSnapshot_of_delayed_at_snapshot`).  A transaction that commits after the
snapshot is then reported visible to it.
-/

namespace HapDB

namespace WritePreparedTxnDB

variable (o : WritePreparedOptions)

/-- `old_commit_map_empty_` tells whether the map is empty. -/
def MapFlag (db : WritePreparedTxnDB) : Prop := db.oldCommitMapEmpty = db.oldCommitMap.isEmpty

/-- `b` agrees with `a` on the prepared sets and `max_evicted_seq_`, and its
flag for the old commit map is right if `a`'s was. -/
structure InvFrame (a b : WritePreparedTxnDB) : Prop where
  prepared : b.preparedTxns = a.preparedTxns
  delayed : b.delayedPrepared = a.delayedPrepared
  delayed_empty : b.delayedPreparedEmpty = a.delayedPreparedEmpty
  max_evicted : b.maxEvictedSeq = a.maxEvictedSeq
  map_flag : a.MapFlag → b.MapFlag

theorem InvFrame.refl (a : WritePreparedTxnDB) : InvFrame a a :=
  ⟨rfl, rfl, rfl, rfl, id⟩

theorem InvFrame.trans {a b c : WritePreparedTxnDB} (hab : InvFrame a b) (hbc : InvFrame b c) :
    InvFrame a c :=
  ⟨hbc.prepared.trans hab.prepared, hbc.delayed.trans hab.delayed,
    hbc.delayed_empty.trans hab.delayed_empty, hbc.max_evicted.trans hab.max_evicted,
    hbc.map_flag ∘ hab.map_flag⟩

/-! ## The snapshot bookkeeping -/

theorem invFrame_ReleaseSnapshotInternal (db : WritePreparedTxnDB) (snapSeq : ℕ) :
    InvFrame db (db.ReleaseSnapshotInternal snapSeq) := by
  unfold ReleaseSnapshotInternal
  split
  · exact ⟨rfl, rfl, rfl, rfl, fun _ => rfl⟩
  · exact InvFrame.refl db

theorem invFrame_MaybeUpdateOldCommitMap (db : WritePreparedTxnDB)
    (prepSeq commitSeq snapshotSeq : ℕ) (nextIsLarger : Bool) :
    InvFrame db (db.MaybeUpdateOldCommitMap prepSeq commitSeq snapshotSeq nextIsLarger).2 := by
  unfold MaybeUpdateOldCommitMap
  split
  · exact InvFrame.refl db
  · split
    · -- the map gains an entry, and its flag says it is not empty
      exact ⟨rfl, rfl, rfl, rfl, fun _ => rfl⟩
    · exact InvFrame.refl db

theorem invFrame_checkUntil (evicted : CommitEntry) (nextIsLarger : Bool) :
    ∀ (snaps : List ℕ) (db : WritePreparedTxnDB),
      InvFrame db (checkUntil evicted nextIsLarger snaps db)
  | [], db => InvFrame.refl db
  | s :: ss, db => by
      have hstep := invFrame_MaybeUpdateOldCommitMap db evicted.prepSeq evicted.commitSeq s
        nextIsLarger
      rcases hm : db.MaybeUpdateOldCommitMap evicted.prepSeq evicted.commitSeq s nextIsLarger
        with ⟨more, db'⟩
      rw [hm] at hstep
      simp only [checkUntil, hm]
      split
      · exact hstep.trans (invFrame_checkUntil evicted nextIsLarger ss db')
      · exact hstep

theorem invFrame_checkCacheDown (evicted : CommitEntry) :
    ∀ (ip1 : ℕ) (searchLarger : Bool) (db : WritePreparedTxnDB),
      InvFrame db (checkCacheDown o evicted searchLarger db ip1).2
  | 0, _, db => InvFrame.refl db
  | ip1 + 1, searchLarger, db => by
      have hstep := invFrame_MaybeUpdateOldCommitMap db evicted.prepSeq evicted.commitSeq
        (db.snapshotCache ip1) false
      rcases hm : db.MaybeUpdateOldCommitMap evicted.prepSeq evicted.commitSeq
        (db.snapshotCache ip1) false with ⟨more, db'⟩
      rw [hm] at hstep
      simp only [checkCacheDown, hm]
      split
      · exact hstep.trans (invFrame_checkCacheDown evicted ip1 _ db')
      · exact hstep

theorem invFrame_CheckAgainstSnapshots (db : WritePreparedTxnDB) (evicted : CommitEntry) :
    InvFrame db (db.CheckAgainstSnapshots o evicted) := by
  have hdown := invFrame_checkCacheDown o evicted
    (min db.snapshotsTotal o.SNAPSHOT_CACHE_SIZE) false db
  rcases hc : checkCacheDown o evicted false db (min db.snapshotsTotal o.SNAPSHOT_CACHE_SIZE)
    with ⟨searchLarger, db'⟩
  rw [hc] at hdown
  simp only [CheckAgainstSnapshots, hc]
  split
  · -- past the cache array the walk goes on over the cached and then the other snapshots
    exact hdown.trans ((invFrame_checkUntil evicted true _ _).trans
      (invFrame_checkUntil evicted true _ _))
  · exact hdown

theorem invFrame_cleanupLoop :
    ∀ (fuel : ℕ) (db : WritePreparedTxnDB) (newSnapshots oldSnapshots : List ℕ),
      InvFrame db (cleanupLoop db fuel newSnapshots oldSnapshots)
  | 0, db, _, _ => InvFrame.refl db
  | _ + 1, db, [], old => by
      -- the old snapshots past the end of the new list are all released
      simp only [cleanupLoop]
      exact Fold.foldl_of_step InvFrame.refl InvFrame.trans invFrame_ReleaseSnapshotInternal old db
  | _ + 1, db, _ :: _, [] => InvFrame.refl db
  | fuel + 1, db, n :: ns, o :: os => by
      unfold cleanupLoop
      split
      · exact invFrame_cleanupLoop fuel db _ _
      · exact (invFrame_ReleaseSnapshotInternal db o).trans (invFrame_cleanupLoop fuel _ _ _)

theorem invFrame_UpdateSnapshots (db : WritePreparedTxnDB) (snapshots : List ℕ) (version : ℕ) :
    InvFrame db (db.UpdateSnapshots o snapshots version) := by
  unfold UpdateSnapshots CleanupReleasedSnapshots
  -- the cache arrays change, which the frame does not see, then released snapshots are cleaned up
  refine InvFrame.trans (InvFrame.trans ?_ (invFrame_cleanupLoop _ _ _ _)) ⟨rfl, rfl, rfl, rfl, id⟩
  exact ⟨rfl, rfl, rfl, rfl, id⟩

/-! ## The invariant -/

/-- What `IsInSnapshot` relies on. -/
structure Inv (db : WritePreparedTxnDB) : Prop where
  prepared_above : ∀ p ∈ db.preparedTxns, db.maxEvictedSeq < p
  delayed_below : ∀ p ∈ db.delayedPrepared, p ≤ db.maxEvictedSeq
  delayed_pos : ∀ p ∈ db.delayedPrepared, 0 < p
  delayed_flag : db.delayedPreparedEmpty = db.delayedPrepared.isEmpty
  map_flag : db.MapFlag

theorem inv_empty : Inv empty :=
  ⟨by simp [empty], by simp [empty], by simp [empty], rfl, rfl⟩

theorem Inv.of_frame {a b : WritePreparedTxnDB} (ha : Inv a) (hab : InvFrame a b) : Inv b where
  prepared_above := hab.prepared ▸ hab.max_evicted ▸ ha.prepared_above
  delayed_below := hab.delayed ▸ hab.max_evicted ▸ ha.delayed_below
  delayed_pos := hab.delayed ▸ ha.delayed_pos
  delayed_flag := hab.delayed_empty ▸ hab.delayed ▸ ha.delayed_flag
  map_flag := hab.map_flag ha.map_flag

/-- Removing transactions from the two sets keeps the invariant, with the flag
of `delayed_prepared_` brought up to date. -/
theorem Inv.of_subset {a b : WritePreparedTxnDB} (ha : Inv a)
    (hprep : ∀ p ∈ b.preparedTxns, p ∈ a.preparedTxns)
    (hdelay : ∀ p ∈ b.delayedPrepared, p ∈ a.delayedPrepared)
    (hmax : b.maxEvictedSeq = a.maxEvictedSeq)
    (hflag : b.delayedPreparedEmpty = b.delayedPrepared.isEmpty) (hmap : b.MapFlag) : Inv b where
  prepared_above p hp := hmax ▸ ha.prepared_above p (hprep p hp)
  delayed_below p hp := hmax ▸ ha.delayed_below p (hdelay p hp)
  delayed_pos p hp := ha.delayed_pos p (hdelay p hp)
  delayed_flag := hflag
  map_flag := hmap

/-- The loop of `AdvanceMaxEvictedSeq`, given a round for each prepared
transaction, leaves in `prepared_txns_` only transactions above `new_max`, and
moves the others to `delayed_prepared_`, whose flag it keeps right. -/
theorem delayPrepared_spec (newMax : ℕ) :
    ∀ (fuel : ℕ) (db : WritePreparedTxnDB), db.preparedTxns.length ≤ fuel →
      db.delayedPreparedEmpty = db.delayedPrepared.isEmpty →
      let db' := delayPrepared newMax db fuel
      (∀ p ∈ db'.preparedTxns, p ∈ db.preparedTxns ∧ newMax < p) ∧
        (∀ p ∈ db'.delayedPrepared,
          p ∈ db.delayedPrepared ∨ p ∈ db.preparedTxns ∧ p ≤ newMax) ∧
        db'.delayedPreparedEmpty = db'.delayedPrepared.isEmpty ∧
        ∃ pr dl fl, db' = { db with
          preparedTxns := pr, delayedPrepared := dl, delayedPreparedEmpty := fl }
  | 0, db, hfuel, hflag => by
      have hnil : db.preparedTxns = [] := List.length_eq_zero_iff.mp (Nat.le_zero.mp hfuel)
      exact ⟨by simp [delayPrepared, hnil], fun p hp => .inl hp, hflag, _, _, _, rfl⟩
  | fuel + 1, db, hfuel, hflag => by
      cases htop : db.preparedTxns.min? with
      | none =>
          have hnil : db.preparedTxns = [] := List.min?_eq_none_iff.mp htop
          simp only [delayPrepared, htop]
          exact ⟨by simp [hnil], fun p hp => .inl hp, hflag, _, _, _, rfl⟩
      | some top =>
          have hmin := List.min?_eq_some_iff.mp htop
          by_cases hle : top ≤ newMax
          · -- the top moves, and the rest of the loop runs on one fewer
            set db₁ : WritePreparedTxnDB := { db with
              delayedPrepared := (db.delayedPrepared.erase top).orderedInsert (· ≤ ·) top
              preparedTxns := db.preparedTxns.erase top
              delayedPreparedEmpty := false } with hdb₁
            have hlen : db₁.preparedTxns.length ≤ fuel := by
              have := List.length_erase_of_mem hmin.1
              simp only [hdb₁]
              omega
            have hflag₁ : db₁.delayedPreparedEmpty = db₁.delayedPrepared.isEmpty := by
              simp [hdb₁, ← List.length_eq_zero_iff, List.orderedInsert_length]
            obtain ⟨hprep, hdelay, hflag', pr, dl, fl, heq⟩ :=
              delayPrepared_spec newMax fuel db₁ hlen hflag₁
            simp only [delayPrepared, htop, if_pos hle]
            refine ⟨fun p hp => ?_, fun p hp => ?_, hflag', pr, dl, fl, by rw [heq]⟩
            · obtain ⟨hp₁, hlt⟩ := hprep p hp
              exact ⟨List.mem_of_mem_erase hp₁, hlt⟩
            · rcases hdelay p hp with hp₁ | ⟨hp₁, hle'⟩
              · simp only [hdb₁, List.mem_orderedInsert] at hp₁
                rcases hp₁ with rfl | hp₁
                · exact .inr ⟨hmin.1, hle⟩
                · exact .inl (List.mem_of_mem_erase hp₁)
              · exact .inr ⟨List.mem_of_mem_erase hp₁, hle'⟩
          · -- the smallest is above `new_max`, and so is every other
            simp only [delayPrepared, htop, if_neg hle]
            refine ⟨fun p hp => ⟨hp, ?_⟩, fun p hp => .inl hp, hflag, _, _, _, rfl⟩
            have htp := hmin.2 p hp
            omega

/-- Bringing the snapshots up to date, as `AdvanceMaxEvictedSeq` does when
`new_max` is past the last version. -/
theorem invFrame_updateSnapshots (db : WritePreparedTxnDB) (newMax : ℕ) :
    InvFrame db (if newMax > db.snapshotsVersion then
      db.UpdateSnapshots o (db.GetSnapshotListFromDB newMax) newMax else db) := by
  split
  · exact invFrame_UpdateSnapshots o db _ newMax
  · exact InvFrame.refl db

theorem AdvanceMaxEvictedSeq_inv {db : WritePreparedTxnDB} (hinv : Inv db) (newMax : ℕ) :
    Inv (db.AdvanceMaxEvictedSeq o db.maxEvictedSeq newMax) := by
  obtain ⟨hprep, hdelay, hflag, pr, dl, fl, heq⟩ :=
    delayPrepared_spec newMax db.preparedTxns.length db le_rfl hinv.delayed_flag
  set db₁ := delayPrepared newMax db db.preparedTxns.length with hdb₁
  -- after the loop the invariant holds at the larger of the two maxima
  set m := max db.maxEvictedSeq newMax with hm
  have hinv₁ : Inv { db₁ with maxEvictedSeq := m } := by
    refine ⟨fun p hp => ?_, fun p hp => ?_, fun p hp => ?_, hflag, ?_⟩
    · -- what stays prepared is above both maxima
      obtain ⟨hp, hnew⟩ := hprep p hp
      have hold := hinv.prepared_above p hp
      dsimp only
      omega
    · dsimp only
      rcases hdelay p hp with hp | ⟨-, hp⟩
      · have := hinv.delayed_below p hp
        omega
      · omega
    · rcases hdelay p hp with hp | ⟨hp, -⟩
      · exact hinv.delayed_pos p hp
      · exact Nat.zero_lt_of_lt (hinv.prepared_above p hp)
    · simp only [MapFlag, heq]
      exact hinv.map_flag
  have hmax₁ : db₁.maxEvictedSeq = db.maxEvictedSeq := by rw [heq]
  have hframe := invFrame_updateSnapshots o db₁ newMax
  unfold AdvanceMaxEvictedSeq
  rw [← hdb₁]
  dsimp only
  generalize (if newMax > db₁.snapshotsVersion then _ else db₁) = db₂ at hframe ⊢
  split
  · -- the maximum moves up to `new_max`
    rename_i hlt
    have hmnew : m = newMax := max_eq_right hlt.le
    exact hinv₁.of_frame ⟨hframe.prepared, hframe.delayed, hframe.delayed_empty, hmnew.symm,
      hframe.map_flag⟩
  · rename_i hge
    have hmold : m = db.maxEvictedSeq := max_eq_left (not_lt.mp hge)
    exact hinv₁.of_frame ⟨hframe.prepared, hframe.delayed, hframe.delayed_empty,
      hframe.max_evicted.trans (hmax₁.trans hmold.symm), hframe.map_flag⟩

theorem AddCommitted_inv {db : WritePreparedTxnDB} (hinv : Inv db) (prepareSeq commitSeq : ℕ) :
    Inv (db.AddCommitted o prepareSeq commitSeq) := by
  -- the new entry goes to the cache, which the invariant does not read
  have hcache : ∀ {a : WritePreparedTxnDB} c, Inv a → Inv { a with commitCache := c } :=
    fun _ ha => ha.of_frame ⟨rfl, rfl, rfl, rfl, id⟩
  -- the entry in the slot, if any, is evicted first
  rcases hslot : db.commitCache (prepareSeq % o.COMMIT_CACHE_SIZE) with _ | evicted
  · simp only [AddCommitted, hslot]
    exact hcache _ hinv
  · simp only [AddCommitted, hslot]
    refine hcache _ (Inv.of_frame ?_ (invFrame_CheckAgainstSnapshots o _ evicted))
    split
    · exact AdvanceMaxEvictedSeq_inv o hinv _
    · exact hinv

theorem AddPrepared_inv {db db' : WritePreparedTxnDB} (hinv : Inv db) {seq : ℕ}
    (h : db.AddPrepared seq = .ok db') : Inv db' := by
  unfold AddPrepared at h
  split at h
  · cases h
  · rename_i hgt
    cases h
    refine ⟨fun p hp => ?_, hinv.delayed_below, hinv.delayed_pos, hinv.delayed_flag,
      hinv.map_flag⟩
    rcases List.mem_cons.mp hp with rfl | hp
    · exact Nat.lt_of_not_le hgt
    · exact hinv.prepared_above p hp

theorem RemovePrepared_inv {db : WritePreparedTxnDB} (hinv : Inv db) (prepareSeq : ℕ) :
    ∀ batchCnt, Inv (db.RemovePrepared prepareSeq batchCnt)
  | 0 => hinv
  | i + 1 => by
      have ih := RemovePrepared_inv hinv prepareSeq i
      unfold RemovePrepared
      generalize db.RemovePrepared prepareSeq i = d at ih ⊢
      have hprep : ∀ p ∈ d.preparedTxns.erase (prepareSeq + i), p ∈ d.preparedTxns :=
        fun _ => List.mem_of_mem_erase
      have hdelay : ∀ p ∈ d.delayedPrepared.erase (prepareSeq + i), p ∈ d.delayedPrepared :=
        fun _ => List.mem_of_mem_erase
      dsimp only
      split_ifs with hne hchange
      · -- the flag is set when the set empties
        exact ih.of_subset hprep hdelay rfl rfl ih.map_flag
      · -- otherwise it already agreed
        refine ih.of_subset hprep hdelay rfl ?_ ih.map_flag
        rw [ih.delayed_flag]
        simpa using hchange
      · exact ih.of_subset hprep (fun _ => id) rfl ih.delayed_flag ih.map_flag

theorem step_inv {db db' : WritePreparedTxnDB} (hinv : Inv db) {op : Op}
    (h : db.step o op = .ok db') : Inv db' := by
  cases op with
  | prepare seq =>
      cases hp : db.AddPrepared seq with
      | error e => simp [step, hp, Except.map] at h
      | ok db₁ =>
          simp only [step, hp, Except.map, Except.ok.injEq] at h
          subst h
          exact (AddPrepared_inv hinv hp).of_frame ⟨rfl, rfl, rfl, rfl, id⟩
  | commit p c =>
      simp only [step, Except.ok.injEq] at h
      subst h
      exact (AddCommitted_inv o hinv p c).of_frame ⟨rfl, rfl, rfl, rfl, id⟩
  | removePrepared p =>
      simp only [step, Except.ok.injEq] at h
      subst h
      exact RemovePrepared_inv hinv p 1
  | snapshot =>
      simp only [step, GetSnapshot, Except.ok.injEq] at h
      subst h
      exact hinv.of_frame ⟨rfl, rfl, rfl, rfl, id⟩
  | release s =>
      simp only [step, Except.ok.injEq] at h
      subst h
      exact hinv.of_frame ⟨rfl, rfl, rfl, rfl, id⟩

/-- Every state a run reaches keeps the invariant. -/
theorem run_inv : ∀ {db db' : WritePreparedTxnDB} (ops : List Op), Inv db →
    db.run o ops = .ok db' → Inv db'
  | _, _, [], hinv, h => by
      simp only [run, Except.ok.injEq] at h
      exact h ▸ hinv
  | db, _, op :: ops, hinv, h => by
      cases hs : db.step o op with
      | error e => simp [run, hs, Except.bind] at h
      | ok db₁ =>
          simp only [run, hs, Except.bind] at h
          exact run_inv ops (step_inv o hinv hs) h

/-! ## The `min_uncommitted` shortcut -/

/-- `SmallestUnCommittedSeq` lies above every transaction in
`delayed_prepared_` up to the last sequence number. -/
theorem lt_SmallestUnCommittedSeq_of_delayed {db : WritePreparedTxnDB} (hinv : Inv db) {p : ℕ}
    (hp : p ∈ db.delayedPrepared) (hlatest : p ≤ db.latestSeq) :
    p < db.SmallestUnCommittedSeq := by
  have hmax := hinv.delayed_below p hp
  unfold SmallestUnCommittedSeq
  split
  · omega
  · -- the top of the heap is prepared, so above `max_evicted_seq_`
    rename_i top htop
    have htop' := hinv.prepared_above top (List.min?_eq_some_iff.mp htop).1
    omega

/-- A transaction in `delayed_prepared_` when a snapshot is taken is in it for
`IsInSnapshot` once it has left `delayed_prepared_`, whatever its commit. -/
theorem IsInSnapshot_of_delayed_at_snapshot {db db' : WritePreparedTxnDB} (hinv : Inv db)
    {p : ℕ} (hp : p ∈ db.delayedPrepared) (hlatest : p ≤ db.latestSeq)
    (hgone : p ∉ db'.delayedPrepared) :
    db'.IsInSnapshot o p db.GetSnapshot.1.1 db.GetSnapshot.1.2 = true := by
  have hmin := lt_SmallestUnCommittedSeq_of_delayed hinv hp hlatest
  have hpos : p ≠ 0 := Nat.pos_iff_ne_zero.mp (hinv.delayed_pos p hp)
  have hsnap : ¬ db.latestSeq < p := Nat.not_lt.mpr hlatest
  -- not `0`, not above the snapshot, not in `delayed_prepared_`, and below `min_uncommitted`
  simp [GetSnapshot, IsInSnapshot, hpos, hsnap, hgone, hmin]

/-- Transactions `1` and `2` are prepared, `2` commits, and the commit of
`8388610 = 2 + 2 ^ 23` evicts it from the commit cache of the default size,
which moves `1` to `delayed_prepared_`. -/
def evictRun : List Op :=
  [.prepare 1, .prepare 2, .commit 2 3, .removePrepared 2,
    .prepare 8388610, .commit 8388610 8388611, .removePrepared 8388610]

/-- `1` commits after the snapshot. -/
def lateCommit : List Op := [.commit 1 8388612, .removePrepared 1]

theorem delayed_commit_after_snapshot_visible :
    (empty.run {} evictRun).map (fun db => db.GetSnapshot.1) = .ok (8388611, 8388612) ∧
      (empty.run {} (evictRun ++ .snapshot :: lateCommit)).map
          (fun db => (db.commitCache 1, db.IsInSnapshot {} 1 8388611 8388612)) =
        .ok (some ⟨1, 8388612⟩, true) := by
  constructor <;> decide +kernel

end WritePreparedTxnDB

end HapDB
