import HapDB.Proofs.Table.BlockLayout

/-!
# `BlockBuilder` lays out a block the reader can walk

The builder's output, for the entries of one data block, is
`blockContents (entries R D es) (restartIndices R n)` (`build_eq`): entry `i`
shares nothing when `i` is a multiple of the restart interval `R`, and
otherwise, with delta encoding, the common prefix with the key before
(`sharedAt`); the restart points are entry `0` and every `R`-th entry after it.

The proof is an invariant of the `Add` loop (`Added`): after the `Add`s of a
prefix `pre`, the buffer holds the entries of `pre`, the restart array their
restart points, and `counter_` is the number of entries since the last one.
One `Add` keeps it (`Added.add`), and `Finish` appends the restart array and
the footer.

The entries so laid out form a `BlockLayout` (`builtLayout`) as soon as the
block is under `2 ^ 32` bytes: a key shares with the key before only their
common prefix (`take_differenceOffset`).
-/

namespace HapDB

namespace BlockBuilder

/-- The `shared` count that `Add` gives the key of index `i`, whose
predecessor is `prev`. -/
def sharedAt (R : ℕ) (D : Bool) (i : ℕ) (prev key : Bytes) : ℕ :=
  if i % R = 0 then 0 else if D then differenceOffset key prev else 0

/-- The entries that `Add` writes for `es`, the first of index `i` and after the
key `prev`. -/
def entriesFrom (R : ℕ) (D : Bool) : ℕ → Bytes → List (Bytes × Bytes) → List BlockEntry
  | _, _, [] => []
  | i, prev, e :: es => ⟨sharedAt R D i prev e.1, e.1, e.2⟩ :: entriesFrom R D (i + 1) e.1 es

/-- The entries of a block built from `es`. -/
def entries (R : ℕ) (D : Bool) (es : List (Bytes × Bytes)) : List BlockEntry := entriesFrom R D 0 [] es

/-- The restart entries: the first, and every `R`-th after it. -/
def restartIndices (R n : ℕ) : List ℕ := 0 :: (List.range n).filter fun i => 0 < i ∧ i % R = 0

variable {R : ℕ} {D : Bool}

/-! ## The entries -/

theorem entriesFrom_append_singleton (e : Bytes × Bytes) :
    ∀ (i : ℕ) (prev : Bytes) (es : List (Bytes × Bytes)),
      entriesFrom R D i prev (es ++ [e]) = entriesFrom R D i prev es ++
        [⟨sharedAt R D (i + es.length) ((es.map (·.1)).getLastD prev) e.1, e.1, e.2⟩] := by
  intro i prev es
  induction es generalizing i prev with
  | nil => simp [entriesFrom]
  | cons x es ih =>
    simp only [List.cons_append, entriesFrom, ih, List.length_cons, List.map_cons, List.getLastD_cons,
      Nat.add_assoc, Nat.add_comm 1]

@[simp] theorem length_entriesFrom (i : ℕ) (prev : Bytes) (es : List (Bytes × Bytes)) :
    (entriesFrom R D i prev es).length = es.length := by
  induction es generalizing i prev with
  | nil => rfl
  | cons e es ih => simp [entriesFrom, ih]

theorem map_entriesFrom (i : ℕ) (prev : Bytes) (es : List (Bytes × Bytes)) :
    (entriesFrom R D i prev es).map (fun e => (e.key, e.value)) = es := by
  induction es generalizing i prev with
  | nil => rfl
  | cons e es ih => simp [entriesFrom, ih]

/-- Entry `j` of `entriesFrom`: the pair of index `j`, after the pair before it. -/
theorem getD_entriesFrom (i : ℕ) (prev : Bytes) (es : List (Bytes × Bytes)) :
    ∀ j < es.length, (entriesFrom R D i prev es).getD j default =
      ⟨sharedAt R D (i + j) (if j = 0 then prev else (es.getD (j - 1) default).1) (es.getD j default).1,
        (es.getD j default).1, (es.getD j default).2⟩ := by
  induction es generalizing i prev with
  | nil => intro j hj; simp at hj
  | cons e es ih =>
    intro j hj
    cases j with
    | zero => simp [entriesFrom]
    | succ j =>
      rw [entriesFrom, List.getD_cons_succ, ih (i + 1) e.1 j (by simpa using hj)]
      cases j with
      | zero => simp
      | succ j => simp [Nat.add_assoc, Nat.add_comm 1]

theorem entryOffset_append {es es' : List BlockEntry} {r : ℕ} (hr : r ≤ es.length) :
    entryOffset (es ++ es') r = entryOffset es r := by
  rw [entryOffset, entryOffset, List.take_append_of_le_length hr]

/-! ## The restart points -/

theorem restartIndices_succ (hR : 0 < R) (n : ℕ) :
    restartIndices R (n + 1) =
      restartIndices R n ++ if 0 < n ∧ n % R = 0 then [n] else [] := by
  have _ := hR
  simp only [restartIndices, List.range_succ, List.filter_append, List.cons_append]
  split <;> simp_all

theorem mem_restartIndices {r n : ℕ} (h : r ∈ restartIndices R n) : r % R = 0 ∧ (r = 0 ∨ r < n) := by
  simp only [restartIndices, List.mem_cons, List.mem_filter, List.mem_range, decide_eq_true_eq] at h
  rcases h with rfl | ⟨hlt, -, hmod⟩
  · simp
  · exact ⟨hmod, .inr hlt⟩

theorem sorted_restartIndices (n : ℕ) : (restartIndices R n).Pairwise (· < ·) := by
  rw [restartIndices, List.pairwise_cons]
  refine ⟨fun r hr => ?_, List.pairwise_lt_range.filter _⟩
  simp only [List.mem_filter, decide_eq_true_eq] at hr
  exact hr.2.1

/-! ## The `Add` loop -/

/-- One more entry either completes a group of `R`, or adds one to the
remainder. -/
theorem add_one_mod_cases (hR : 0 < R) (a : ℕ) :
    (a % R + 1 = R ∧ (a + 1) % R = 0) ∨ (a % R + 1 < R ∧ (a + 1) % R = a % R + 1) := by
  have hlt := Nat.mod_lt a hR
  rcases Nat.lt_or_ge (a % R + 1) R with h | h
  · -- no wrap: `1 % R = 1` since `R > a % R + 1 ≥ 1`
    right
    rw [← Nat.mod_add_mod, Nat.mod_eq_of_lt h]
    exact ⟨h, rfl⟩
  · left
    have heq : a % R + 1 = R := by omega
    refine ⟨heq, ?_⟩
    rw [← Nat.mod_add_mod, heq, Nat.mod_self]

/-- `counter_` after `m` entries: `0`, then `1, ..., R, 1, ..., R, ...`. -/
def counterAfter (R m : ℕ) : ℕ := if m = 0 then 0 else (m - 1) % R + 1

theorem counterAfter_ge_iff (hR : 0 < R) (m : ℕ) : counterAfter R m ≥ R ↔ 0 < m ∧ m % R = 0 := by
  rcases m with _ | a
  · simp [counterAfter]
    omega
  · simp only [counterAfter, Nat.add_one_ne_zero, if_false, Nat.add_sub_cancel]
    rcases add_one_mod_cases hR a with ⟨h1, h2⟩ | ⟨h1, h2⟩ <;> omega

theorem counterAfter_succ (hR : 0 < R) (m : ℕ) :
    counterAfter R (m + 1) = (if counterAfter R m ≥ R then 0 else counterAfter R m) + 1 := by
  rcases m with _ | a
  · simp [counterAfter]
  · simp only [counterAfter, Nat.add_one_ne_zero, if_false, Nat.add_sub_cancel]
    rcases add_one_mod_cases hR a with ⟨h1, h2⟩ | ⟨h1, h2⟩
    · rw [if_pos (by omega), h2]
    · rw [if_neg (by omega), h2]

@[simp] theorem differenceOffset_nil_right (s : Bytes) : differenceOffset s [] = 0 := by
  cases s <;> rfl

/-- `Add(key, value)` without value delta encoding: one entry appended. -/
theorem add_eq (b : BlockBuilder) (key value : Bytes) (hv : b.useValueDeltaEncoding = false) :
    b.add key value [] =
      { b with
        buffer := b.buffer ++ (⟨if b.counter ≥ b.blockRestartInterval then 0
            else if b.useDeltaEncoding then differenceOffset key b.lastKey else 0, key, value⟩ :
              BlockEntry).encode
        restarts := if b.counter ≥ b.blockRestartInterval then b.restarts ++ [UInt32.ofNat b.buffer.length]
          else b.restarts
        counter := (if b.counter ≥ b.blockRestartInterval then 0 else b.counter) + 1
        lastKey := if b.useDeltaEncoding then key else b.lastKey } := by
  unfold add
  by_cases hr : b.counter ≥ b.blockRestartInterval <;> cases hd : b.useDeltaEncoding <;>
    simp [hr, hd, hv, BlockEntry.encode, BlockEntry.header]

/-- The builder after the `Add`s of `pre`. -/
structure Added (R : ℕ) (D : Bool) (b : BlockBuilder) (pre : List (Bytes × Bytes)) : Prop where
  interval : b.blockRestartInterval = R
  delta : b.useDeltaEncoding = D
  valueDelta : b.useValueDeltaEncoding = false
  buffer : b.buffer = (entries R D pre).flatMap BlockEntry.encode
  restarts : b.restarts = (restartIndices R pre.length).map fun r => UInt32.ofNat (entryOffset (entries R D pre) r)
  counter : b.counter = counterAfter R pre.length
  lastKey : b.lastKey = if D then (pre.map (·.1)).getLastD [] else []

theorem added_new : Added R D (new R D false) [] where
  interval := rfl
  delta := rfl
  valueDelta := rfl
  buffer := rfl
  restarts := rfl
  counter := rfl
  lastKey := by cases D <;> rfl

/-- One `Add` keeps the invariant: a restart exactly when the entries so far
fill a group of `R`. -/
theorem Added.add (hR : 0 < R) {b : BlockBuilder} {pre : List (Bytes × Bytes)} (h : Added R D b pre)
    (e : Bytes × Bytes) : Added R D (b.add e.1 e.2 []) (pre ++ [e]) := by
  -- whether this `Add` restarts, and the `shared` count it writes
  have hrestart : b.counter ≥ b.blockRestartInterval ↔ 0 < pre.length ∧ pre.length % R = 0 := by
    rw [h.counter, h.interval]
    exact counterAfter_ge_iff hR _
  have hshared : (if b.counter ≥ b.blockRestartInterval then 0
      else if b.useDeltaEncoding then differenceOffset e.1 b.lastKey else 0) =
      sharedAt R D pre.length ((pre.map (·.1)).getLastD []) e.1 := by
    rw [sharedAt, h.delta, h.lastKey]
    by_cases hr : b.counter ≥ b.blockRestartInterval
    · rw [if_pos hr, if_pos (hrestart.mp hr).2]
    · rw [if_neg hr]
      rcases Nat.eq_zero_or_pos pre.length with h0 | hpos
      · -- the first entry: nothing before it to share with
        rw [List.length_eq_zero_iff.mp h0]
        cases D <;> simp
      · have hmod : pre.length % R ≠ 0 := fun hm => hr (hrestart.mpr ⟨hpos, hm⟩)
        rw [if_neg hmod]
        cases D <;> simp
  have hentries : entries R D (pre ++ [e]) =
      entries R D pre ++ [⟨sharedAt R D pre.length ((pre.map (·.1)).getLastD []) e.1, e.1, e.2⟩] := by
    rw [entries, entriesFrom_append_singleton, Nat.zero_add]
    rfl
  have hlen : (entries R D pre).length = pre.length := length_entriesFrom _ _ _
  rw [add_eq b e.1 e.2 h.valueDelta, hshared]
  constructor
  · exact h.interval
  · exact h.delta
  · exact h.valueDelta
  · simp [hentries, h.buffer]
  · -- a restart records the offset where the new entry starts
    have hold : ∀ r ∈ restartIndices R pre.length,
        UInt32.ofNat (entryOffset (entries R D (pre ++ [e])) r) =
          UInt32.ofNat (entryOffset (entries R D pre) r) := fun r hr => by
      rw [hentries, entryOffset_append]
      rcases (mem_restartIndices hr).2 with h0 | hlt <;> omega
    simp only [h.restarts, List.length_append, List.length_singleton, restartIndices_succ hR,
      List.map_append]
    rw [List.map_congr_left hold]
    by_cases hr : b.counter ≥ b.blockRestartInterval
    · have hend : entryOffset (entries R D pre) pre.length =
          ((entries R D pre).flatMap BlockEntry.encode).length := by
        rw [← hlen, entryOffset_length]
      rw [if_pos hr, if_pos (hrestart.mp hr), h.buffer, hentries]
      simp only [List.map_cons, List.map_nil]
      rw [entryOffset_append (by omega), hend]
    · rw [if_neg hr, if_neg (fun hc => hr (hrestart.mpr hc))]
      simp
  · dsimp only
    rw [List.length_append, List.length_singleton, counterAfter_succ hR, h.counter, h.interval]
  · rw [h.lastKey, h.delta]
    cases D <;> simp

/-- The run lemma: the `Add`s of `es`, after those of `pre`. -/
theorem Added.foldl (hR : 0 < R) (es : List (Bytes × Bytes)) :
    ∀ {b : BlockBuilder} {pre : List (Bytes × Bytes)}, Added R D b pre →
      Added R D (es.foldl (fun b e => b.add e.1 e.2 []) b) (pre ++ es) := by
  induction es with
  | nil => intro b pre h; simpa using h
  | cons e es ih =>
    intro b pre h
    rw [List.foldl_cons, List.append_cons]
    exact ih (h.add hR e)

/-! ## `Finish` -/

theorem foldl_putFixed32 (l : List UInt32) :
    ∀ acc : Bytes, l.foldl putFixed32 acc = acc ++ l.flatMap encodeFixed32 := by
  induction l with
  | nil => simp
  | cons w l ih => intro acc; simp [ih]

theorem finish_fst (b : BlockBuilder) :
    b.finish.1 = b.buffer ++ b.restarts.flatMap encodeFixed32 ++
      encodeFixed32 (UInt32.ofNat b.restarts.length) := by
  simp [finish, foldl_putFixed32, PackIndexTypeAndNumRestarts]

/-- The block built from `es`: its entries, the restart array and the footer. -/
theorem build_eq (hR : 0 < R) (D : Bool) (es : List (Bytes × Bytes)) :
    build R D es = blockContents (entries R D es) (restartIndices R es.length) := by
  have h := Added.foldl hR es (added_new (R := R) (D := D))
  rw [List.nil_append] at h
  rw [build, finish_fst, h.buffer, h.restarts, blockContents, List.flatMap_map, List.length_map]

/-! ## The block is one the reader can walk -/

theorem shared_restart_entries {r : ℕ} (es : List (Bytes × Bytes)) (hr : r ∈ restartIndices R es.length) :
    ((entries R D es).getD r default).shared = 0 := by
  obtain ⟨hmod, -⟩ := mem_restartIndices hr
  rcases Nat.lt_or_ge r es.length with hlt | hge
  · rw [entries, getD_entriesFrom _ _ _ r hlt, Nat.zero_add]
    simp [sharedAt, hmod]
  · rw [List.getD_eq_default _ _ (by simpa [entries] using hge)]
    rfl

/-- A key shares with the key before only their common prefix. -/
theorem follows_entries (es : List (Bytes × Bytes)) {i : ℕ} (hi : i + 1 < es.length) :
    ((entries R D es).getD i default).Follows ((entries R D es).getD (i + 1) default) := by
  rw [entries, getD_entriesFrom _ _ _ i (by omega), getD_entriesFrom _ _ _ (i + 1) hi]
  simp only [Nat.zero_add, Nat.add_one_ne_zero, if_false, Nat.add_sub_cancel, BlockEntry.Follows]
  unfold sharedAt
  split
  · simp
  · split
    · have hle := differenceOffset_le (es.getD (i + 1) default).1 (es.getD i default).1
      refine ⟨by omega, by omega, take_differenceOffset _ _⟩
    · simp

/-- The block built from `es`, under `2 ^ 32` bytes, as a layout. -/
def builtLayout (hR : 0 < R) (D : Bool) (es : List (Bytes × Bytes))
    (hsize : (build R D es).length < 2 ^ 32) : BlockLayout where
  entries := entries R D es
  restartIdx := restartIndices R es.length
  head_restartIdx := rfl
  sorted_restartIdx := sorted_restartIndices _
  restartIdx_lt := fun r hr => by simpa [entries] using (mem_restartIndices hr).2
  shared_restart := fun r hr => shared_restart_entries es hr
  follows := fun i hi => follows_entries es (by simpa [entries] using hi)
  size_lt := by rw [← build_eq hR]; exact hsize

theorem data_builtLayout (hR : 0 < R) (D : Bool) (es : List (Bytes × Bytes))
    (hsize : (build R D es).length < 2 ^ 32) : (builtLayout hR D es hsize).data = build R D es :=
  (build_eq hR D es).symm

theorem pairs_builtLayout (hR : 0 < R) (D : Bool) (es : List (Bytes × Bytes))
    (hsize : (build R D es).length < 2 ^ 32) : (builtLayout hR D es hsize).pairs = es :=
  map_entriesFrom 0 [] es

end BlockBuilder

end HapDB
