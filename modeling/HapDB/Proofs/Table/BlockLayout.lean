import HapDB.Table.Block
import HapDB.Proofs.Comparator.Shortening

/-!
# The layout of a data block

`BlockBuilder` writes, and `DataBlockIter` reads, a block of this shape:

    entry_0 ... entry_{n-1}   restart_0 ... restart_{m-1}   num_restarts

`BlockEntry` is one entry with its `shared` count and `blockContents` the
whole block.  `BlockLayout` is a block the reader can walk: each key starts
with the bytes its count says it shares with the key before, the restart
points are entries that share nothing, and the block is under `2 ^ 32` bytes,
so that every length and offset survives its cast to `uint32_t`.

The lemmas read the bytes of such a block the way the iterator does:

* `DecodeEntry_off`: `DecodeEntry` at the offset of an entry gives its three
  lengths, by the fast path or by the varint loops alike (`DecodeEntry_eq`);
* `keyDelta_off` and `value_off`: the slices after the header are the
  unshared bytes of the key and the value;
* `restartPoint_eq`: the restart array holds the offsets of the restart
  entries;
* `make_data`: `Block::Block` finds the restart array where the entries end.
-/

namespace HapDB

/-- An entry of a block: its key, its value, and how many bytes of the key
before it the key starts with. -/
structure BlockEntry where
  shared : ℕ
  key : Bytes
  value : Bytes

instance : Inhabited BlockEntry := ⟨⟨0, [], []⟩⟩

namespace BlockEntry

/-- `<shared><non_shared><value_size>`. -/
def header (e : BlockEntry) : Bytes :=
  encodeVarint32 (UInt32.ofNat e.shared) ++ encodeVarint32 (UInt32.ofNat (e.key.length - e.shared)) ++
    encodeVarint32 (UInt32.ofNat e.value.length)

/-- The header, the unshared bytes of the key and the value, as
`BlockBuilder::Add` appends them. -/
def encode (e : BlockEntry) : Bytes := e.header ++ e.key.drop e.shared ++ e.value

/-- `e` may follow `prev`: it shares no more bytes than either key has, and the
two keys agree on those. -/
def Follows (prev e : BlockEntry) : Prop :=
  e.shared ≤ e.key.length ∧ e.shared ≤ prev.key.length ∧ e.key.take e.shared = prev.key.take e.shared

theorem length_encode (e : BlockEntry) :
    e.encode.length = e.header.length + (e.key.length - e.shared) + e.value.length := by
  simp [encode, Nat.add_assoc]

theorem three_le_length_header (e : BlockEntry) : 3 ≤ e.header.length := by
  have hne : ∀ v : UInt32, 1 ≤ (encodeVarint32 v).length := fun v =>
    List.length_pos_iff.mpr (encodeVarint32_ne_nil v)
  have h1 := hne (UInt32.ofNat e.shared)
  have h2 := hne (UInt32.ofNat (e.key.length - e.shared))
  have h3 := hne (UInt32.ofNat e.value.length)
  simp only [header, List.length_append]
  omega

end BlockEntry

/-- The offset of entry `i`: the bytes of the entries before it. -/
def entryOffset (es : List BlockEntry) (i : ℕ) : ℕ := ((es.take i).flatMap BlockEntry.encode).length

/-- A block: the entries, the offsets of the restart entries as fixed32 words,
and their number. -/
def blockContents (es : List BlockEntry) (rs : List ℕ) : Bytes :=
  es.flatMap BlockEntry.encode ++ rs.flatMap (fun r => encodeFixed32 (UInt32.ofNat (entryOffset es r))) ++
    encodeFixed32 (UInt32.ofNat rs.length)

/-- A block the reader can walk. -/
structure BlockLayout where
  entries : List BlockEntry
  /-- The indices of the restart entries. -/
  restartIdx : List ℕ
  head_restartIdx : restartIdx.head? = some 0
  sorted_restartIdx : restartIdx.Pairwise (· < ·)
  /-- Past the first, a restart point is an entry. -/
  restartIdx_lt : ∀ r ∈ restartIdx, r = 0 ∨ r < entries.length
  shared_restart : ∀ r ∈ restartIdx, (entries.getD r default).shared = 0
  follows : ∀ i, i + 1 < entries.length →
    (entries.getD i default).Follows (entries.getD (i + 1) default)
  size_lt : (blockContents entries restartIdx).length < 2 ^ 32

/-! ## Reading a varint header -/

theorem getD_drop (l : Bytes) (p i : ℕ) : (l.drop p).getD i 0 = l.getD (p + i) 0 := by
  simp [List.getD_eq_getElem?_getD, List.getElem?_drop]

/-- A varint whose first byte has a clear top bit is that one byte. -/
theorem encodeVarint32_of_head_lt {v : UInt32} {rest : Bytes}
    (h : ((encodeVarint32 v ++ rest).getD 0 0).toNat < 128) :
    encodeVarint32 v = [UInt8.ofNat v.toNat] ∧ v.toNat < 128 := by
  have hor : ∀ x : UInt8, 128 ≤ (x ||| 128).toNat := fun x => by
    rw [UInt8.toNat_or]
    exact Nat.right_le_or
  unfold encodeVarint32 at h ⊢
  dsimp only at h ⊢
  split_ifs at h ⊢ with h7
  · exact ⟨rfl, h7⟩
  all_goals
    simp only [List.cons_append, List.getD_cons_zero] at h
    have := hor (UInt8.ofNat v.toNat)
    omega

theorem toUInt32_ofNat_of_lt {v : UInt32} (h : v.toNat < 128) : (UInt8.ofNat v.toNat).toUInt32 = v := by
  apply UInt32.toNat_inj.mp
  rw [UInt8.toNat_toUInt32, UInt8.toNat_ofNat', Nat.mod_eq_of_lt (by omega)]

theorem or_lt_128_iff (x y z : UInt32) :
    (x ||| y ||| z) < 128 ↔ x.toNat < 128 ∧ y.toNat < 128 ∧ z.toNat < 128 := by
  simp only [UInt32.lt_iff_toNat_lt, UInt32.toNat_or, UInt32.reduceToNat]
  constructor
  · intro h
    have hxy : x.toNat ||| y.toNat < 128 := lt_of_le_of_lt Nat.left_le_or h
    exact ⟨lt_of_le_of_lt Nat.left_le_or hxy, lt_of_le_of_lt Nat.right_le_or hxy,
      lt_of_le_of_lt Nat.right_le_or h⟩
  · rintro ⟨hx, hy, hz⟩
    exact Nat.or_lt_two_pow (n := 7) (Nat.or_lt_two_pow (n := 7) hx hy) hz

/-- `DecodeEntry` reads a header of three varints, by its fast path when each
is one byte and by `GetVarint32Ptr` otherwise. -/
theorem DecodeEntry_eq {data : Bytes} {p limit : ℕ} {a b c : UInt32} {rest : Bytes}
    (hdrop : data.drop p = encodeVarint32 a ++ encodeVarint32 b ++ encodeVarint32 c ++ rest)
    (hlimit : p + (encodeVarint32 a ++ encodeVarint32 b ++ encodeVarint32 c).length ≤ limit) :
    DecodeEntry data p limit =
      some (a, b, c, p + (encodeVarint32 a ++ encodeVarint32 b ++ encodeVarint32 c).length) := by
  have hbyte : ∀ i, data.getD (p + i) 0 =
      (encodeVarint32 a ++ (encodeVarint32 b ++ (encodeVarint32 c ++ rest))).getD i 0 := fun i => by
    rw [← getD_drop, hdrop, List.append_assoc, List.append_assoc]
  unfold DecodeEntry
  dsimp only
  split
  · -- the fast path: each byte is below 128, so each varint is that byte
    rename_i hfast
    have hbyte0 := hbyte 0
    rw [Nat.add_zero] at hbyte0
    obtain ⟨h0, h1, h2⟩ := (or_lt_128_iff _ _ _).mp hfast
    rw [UInt8.toNat_toUInt32, hbyte0] at h0
    rw [UInt8.toNat_toUInt32, hbyte 1] at h1
    rw [UInt8.toNat_toUInt32, hbyte 2] at h2
    obtain ⟨ha, ha7⟩ := encodeVarint32_of_head_lt h0
    simp only [ha, List.singleton_append, List.getD_cons_succ] at h1 h2
    obtain ⟨hb, hb7⟩ := encodeVarint32_of_head_lt h1
    simp only [hb, List.singleton_append, List.getD_cons_succ] at h2
    obtain ⟨hc, hc7⟩ := encodeVarint32_of_head_lt h2
    rw [hbyte0, hbyte 1, hbyte 2]
    simp only [ha, hb, hc, List.cons_append, List.nil_append, List.getD_cons_zero, List.getD_cons_succ,
      toUInt32_ofNat_of_lt ha7, toUInt32_ofNat_of_lt hb7, toUInt32_ofNat_of_lt hc7, List.length_cons,
      List.length_nil]
  · -- the varint loops, on the bytes before `limit`
    have hinput : (data.take limit).drop p =
        encodeVarint32 a ++ (encodeVarint32 b ++ (encodeVarint32 c ++
          rest.take (limit - p - (encodeVarint32 a ++ encodeVarint32 b ++ encodeVarint32 c).length))) := by
      rw [List.drop_take, hdrop]
      simp only [List.length_append] at hlimit ⊢
      simp only [List.append_assoc, List.take_append]
      rw [List.take_of_length_le (by omega), List.take_of_length_le (by omega),
        List.take_of_length_le (by omega)]
      congr 4
      omega
    have hget : ∀ (v : UInt32) (rest : Bytes), getVarint32Ptr (encodeVarint32 v ++ rest) = some (v, rest) :=
      getVarint32_encodeVarint32
    simp only [hinput, hget, List.length_append]
    congr 4
    omega

/-! ## Offsets of entries -/

section Offsets

variable {es : List BlockEntry}

theorem entryOffset_succ {i : ℕ} (hi : i < es.length) :
    entryOffset es (i + 1) = entryOffset es i + (es.getD i default).encode.length := by
  rw [entryOffset, entryOffset, List.take_succ_eq_append_getElem hi, List.flatMap_append,
    List.length_append, List.getD_eq_getElem _ _ hi, List.flatMap_cons, List.flatMap_nil, List.append_nil]

/-- An entry takes at least its three header bytes. -/
theorem entryOffset_add_three_le {i : ℕ} (hi : i < es.length) :
    entryOffset es i + 3 ≤ entryOffset es (i + 1) := by
  rw [entryOffset_succ hi, BlockEntry.length_encode]
  have := (es.getD i default).three_le_length_header
  omega

theorem entryOffset_mono {i j : ℕ} (hij : i ≤ j) : entryOffset es i ≤ entryOffset es j := by
  obtain ⟨k, rfl⟩ := Nat.exists_eq_add_of_le hij
  rw [entryOffset, entryOffset, List.take_add, List.flatMap_append, List.length_append]
  exact Nat.le_add_right _ _

theorem entryOffset_lt_entryOffset {i j : ℕ} (hij : i < j) (hj : j ≤ es.length) :
    entryOffset es i < entryOffset es j :=
  calc entryOffset es i < entryOffset es i + 3 := by omega
    _ ≤ entryOffset es (i + 1) := entryOffset_add_three_le (by omega)
    _ ≤ entryOffset es j := entryOffset_mono hij

theorem entryOffset_inj {i j : ℕ} (hi : i ≤ es.length) (hj : j ≤ es.length)
    (h : entryOffset es i = entryOffset es j) : i = j := by
  rcases Nat.lt_trichotomy i j with hlt | heq | hgt
  · exact absurd h (entryOffset_lt_entryOffset hlt hj).ne
  · exact heq
  · exact absurd h (entryOffset_lt_entryOffset hgt hi).ne'

theorem three_mul_le_entryOffset {i : ℕ} (hi : i ≤ es.length) : 3 * i ≤ entryOffset es i := by
  induction i with
  | zero => simp
  | succ i ih =>
    have hstep : entryOffset es i + 3 ≤ entryOffset es (i + 1) := entryOffset_add_three_le (by omega)
    have := ih (by omega)
    omega

theorem entryOffset_length : entryOffset es es.length = (es.flatMap BlockEntry.encode).length := by
  simp [entryOffset]

/-- The bytes from the offset of entry `i` on start with entry `i`. -/
theorem drop_entryOffset {i : ℕ} (hi : i < es.length) (tail : Bytes) :
    (es.flatMap BlockEntry.encode ++ tail).drop (entryOffset es i) =
      (es.getD i default).encode ++ ((es.drop (i + 1)).flatMap BlockEntry.encode ++ tail) := by
  have hsplit : es = es.take i ++ es.getD i default :: es.drop (i + 1) := by
    rw [List.getD_eq_getElem _ _ hi, ← List.drop_eq_getElem_cons hi, List.take_append_drop]
  have hflat : es.flatMap BlockEntry.encode = (es.take i).flatMap BlockEntry.encode ++
      ((es.getD i default).encode ++ (es.drop (i + 1)).flatMap BlockEntry.encode) := by
    conv_lhs => rw [hsplit]
    rw [List.flatMap_append, List.flatMap_cons]
  rw [hflat, List.append_assoc, List.append_assoc]
  exact List.drop_left' rfl

end Offsets

namespace BlockLayout

variable (L : BlockLayout)

/-- Entry `i`, or an empty entry past the last. -/
def entry (i : ℕ) : BlockEntry := L.entries.getD i default

def data : Bytes := blockContents L.entries L.restartIdx

def off (i : ℕ) : ℕ := entryOffset L.entries i

/-- Where the restart array starts: the end of the last entry. -/
def limit : ℕ := L.off L.entries.length

/-- Where the value of entry `i` starts, past its header and key delta. -/
def valueStart (i : ℕ) : ℕ :=
  L.off i + (L.entry i).header.length + ((L.entry i).key.length - (L.entry i).shared)

/-- The entry at restart point `r`. -/
def restartEntry (r : ℕ) : ℕ := L.restartIdx.getD r 0

/-- The pairs the block holds, in order. -/
def pairs : List (Bytes × Bytes) := L.entries.map fun e => (e.key, e.value)

variable {L}

@[simp] theorem length_pairs : L.pairs.length = L.entries.length := by simp [pairs]

theorem entry_of_le {i : ℕ} (hi : L.entries.length ≤ i) : L.entry i = ⟨0, [], []⟩ :=
  List.getD_eq_default _ _ hi

theorem getElem_pairs {i : ℕ} (hi : i < L.pairs.length) :
    L.pairs[i] = ((L.entry i).key, (L.entry i).value) := by
  have hi' : i < L.entries.length := by simpa using hi
  simp only [pairs, entry, List.getElem_map, List.getD_eq_getElem _ _ hi']

theorem length_data : L.data.length = L.limit + 4 * L.restartIdx.length + 4 := by
  simp [data, blockContents, limit, off, entryOffset_length, List.length_flatMap]
  omega

theorem limit_lt : L.limit < 2 ^ 32 := by
  have := L.size_lt
  rw [← data, length_data] at this
  omega

theorem off_le_limit {i : ℕ} (hi : i ≤ L.entries.length) : L.off i ≤ L.limit := entryOffset_mono hi

theorem off_lt {i : ℕ} (hi : i ≤ L.entries.length) : L.off i < 2 ^ 32 :=
  lt_of_le_of_lt (off_le_limit hi) limit_lt

theorem length_le_limit : L.entries.length ≤ L.limit := by
  have : 3 * L.entries.length ≤ entryOffset L.entries L.entries.length :=
    three_mul_le_entryOffset le_rfl
  simp only [limit, off]
  omega

theorem length_restartIdx_lt : 4 * L.restartIdx.length < 2 ^ 32 := by
  have := L.size_lt
  rw [← data, length_data] at this
  omega

theorem restartIdx_ne_nil : L.restartIdx ≠ [] := by
  intro h
  simpa [h] using L.head_restartIdx

theorem off_succ {i : ℕ} (hi : i < L.entries.length) :
    L.off (i + 1) = L.off i + (L.entry i).encode.length :=
  entryOffset_succ hi

theorem valueStart_add {i : ℕ} (hi : i < L.entries.length) :
    L.valueStart i + (L.entry i).value.length = L.off (i + 1) := by
  rw [off_succ hi, BlockEntry.length_encode, valueStart]
  omega

theorem drop_off {i : ℕ} (hi : i < L.entries.length) :
    ∃ rest, L.data.drop (L.off i) = (L.entry i).encode ++ rest := by
  rw [data, blockContents, List.append_assoc, off, drop_entryOffset hi]
  exact ⟨_, rfl⟩

theorem shared_restart_zero : (L.entry 0).shared = 0 := by
  obtain ⟨rs, hrs⟩ := List.head?_eq_some_iff.mp L.head_restartIdx
  exact L.shared_restart 0 (by simp [hrs])

/-- A key is no longer than the bytes up to the end of its entry: the first
shares nothing, and each later one adds its delta to a prefix of the key
before. -/
theorem key_length_le {i : ℕ} (hi : i < L.entries.length) :
    (L.entry i).key.length ≤ L.off (i + 1) := by
  induction i with
  | zero =>
    have hshared := shared_restart_zero (L := L)
    have hlen := BlockEntry.length_encode (L.entry 0)
    rw [off_succ hi, show L.off 0 = 0 by simp [off, entryOffset]]
    omega
  | succ i ih =>
    obtain ⟨hle, hprev, -⟩ := L.follows i hi
    have hprev_len := ih (by omega)
    have hlen := BlockEntry.length_encode (L.entry (i + 1))
    rw [off_succ hi]
    simp only [entry] at hprev_len hlen ⊢
    omega

theorem key_length_lt {i : ℕ} (hi : i < L.entries.length) : (L.entry i).key.length < 2 ^ 32 :=
  lt_of_le_of_lt (key_length_le hi) (off_lt hi)

theorem value_length_lt {i : ℕ} (hi : i < L.entries.length) : (L.entry i).value.length < 2 ^ 32 := by
  have h1 := valueStart_add hi
  have h2 := off_lt (L := L) (i := i + 1) hi
  omega

theorem toNat_ofNat_of_lt {n : ℕ} (h : n < 2 ^ 32) : (UInt32.ofNat n).toNat = n := by
  rw [UInt32.toNat_ofNat', Nat.mod_eq_of_lt h]

theorem ofNat_le_ofNat_iff {a b : ℕ} (ha : a < 2 ^ 32) (hb : b < 2 ^ 32) :
    UInt32.ofNat a ≤ UInt32.ofNat b ↔ a ≤ b := by
  rw [UInt32.le_iff_toNat_le, toNat_ofNat_of_lt ha, toNat_ofNat_of_lt hb]

theorem ofNat_lt_ofNat_iff {a b : ℕ} (ha : a < 2 ^ 32) (hb : b < 2 ^ 32) :
    UInt32.ofNat a < UInt32.ofNat b ↔ a < b := by
  rw [UInt32.lt_iff_toNat_lt, toNat_ofNat_of_lt ha, toNat_ofNat_of_lt hb]

/-- Entries are ordered as their offsets. -/
theorem off_lt_off_iff {i j : ℕ} (hj : j ≤ L.entries.length) :
    L.off i < L.off j ↔ i < j := by
  constructor
  · intro h
    by_contra hge
    exact absurd h (Nat.not_lt.mpr (entryOffset_mono (Nat.not_lt.mp hge)))
  · exact fun h => entryOffset_lt_entryOffset h hj

/-! ## Reading an entry -/

/-- `DecodeEntry` at entry `i` reads its three lengths. -/
theorem DecodeEntry_off {i : ℕ} (hi : i < L.entries.length) :
    DecodeEntry L.data (L.off i) L.limit =
      some (UInt32.ofNat (L.entry i).shared,
        UInt32.ofNat ((L.entry i).key.length - (L.entry i).shared),
        UInt32.ofNat (L.entry i).value.length, L.off i + (L.entry i).header.length) := by
  obtain ⟨rest, hrest⟩ := drop_off hi
  have hend := valueStart_add hi
  have hlimit := off_le_limit (L := L) (i := i + 1) hi
  have hdrop : L.data.drop (L.off i) = encodeVarint32 (UInt32.ofNat (L.entry i).shared) ++
      encodeVarint32 (UInt32.ofNat ((L.entry i).key.length - (L.entry i).shared)) ++
      encodeVarint32 (UInt32.ofNat (L.entry i).value.length) ++
      ((L.entry i).key.drop (L.entry i).shared ++ (L.entry i).value ++ rest) := by
    rw [hrest]
    simp [BlockEntry.encode, BlockEntry.header]
  exact DecodeEntry_eq hdrop (by simp only [valueStart, BlockEntry.header] at hend; omega)

/-- The key delta of entry `i` follows its header. -/
theorem keyDelta_off {i : ℕ} (hi : i < L.entries.length) :
    (L.data.drop (L.off i + (L.entry i).header.length)).take ((L.entry i).key.length - (L.entry i).shared) =
      (L.entry i).key.drop (L.entry i).shared := by
  obtain ⟨rest, hrest⟩ := drop_off hi
  have hlen : ((L.entry i).key.drop (L.entry i).shared).length =
      (L.entry i).key.length - (L.entry i).shared := by simp
  rw [← List.drop_drop, hrest, BlockEntry.encode, List.append_assoc, List.append_assoc,
    List.drop_left' rfl, List.take_left' hlen]

/-- The value of entry `i` follows its key delta. -/
theorem value_off {i : ℕ} (hi : i < L.entries.length) :
    (L.data.drop (L.valueStart i)).take (L.entry i).value.length = (L.entry i).value := by
  obtain ⟨rest, hrest⟩ := drop_off hi
  have hlen : ((L.entry i).header ++ (L.entry i).key.drop (L.entry i).shared).length =
      (L.entry i).header.length + ((L.entry i).key.length - (L.entry i).shared) := by simp
  have hdrop : L.data.drop (L.valueStart i) = (L.entry i).value ++ rest := by
    rw [valueStart, Nat.add_assoc, ← List.drop_drop, hrest, BlockEntry.encode,
      List.append_assoc (_ ++ _) (L.entry i).value rest, List.drop_left' hlen]
  rw [hdrop, List.take_left' rfl]

/-! ## The restart array -/

theorem restartEntry_zero : L.restartEntry 0 = 0 := by
  obtain ⟨rs, hrs⟩ := List.head?_eq_some_iff.mp L.head_restartIdx
  simp [restartEntry, hrs]

theorem restartEntry_mem {r : ℕ} (hr : r < L.restartIdx.length) : L.restartEntry r ∈ L.restartIdx := by
  rw [restartEntry, List.getD_eq_getElem _ _ hr]
  exact List.getElem_mem hr

theorem shared_restartEntry {r : ℕ} (hr : r < L.restartIdx.length) :
    (L.entry (L.restartEntry r)).shared = 0 :=
  L.shared_restart _ (restartEntry_mem hr)

theorem restartEntry_lt_restartEntry {r s : ℕ} (hrs : r < s) (hs : s < L.restartIdx.length) :
    L.restartEntry r < L.restartEntry s := by
  simp only [restartEntry, List.getD_eq_getElem _ _ hs, List.getD_eq_getElem _ _ (hrs.trans hs)]
  exact List.pairwise_iff_getElem.mp L.sorted_restartIdx r s (hrs.trans hs) hs hrs

theorem restartEntry_lt_length {r : ℕ} (hr : r < L.restartIdx.length) (hn : 0 < L.entries.length) :
    L.restartEntry r < L.entries.length := by
  rcases L.restartIdx_lt _ (restartEntry_mem hr) with h | h <;> omega

/-- Past the first, a restart point is an entry other than the first. -/
theorem restartEntry_pos_lt {r : ℕ} (hpos : 0 < r) (hr : r < L.restartIdx.length) :
    0 < L.restartEntry r ∧ L.restartEntry r < L.entries.length := by
  have hgt := restartEntry_lt_restartEntry hpos hr
  rw [restartEntry_zero] at hgt
  rcases L.restartIdx_lt _ (restartEntry_mem hr) with h | h <;> omega

theorem restartEntry_le_length {r : ℕ} (hr : r < L.restartIdx.length) :
    L.restartEntry r ≤ L.entries.length := by
  rcases L.restartIdx_lt _ (restartEntry_mem hr) with h | h <;> omega

/-- Word `r` of an array of fixed32 words. -/
theorem drop_flatMap_encodeFixed32 (f : ℕ → UInt32) (tail : Bytes) :
    ∀ (l : List ℕ) (r : ℕ), r < l.length →
      ∃ rest, ((l.flatMap fun x => encodeFixed32 (f x)) ++ tail).drop (r * 4) =
        encodeFixed32 (f (l.getD r 0)) ++ rest := by
  intro l
  induction l with
  | nil => intro r hr; simp at hr
  | cons x l ih =>
    intro r hr
    cases r with
    | zero => exact ⟨(l.flatMap fun x => encodeFixed32 (f x)) ++ tail, by simp⟩
    | succ r =>
      obtain ⟨rest, hrest⟩ := ih r (by simpa using hr)
      refine ⟨rest, ?_⟩
      rw [List.flatMap_cons, List.append_assoc, Nat.succ_mul, Nat.add_comm, ← List.drop_drop,
        List.drop_left' (length_encodeFixed32 _), hrest, List.getD_cons_succ]

/-- `GetRestartPoint(r)` reads the offset of restart entry `r`. -/
theorem restartPoint_eq {r : ℕ} (hr : r < L.restartIdx.length) :
    decodeFixed32 (L.data.drop (L.limit + r * 4)) = UInt32.ofNat (L.off (L.restartEntry r)) := by
  obtain ⟨rest, hrest⟩ := drop_flatMap_encodeFixed32 (fun x => UInt32.ofNat (entryOffset L.entries x))
    (encodeFixed32 (UInt32.ofNat L.restartIdx.length)) L.restartIdx r hr
  rw [← List.drop_drop, data, blockContents, List.append_assoc, limit, off, entryOffset_length,
    List.drop_left' rfl, hrest, decodeFixed32_encodeFixed32]
  rfl

/-! ## The footer -/

/-- A footer with the top bit clear is a binary-search block with that many
restarts. -/
theorem UnPackIndexTypeAndNumRestarts_of_lt {footer : UInt32} (h : footer.toNat < 2 ^ 31) :
    UnPackIndexTypeAndNumRestarts footer = (.kDataBlockBinarySearch, footer) := by
  have hbit : ((1 : UInt32) <<< kDataBlockIndexTypeBitShift).toNat = 2 ^ 31 := by decide
  have hmask : kNumRestartsMask.toNat = 2 ^ 31 - 1 := by decide
  have htop : footer &&& (1 <<< kDataBlockIndexTypeBitShift) = 0 := by
    apply UInt32.toNat_inj.mp
    rw [UInt32.toNat_and, hbit, Nat.and_two_pow, Nat.testBit_lt_two_pow h]
    rfl
  have hlow : footer &&& kNumRestartsMask = footer := by
    apply UInt32.toNat_inj.mp
    rw [UInt32.toNat_and, hmask, Nat.and_two_pow_sub_one_eq_mod, Nat.mod_eq_of_lt h]
  simp [UnPackIndexTypeAndNumRestarts, htop, hlow]

theorem blockFooter_data :
    Block.blockFooter L.data L.data.length = UInt32.ofNat L.restartIdx.length := by
  have hsplit : L.data = (L.entries.flatMap BlockEntry.encode ++
      L.restartIdx.flatMap fun r => encodeFixed32 (UInt32.ofNat (entryOffset L.entries r))) ++
      encodeFixed32 (UInt32.ofNat L.restartIdx.length) := rfl
  have hlen : (L.entries.flatMap BlockEntry.encode ++
      L.restartIdx.flatMap fun r => encodeFixed32 (UInt32.ofNat (entryOffset L.entries r))).length =
      L.data.length - 4 := by
    rw [hsplit]
    simp only [List.length_append, length_encodeFixed32]
    omega
  have hdrop : L.data.drop (L.data.length - 4) = encodeFixed32 (UInt32.ofNat L.restartIdx.length) := by
    rw [← hlen]
    conv_lhs => arg 2; rw [hsplit]
    exact List.drop_left' rfl
  rw [Block.blockFooter, hdrop, ← List.append_nil (encodeFixed32 _), decodeFixed32_encodeFixed32]

/-- `Block::Block` on the block finds the restart array where the entries end. -/
theorem make_data :
    Block.make L.data = ⟨L.data, L.data.length, UInt32.ofNat L.limit, UInt32.ofNat L.restartIdx.length⟩ := by
  have hlen := length_data (L := L)
  have hsize := L.size_lt
  rw [← data] at hsize
  have hnum : (UInt32.ofNat L.restartIdx.length).toNat = L.restartIdx.length :=
    toNat_ofNat_of_lt (by omega)
  have hnum31 : (UInt32.ofNat L.restartIdx.length).toNat < 2 ^ 31 := by omega
  have hunpack := UnPackIndexTypeAndNumRestarts_of_lt hnum31
  have hcount : Block.NumRestarts L.data L.data.length = UInt32.ofNat L.restartIdx.length := by
    unfold Block.NumRestarts
    split <;> simp [blockFooter_data, hunpack]
  have htype : Block.IndexType L.data L.data.length = .kDataBlockBinarySearch := by
    unfold Block.IndexType
    split <;> simp [blockFooter_data, hunpack]
  -- the offset `size - (1 + num_restarts) * 4`, computed in `uint32_t`, does not wrap
  have hoffset : UInt32.ofNat L.data.length - (1 + UInt32.ofNat L.restartIdx.length) * 4 =
      UInt32.ofNat L.limit := by
    have hsum : UInt32.ofNat L.data.length =
        UInt32.ofNat L.limit + (1 + UInt32.ofNat L.restartIdx.length) * 4 := by
      rw [hlen]
      apply UInt32.toNat_inj.mp
      simp only [UInt32.toNat_add, UInt32.toNat_mul, UInt32.toNat_ofNat', UInt32.reduceToNat]
      omega
    rw [hsum, add_sub_cancel_right]
  have hfit : ¬(UInt32.ofNat L.limit).toNat > L.data.length - 4 := by
    rw [toNat_ofNat_of_lt limit_lt]
    omega
  unfold Block.make
  rw [if_neg (by omega)]
  simp only [hcount, htype, hoffset, if_neg hfit]

end BlockLayout

end HapDB
