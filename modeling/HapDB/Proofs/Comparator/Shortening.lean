import HapDB.Util.Comparator
import HapDB.Proofs.DbFormat.InternalKey

/-!
# The key-shortening hooks stay within their bounds

Every hook returns its input or a string that agrees with it up to the first
byte where the hook changes it, and the comparison is decided there:

* `bytewiseCompare_append_left`: a common prefix does not change the order;
* `exists_of_differenceOffset_lt`: below the shorter length, two strings are a
  common prefix followed by two different bytes;
* `incrementFirstFrom_eq`: the increment loop keeps a prefix and replaces the
  rest by a string that is no longer and not below it.

From these, `BytewiseComparatorImpl.findShortestSeparator_between` and
`ReverseBytewiseComparatorImpl.findShortestSeparator_between` place the
separator in `[start, limit)` of their orders, and
`isSameLengthImmediateSuccessor_iff` reads the successor test as adding one to
a base-256 number (`bigEndian`).  `InternalKeyComparator`'s hooks need of the
user comparator only `UserComparator.SeparatorLaw`, which both comparators
satisfy.
-/

namespace HapDB

/-! ## The bytewise order past a common prefix -/

instance : Std.LawfulEqCmp bytewiseCompare := bytewiseCompare_eq_compareLex ▸ inferInstance

@[simp] theorem bytewiseCompare_cons_self (x : UInt8) (a b : Bytes) :
    bytewiseCompare (x :: a) (x :: b) = bytewiseCompare a b := by
  simp [bytewiseCompare]

@[simp] theorem bytewiseCompare_cons_nil (x : UInt8) (a : Bytes) :
    bytewiseCompare (x :: a) [] = .gt := rfl

/-- A common prefix does not change the comparison. -/
@[simp] theorem bytewiseCompare_append_left (p a b : Bytes) :
    bytewiseCompare (p ++ a) (p ++ b) = bytewiseCompare a b := by
  induction p with
  | nil => rfl
  | cons x p ih => simpa using ih

theorem bytewiseCompare_cons_of_lt {x y : UInt8} (h : x < y) (a b : Bytes) :
    bytewiseCompare (x :: a) (y :: b) = .lt := by
  simp [bytewiseCompare, Std.compare_eq_lt.mpr h]

theorem bytewiseCompare_cons_of_gt {x y : UInt8} (h : y < x) (a b : Bytes) :
    bytewiseCompare (x :: a) (y :: b) = .gt := by
  simp [bytewiseCompare, Std.compare_eq_gt.mpr h]

/-! ## The common prefix -/

theorem differenceOffset_le (s t : Bytes) : differenceOffset s t ≤ min s.length t.length := by
  induction s generalizing t with
  | nil => simp [differenceOffset]
  | cons a s ih =>
    cases t with
    | nil => simp [differenceOffset]
    | cons b t =>
      have := ih t
      by_cases hab : a = b
      · simp [differenceOffset, hab]
        omega
      · simp [differenceOffset, hab]

/-- Below the shorter length, two strings are a common prefix followed by two
different bytes. -/
theorem exists_of_differenceOffset_lt {s t : Bytes}
    (h : differenceOffset s t < min s.length t.length) :
    ∃ p x s' y t', s = p ++ x :: s' ∧ t = p ++ y :: t' ∧ x ≠ y ∧
      p.length = differenceOffset s t := by
  induction s generalizing t with
  | nil => simp at h
  | cons a s ih =>
    cases t with
    | nil => simp at h
    | cons b t =>
      by_cases hab : a = b
      · subst hab
        simp only [differenceOffset, ↓reduceIte, List.length_cons] at h ⊢
        obtain ⟨p, x, s', y, t', rfl, rfl, hxy, hp⟩ := @ih t (by omega)
        exact ⟨a :: p, x, s', y, t', rfl, rfl, hxy, by simp [hp]⟩
      · exact ⟨[], a, s, b, t, rfl, rfl, hab, by simp [differenceOffset, hab]⟩

/-- Strings of one length that agree on all of it are equal. -/
theorem eq_of_length_le_differenceOffset {s t : Bytes} (hlen : s.length = t.length)
    (h : s.length ≤ differenceOffset s t) : s = t := by
  induction s generalizing t with
  | nil => cases t <;> simp_all
  | cons a s ih =>
    cases t with
    | nil => simp at hlen
    | cons b t =>
      by_cases hab : a = b
      · subst hab
        simp only [differenceOffset, ↓reduceIte, List.length_cons] at h hlen
        rw [@ih t (by omega) (by omega)]
      · simp [differenceOffset, hab] at h

/-- Two strings agree on their common prefix. -/
theorem take_differenceOffset (s t : Bytes) :
    s.take (differenceOffset s t) = t.take (differenceOffset s t) := by
  induction s generalizing t with
  | nil => simp [differenceOffset]
  | cons a s ih =>
    cases t with
    | nil => simp [differenceOffset]
    | cons b t =>
      by_cases hab : a = b
      · simp [differenceOffset, hab, ih t]
      · simp [differenceOffset, hab]

theorem differenceOffset_self (s : Bytes) : differenceOffset s s = s.length := by
  induction s with
  | nil => rfl
  | cons x s ih => simp [differenceOffset, ih]

@[simp] theorem getElem!_append_length (p s : Bytes) (x : UInt8) :
    (p ++ x :: s)[p.length]! = x := by
  simp

/-! ## The increment loop -/

/-- A byte below `0xff` grows by one without wrapping around. -/
theorem toNat_add_one_of_lt {x : UInt8} (h : x < 0xff) : (x + 1).toNat = x.toNat + 1 := by
  have hx := UInt8.lt_iff_toNat_lt.mp h
  simp only [UInt8.toNat_add, UInt8.reduceToNat] at hx ⊢
  omega

theorem lt_add_one_of_lt {x : UInt8} (h : x < 0xff) : x < x + 1 := by
  rw [UInt8.lt_iff_toNat_lt, toNat_add_one_of_lt h]
  omega

/-- Setting the byte at `i` and cutting the string after it. -/
theorem take_add_one_set {l : Bytes} {i : ℕ} (h : i < l.length) (v : UInt8) :
    (l.set i v).take (i + 1) = l.take i ++ [v] := by
  simp [List.take_add_one, List.take_set, h, List.set_eq_of_length_le]

/-- The loop keeps the first `i` bytes and replaces the rest by a string that
is no longer and not below it. -/
theorem incrementFirstFrom_eq (key : Bytes) (i : ℕ) :
    ∃ r, incrementFirstFrom key i = key.take i ++ r ∧
      bytewiseCompare (key.drop i) r ≠ .gt ∧ r.length ≤ (key.drop i).length := by
  fun_induction incrementFirstFrom key i with
  | case1 i h hlt =>
    -- the byte at `i` is below `0xff`: it grows by one and the rest is cut
    refine ⟨[key[i] + 1], take_add_one_set h _, ?_, ?_⟩
    · rw [List.drop_eq_getElem_cons h, bytewiseCompare_cons_of_lt (lt_add_one_of_lt hlt)]
      simp
    · simp
      omega
  | case2 i h hge ih =>
    -- a byte `0xff` is kept and the loop goes on
    obtain ⟨r, hr, hcmp, hlen⟩ := ih
    refine ⟨key[i] :: r, ?_, ?_, ?_⟩
    · rw [hr, List.take_add_one, List.getElem?_eq_getElem h, Option.toList_some,
        List.append_assoc, List.singleton_append]
    · rwa [List.drop_eq_getElem_cons h, bytewiseCompare_cons_self]
    · simp only [List.drop_eq_getElem_cons h, List.length_cons, List.length_drop] at hlen ⊢
      omega
  | case3 i h =>
    refine ⟨[], ?_, ?_, ?_⟩
    · rw [List.take_of_length_le (by omega), List.append_nil]
    · rw [List.drop_of_length_le (by omega)]
      simp [Std.ReflCmp.compare_self]
    · simp

/-! ## `BytewiseComparatorImpl` -/

/-- A one-byte string is below `y :: l` when its byte is below `y`, or equals
it and `l` goes on. -/
theorem bytewiseCompare_singleton_lt {v y : UInt8} {l : Bytes} (h : v < y ∨ v = y ∧ l ≠ []) :
    bytewiseCompare [v] (y :: l) = .lt := by
  rcases h with h | ⟨rfl, hl⟩
  · exact bytewiseCompare_cons_of_lt h _ _
  · cases l with
    | nil => exact absurd rfl hl
    | cons z l =>
      rw [bytewiseCompare_cons_self]
      rfl

theorem lt_ff_of_lt {x y : UInt8} (h : x < y) : x < 0xff := by
  have hxy := UInt8.lt_iff_toNat_lt.mp h
  have hy := y.toNat_lt
  simp only [UInt8.lt_iff_toNat_lt, UInt8.reduceToNat]
  omega

namespace BytewiseComparatorImpl

/-- `FindShortSuccessor` returns a key that is not below `key` and no longer. -/
theorem findShortSuccessor_ge (key : Bytes) :
    bytewiseCompare key (findShortSuccessor key) ≠ .gt ∧
      (findShortSuccessor key).length ≤ key.length := by
  obtain ⟨r, hr, hcmp, hlen⟩ := incrementFirstFrom_eq key 0
  rw [findShortSuccessor, hr, List.take_zero, List.nil_append]
  rw [List.drop_zero] at hcmp hlen
  exact ⟨hcmp, hlen⟩

/-- `FindShortestSeparator` returns a string in `[start, limit)` that is no
longer than `start`. -/
theorem findShortestSeparator_between {start limit : Bytes}
    (h : bytewiseCompare start limit = .lt) :
    bytewiseCompare start (findShortestSeparator start limit) ≠ .gt ∧
      bytewiseCompare (findShortestSeparator start limit) limit = .lt ∧
      (findShortestSeparator start limit).length ≤ start.length := by
  -- `start` itself lies in the bounds: the branches that keep it are done
  have hkeep : bytewiseCompare start start ≠ .gt ∧ bytewiseCompare start limit = .lt ∧
      start.length ≤ start.length := ⟨by simp [Std.ReflCmp.compare_self], h, le_rfl⟩
  simp only [findShortestSeparator]
  by_cases hmin : differenceOffset start limit ≥ min start.length limit.length
  · rw [if_pos hmin]
    exact hkeep
  obtain ⟨p, x, s', y, l', rfl, rfl, -, hp⟩ := exists_of_differenceOffset_lt (not_le.mp hmin)
  rw [if_neg hmin, ← hp, getElem!_append_length, getElem!_append_length]
  by_cases hge : x ≥ y
  · rw [if_pos hge]
    exact hkeep
  have hlt : x < y := UInt8.not_le.mp hge
  have hx := toNat_add_one_of_lt (lt_ff_of_lt hlt)
  have hxy := UInt8.lt_iff_toNat_lt.mp hlt
  rw [if_neg hge]
  split_ifs with hcut
  · -- the first differing byte grows by one and the rest is cut
    rw [take_add_one_set (by simp), List.take_left' rfl]
    refine ⟨?_, ?_, by simp⟩
    · rw [bytewiseCompare_append_left, bytewiseCompare_cons_of_lt (lt_add_one_of_lt (lt_ff_of_lt hlt))]
      simp
    · rw [bytewiseCompare_append_left]
      apply bytewiseCompare_singleton_lt
      -- below `y`, or `y` itself with `limit` going on past it
      by_cases hlt1 : x.toNat + 1 < y.toNat
      · exact .inl (UInt8.lt_iff_toNat_lt.mpr (by omega))
      · refine .inr ⟨UInt8.toNat_inj.mp (by omega), ?_⟩
        rintro rfl
        simp at hcut
        omega
  · -- growing it would reach `limit`, which ends there: the rest grows instead
    have hl' : l' = [] := by
      simp only [List.length_append, List.length_cons, not_or, not_lt] at hcut
      exact List.eq_nil_of_length_eq_zero (by omega)
    subst hl'
    obtain ⟨r, hr, hcmp, hlen⟩ := incrementFirstFrom_eq (p ++ x :: s') (p.length + 1)
    have htake : (p ++ x :: s').take (p.length + 1) = p ++ [x] := by
      rw [List.take_append]
      simp
    have hdrop : (p ++ x :: s').drop (p.length + 1) = s' := by
      rw [List.drop_append]
      simp
    rw [hr, htake, List.append_assoc, List.singleton_append]
    rw [hdrop] at hcmp hlen
    refine ⟨?_, ?_, ?_⟩
    · rwa [bytewiseCompare_append_left, bytewiseCompare_cons_self]
    · rw [bytewiseCompare_append_left]
      exact bytewiseCompare_cons_of_lt hlt _ _
    · simp only [List.length_append, List.length_cons]
      omega

end BytewiseComparatorImpl

/-! ## `ReverseBytewiseComparatorImpl` -/

@[simp] theorem reverseBytewiseCompare_eq_lt {a b : Bytes} :
    reverseBytewiseCompare a b = .lt ↔ bytewiseCompare a b = .gt := by
  simp [reverseBytewiseCompare]

@[simp] theorem reverseBytewiseCompare_eq_gt {a b : Bytes} :
    reverseBytewiseCompare a b = .gt ↔ bytewiseCompare a b = .lt := by
  simp [reverseBytewiseCompare]

namespace ReverseBytewiseComparatorImpl

/-- `FindShortestSeparator` returns a string in `[start, limit)` of the
reversed order that is no longer than `start`. -/
theorem findShortestSeparator_between {start limit : Bytes}
    (h : reverseBytewiseCompare start limit = .lt) :
    reverseBytewiseCompare start (findShortestSeparator start limit) ≠ .gt ∧
      reverseBytewiseCompare (findShortestSeparator start limit) limit = .lt ∧
      (findShortestSeparator start limit).length ≤ start.length := by
  -- `start` itself lies in the bounds: the branches that keep it are done
  have hkeep : reverseBytewiseCompare start start ≠ .gt ∧
      reverseBytewiseCompare start limit = .lt ∧ start.length ≤ start.length :=
    ⟨by simp [Std.ReflCmp.compare_self], h, le_rfl⟩
  simp only [findShortestSeparator]
  by_cases hmin : differenceOffset start limit = min start.length limit.length
  · rw [if_pos hmin]
    exact hkeep
  obtain ⟨p, x, s', y, l', rfl, rfl, -, hp⟩ :=
    exists_of_differenceOffset_lt (lt_of_le_of_ne (differenceOffset_le _ _) hmin)
  rw [if_neg hmin, ← hp, getElem!_append_length, getElem!_append_length]
  split_ifs with hcut
  · -- cut after the first differing byte, which is larger than `limit`'s
    obtain ⟨hgt, hlen⟩ := hcut
    obtain ⟨z, l, rfl⟩ : ∃ z l, s' = z :: l :=
      List.exists_cons_of_ne_nil (by rintro rfl; simp at hlen)
    have htake : (p ++ x :: z :: l).take (p.length + 1) = p ++ [x] := by
      rw [List.take_append]
      simp
    rw [htake]
    refine ⟨?_, ?_, by simp⟩
    · simp
    · rw [reverseBytewiseCompare_eq_lt, bytewiseCompare_append_left]
      exact bytewiseCompare_cons_of_gt hgt _ _
  · exact hkeep

end ReverseBytewiseComparatorImpl

/-! ## The successor test as base-256 arithmetic -/

/-- The number a byte string denotes, most significant byte first. -/
def bigEndian (s : Bytes) : ℕ := Nat.ofDigits 256 (s.reverse.map UInt8.toNat)

theorem bigEndian_append (a b : Bytes) :
    bigEndian (a ++ b) = bigEndian a * 256 ^ b.length + bigEndian b := by
  simp only [bigEndian, List.reverse_append, List.map_append, Nat.ofDigits_append,
    List.length_map, List.length_reverse]
  ring

theorem bigEndian_cons (x : UInt8) (s : Bytes) :
    bigEndian (x :: s) = x.toNat * 256 ^ s.length + bigEndian s := by
  simpa [bigEndian] using bigEndian_append [x] s

theorem bigEndian_lt (s : Bytes) : bigEndian s < 256 ^ s.length := by
  have h := Nat.ofDigits_lt_base_pow_length (b := 256) (l := s.reverse.map UInt8.toNat)
    (by norm_num) (by simp only [List.mem_map]; rintro _ ⟨x, -, rfl⟩; exact x.toNat_lt)
  simpa [bigEndian] using h

/-- At one length, a byte string is determined by its number. -/
theorem bigEndian_inj {a b : Bytes} (hlen : a.length = b.length)
    (h : bigEndian a = bigEndian b) : a = b := by
  have hdigit : ∀ s : Bytes, ∀ d ∈ s.reverse.map UInt8.toNat, d < 256 := by
    intro s d hd
    simp only [List.mem_map] at hd
    obtain ⟨x, -, rfl⟩ := hd
    exact x.toNat_lt
  have hdigits := Nat.ofDigits_inj_of_len_eq (by norm_num) (by simp [hlen])
    (hdigit a) (hdigit b) h
  exact List.reverse_injective (List.map_injective_iff.mpr (fun _ _ h => UInt8.toNat_inj.mp h) hdigits)

theorem bigEndian_replicate_ff (k : ℕ) : bigEndian (List.replicate k 0xff) = 256 ^ k - 1 := by
  induction k with
  | zero => rfl
  | succ k ih =>
    have hpos := Nat.one_le_two_pow (n := 8 * k)
    rw [List.replicate_succ, bigEndian_cons, ih, List.length_replicate, pow_succ,
      show (256 : ℕ) ^ k = 2 ^ (8 * k) by rw [pow_mul]; rfl]
    simp only [UInt8.reduceToNat]
    omega

theorem bigEndian_replicate_zero (k : ℕ) : bigEndian (List.replicate k 0) = 0 := by
  induction k with
  | zero => rfl
  | succ k ih => rw [List.replicate_succ, bigEndian_cons, ih]; simp

/-- The largest number of its length: all bytes `0xff`. -/
theorem bigEndian_eq_max_iff (s : Bytes) :
    bigEndian s = 256 ^ s.length - 1 ↔ ∀ b ∈ s, b = 0xff := by
  have hrep : (∀ b ∈ s, b = 0xff) ↔ s = List.replicate s.length 0xff := by
    simp [List.eq_replicate_iff]
  rw [hrep]
  constructor
  · intro h
    exact bigEndian_inj (by simp) (by rw [h, bigEndian_replicate_ff])
  · intro h
    rw [h, bigEndian_replicate_ff, List.length_replicate]

/-- Zero: all bytes `0x00`. -/
theorem bigEndian_eq_zero_iff (s : Bytes) : bigEndian s = 0 ↔ ∀ b ∈ s, b = 0 := by
  have hrep : (∀ b ∈ s, b = 0) ↔ s = List.replicate s.length 0 := by
    simp [List.eq_replicate_iff]
  rw [hrep]
  constructor
  · intro h
    exact bigEndian_inj (by simp) (by rw [h, bigEndian_replicate_zero])
  · intro h
    rw [h, bigEndian_replicate_zero]

/-- Adding one to the digit `x` followed by a tail `S` below `P`: the digit
grows by one and the tail goes from `P - 1` to `0`. -/
theorem mul_add_eq_add_one_iff {x y P S T : ℕ} (hxy : x ≠ y) (hS : S < P) (hT : T < P) :
    y * P + T = x * P + S + 1 ↔ y = x + 1 ∧ S = P - 1 ∧ T = 0 := by
  constructor
  · intro h
    rcases Nat.lt_or_gt_of_ne hxy with hlt | hgt
    · -- `y = x + 1`: from `y ≥ x + 2` the left side would overshoot
      have hy : y = x + 1 := by
        by_contra hne
        have h2 := Nat.mul_le_mul_right P (show x + 2 ≤ y by omega)
        rw [add_mul] at h2
        omega
      subst hy
      rw [add_mul, one_mul] at h
      omega
    · -- from `y < x` the left side falls short
      have h1 := Nat.mul_le_mul_right P (show y + 1 ≤ x from hgt)
      rw [add_mul, one_mul] at h1
      omega
  · rintro ⟨rfl, rfl, rfl⟩
    rw [add_mul, one_mul]
    omega

/-- The tail test of `IsSameLengthImmediateSuccessor`. -/
theorem all_zip_ff_zero_iff {a b : Bytes} (hlen : a.length = b.length) :
    ((a.zip b).all fun p => p.1 == 0xff && p.2 == 0x00) = true ↔
      (∀ c ∈ a, c = 0xff) ∧ ∀ c ∈ b, c = 0x00 := by
  induction a generalizing b with
  | nil => cases b <;> simp_all
  | cons x a ih =>
    cases b with
    | nil => simp at hlen
    | cons y b =>
      simp only [List.length_cons, Nat.add_right_cancel_iff] at hlen
      simp only [List.zip_cons_cons, List.all_cons, Bool.and_eq_true, beq_iff_eq, ih hlen,
        List.forall_mem_cons]
      tauto

namespace BytewiseComparatorImpl

/-- `IsSameLengthImmediateSuccessor(s, t)` holds exactly when `t` is `s` plus
one, as numbers of the same nonzero length. -/
theorem isSameLengthImmediateSuccessor_iff (s t : Bytes) :
    isSameLengthImmediateSuccessor s t = true ↔
      s.length = t.length ∧ 0 < s.length ∧ bigEndian t = bigEndian s + 1 := by
  simp only [isSameLengthImmediateSuccessor]
  by_cases hbad : s.length ≠ t.length ∨ s.length = 0
  · rw [if_pos hbad]
    simp only [Bool.false_eq_true, false_iff]
    omega
  rw [if_neg hbad]
  have hlen : s.length = t.length := by omega
  by_cases hsame : differenceOffset s t ≥ s.length
  · -- equal strings, and no number is its own successor
    rw [if_pos hsame, eq_of_length_le_differenceOffset hlen hsame]
    simp
  have hdiff : differenceOffset s t < min s.length t.length := by omega
  obtain ⟨p, x, s', y, t', rfl, rfl, hxy, hp⟩ := exists_of_differenceOffset_lt hdiff
  have hk : s'.length = t'.length := by simpa using hlen
  have hpos : 0 < (p ++ x :: s').length := by simp
  have hdrop : ∀ (z : UInt8) (r : Bytes), (p ++ z :: r).drop (p.length + 1) = r := by
    intro z r
    rw [List.drop_append]
    simp
  -- the numbers differ by one exactly when the digit and the tails do
  have hnum : bigEndian (p ++ y :: t') = bigEndian (p ++ x :: s') + 1 ↔
      y.toNat * 256 ^ s'.length + bigEndian t' =
        x.toNat * 256 ^ s'.length + bigEndian s' + 1 := by
    simp only [bigEndian_append, bigEndian_cons, List.length_cons, hk]
    omega
  rw [if_neg hsame, ← hp, getElem!_append_length, getElem!_append_length, hdrop, hdrop, hnum,
    mul_add_eq_add_one_iff (UInt8.toNat_inj.not.mpr hxy) (bigEndian_lt s')
      (hk ▸ bigEndian_lt t')]
  rw [and_iff_right hlen, and_iff_right hpos]
  split_ifs with hbyte
  · rw [all_zip_ff_zero_iff hk, ← bigEndian_eq_max_iff, ← bigEndian_eq_zero_iff, hk]
    exact ⟨fun h => ⟨hbyte.2.symm, h⟩, fun h => h.2⟩
  · simp only [false_iff, not_and]
    intro hy1 _ _
    have hy := y.toNat_lt
    refine hbyte ⟨fun hff => ?_, hy1.symm⟩
    rw [hff] at hy1
    simp only [UInt8.reduceToNat] at hy1
    omega

end BytewiseComparatorImpl

theorem BytewiseComparatorImpl.findShortestSeparator_self (s : Bytes) :
    BytewiseComparatorImpl.findShortestSeparator s s = s := by
  simp [BytewiseComparatorImpl.findShortestSeparator, differenceOffset_self]

theorem ReverseBytewiseComparatorImpl.findShortestSeparator_self (s : Bytes) :
    ReverseBytewiseComparatorImpl.findShortestSeparator s s = s := by
  simp [ReverseBytewiseComparatorImpl.findShortestSeparator, differenceOffset_self]

/-! ## `InternalKeyComparator` -/

/-- What `InternalKeyComparator`'s hooks need of a user comparator: its order
is reflexive, and a separator above `start` stays below `limit` whenever
`start` is not above `limit`. -/
structure UserComparator.SeparatorLaw (u : UserComparator) : Prop where
  compare_self : ∀ a, u.compare a a = .eq
  separator_lt : ∀ start limit, u.compare start limit ≠ .gt →
    u.compare start (u.findShortestSeparator start limit) = .lt →
    u.compare (u.findShortestSeparator start limit) limit = .lt

theorem separatorLaw_bytewiseComparator : BytewiseComparator.SeparatorLaw where
  compare_self _ := show bytewiseCompare _ _ = .eq from Std.ReflCmp.compare_self
  separator_lt start limit hle hlt := by
    change bytewiseCompare _ _ = .lt
    change bytewiseCompare start limit ≠ .gt at hle
    change bytewiseCompare start (BytewiseComparatorImpl.findShortestSeparator start limit) = .lt
      at hlt
    cases hcmp : bytewiseCompare start limit with
    | lt => exact (BytewiseComparatorImpl.findShortestSeparator_between hcmp).2.1
    | eq =>
      -- equal keys are kept, and a key is not above itself
      rw [Std.LawfulEqCmp.eq_of_compare hcmp,
        BytewiseComparatorImpl.findShortestSeparator_self] at hlt
      simp [Std.ReflCmp.compare_self] at hlt
    | gt => exact absurd hcmp hle

theorem separatorLaw_reverseBytewiseComparator : ReverseBytewiseComparator.SeparatorLaw where
  compare_self _ := by simp [ReverseBytewiseComparator, reverseBytewiseCompare, Std.ReflCmp.compare_self]
  separator_lt start limit hle hlt := by
    change reverseBytewiseCompare _ _ = .lt
    change reverseBytewiseCompare start limit ≠ .gt at hle
    change reverseBytewiseCompare start
      (ReverseBytewiseComparatorImpl.findShortestSeparator start limit) = .lt at hlt
    cases hcmp : bytewiseCompare start limit with
    | lt => exact absurd (reverseBytewiseCompare_eq_gt.mpr hcmp) hle
    | eq =>
      -- equal keys are kept, and a key is not above itself
      rw [Std.LawfulEqCmp.eq_of_compare hcmp,
        ReverseBytewiseComparatorImpl.findShortestSeparator_self] at hlt
      simp [Std.ReflCmp.compare_self] at hlt
    | gt =>
      exact (ReverseBytewiseComparatorImpl.findShortestSeparator_between
        (reverseBytewiseCompare_eq_lt.mpr hcmp)).2.1

theorem internalKeyCompare_self {ucmp : Comparator} (h : ∀ a, ucmp a a = .eq) (k : InternalKey) :
    internalKeyCompare ucmp k k = .eq := by
  simp [internalKeyCompare, h]

/-- Internal keys whose user keys differ compare as their user keys. -/
theorem internalKeyCompare_of_lt {ucmp : Comparator} {a b : InternalKey}
    (h : ucmp a.userKey b.userKey = .lt) : internalKeyCompare ucmp a b = .lt := by
  simp [internalKeyCompare, h]

theorem userKey_ne_gt_of_internalKeyCompare {ucmp : Comparator} {a b : InternalKey}
    (h : internalKeyCompare ucmp a b ≠ .gt) : ucmp a.userKey b.userKey ≠ .gt := by
  intro hgt
  simp [internalKeyCompare, hgt] at h

@[simp] theorem userKey_append_encodeFixed64 (tmp : Bytes) (footer : UInt64) :
    InternalKey.userKey ⟨tmp ++ encodeFixed64 footer⟩ = tmp := by
  simp [InternalKey.userKey]

namespace InternalKeyComparator

/-- The hooks return the key itself, or a key whose user key is the shortened
one and compares above the old. -/
theorem replaceUserKey_cases (ucmp : UserComparator) (key : InternalKey) (tmp : Bytes) :
    replaceUserKey ucmp key tmp = key ∨
      ucmp.compare key.userKey tmp = .lt ∧ (replaceUserKey ucmp key tmp).userKey = tmp := by
  unfold replaceUserKey
  split_ifs with h
  · exact .inr ⟨h.2, userKey_append_encodeFixed64 _ _⟩
  · exact .inl rfl

theorem replaceUserKey_ge {ucmp : UserComparator} (hrefl : ∀ a, ucmp.compare a a = .eq)
    (key : InternalKey) (tmp : Bytes) :
    internalKeyCompare ucmp.compare key (replaceUserKey ucmp key tmp) ≠ .gt := by
  rcases replaceUserKey_cases ucmp key tmp with h | ⟨hlt, hkey⟩
  · rw [h, internalKeyCompare_self hrefl]
    decide
  · rw [internalKeyCompare_of_lt (by rw [hkey]; exact hlt)]
    decide

/-- `FindShortSuccessor` returns a key that is not below `key`, whatever the
user comparator's own hook does. -/
theorem findShortSuccessor_ge {ucmp : UserComparator} (hrefl : ∀ a, ucmp.compare a a = .eq)
    (key : InternalKey) :
    internalKeyCompare ucmp.compare key (findShortSuccessor ucmp key) ≠ .gt :=
  replaceUserKey_ge hrefl key _

/-- `FindShortestSeparator` returns a key in `[start, limit)` of the
internal-key order. -/
theorem findShortestSeparator_between {ucmp : UserComparator} (hu : ucmp.SeparatorLaw)
    {start limit : InternalKey} (h : internalKeyCompare ucmp.compare start limit = .lt) :
    internalKeyCompare ucmp.compare start (findShortestSeparator ucmp start limit) ≠ .gt ∧
      internalKeyCompare ucmp.compare (findShortestSeparator ucmp start limit) limit = .lt := by
  refine ⟨replaceUserKey_ge hu.compare_self start _, ?_⟩
  rcases replaceUserKey_cases ucmp start
      (ucmp.findShortestSeparator start.userKey limit.userKey) with hkeep | ⟨hlt, hkey⟩
  · rw [findShortestSeparator, hkeep]
    exact h
  · -- the user key grew, and stays below `limit`'s: the footer plays no part
    apply internalKeyCompare_of_lt
    rw [findShortestSeparator, hkey]
    exact hu.separator_lt _ _ (userKey_ne_gt_of_internalKeyCompare (by rw [h]; decide)) hlt

end InternalKeyComparator

/-! ## The hooks of both comparators -/

theorem comparator_hooks_stay_within_bounds :
    (∀ start limit : Bytes, bytewiseCompare start limit = .lt →
      bytewiseCompare start (BytewiseComparatorImpl.findShortestSeparator start limit) ≠ .gt ∧
      bytewiseCompare (BytewiseComparatorImpl.findShortestSeparator start limit) limit = .lt ∧
      (BytewiseComparatorImpl.findShortestSeparator start limit).length ≤ start.length) ∧
    (∀ key : Bytes,
      bytewiseCompare key (BytewiseComparatorImpl.findShortSuccessor key) ≠ .gt ∧
      (BytewiseComparatorImpl.findShortSuccessor key).length ≤ key.length) ∧
    (∀ start limit : Bytes, reverseBytewiseCompare start limit = .lt →
      reverseBytewiseCompare start
        (ReverseBytewiseComparatorImpl.findShortestSeparator start limit) ≠ .gt ∧
      reverseBytewiseCompare
        (ReverseBytewiseComparatorImpl.findShortestSeparator start limit) limit = .lt ∧
      (ReverseBytewiseComparatorImpl.findShortestSeparator start limit).length ≤ start.length) ∧
    (∀ s t : Bytes, BytewiseComparatorImpl.isSameLengthImmediateSuccessor s t = true ↔
      s.length = t.length ∧ 0 < s.length ∧ bigEndian t = bigEndian s + 1) ∧
    (∀ ucmp ∈ [BytewiseComparator, ReverseBytewiseComparator],
      (∀ start limit : InternalKey, internalKeyCompare ucmp.compare start limit = .lt →
        internalKeyCompare ucmp.compare start
          (InternalKeyComparator.findShortestSeparator ucmp start limit) ≠ .gt ∧
        internalKeyCompare ucmp.compare
          (InternalKeyComparator.findShortestSeparator ucmp start limit) limit = .lt) ∧
      ∀ key : InternalKey,
        internalKeyCompare ucmp.compare key (InternalKeyComparator.findShortSuccessor ucmp key) ≠
          .gt) := by
  refine ⟨fun _ _ h => BytewiseComparatorImpl.findShortestSeparator_between h,
    BytewiseComparatorImpl.findShortSuccessor_ge,
    fun _ _ h => ReverseBytewiseComparatorImpl.findShortestSeparator_between h,
    BytewiseComparatorImpl.isSameLengthImmediateSuccessor_iff, ?_⟩
  intro ucmp hucmp
  -- both comparators obey the separator law
  have hu : ucmp.SeparatorLaw := by
    simp only [List.mem_cons, List.not_mem_nil, or_false] at hucmp
    rcases hucmp with rfl | rfl
    · exact separatorLaw_bytewiseComparator
    · exact separatorLaw_reverseBytewiseComparator
  exact ⟨fun _ _ h => InternalKeyComparator.findShortestSeparator_between hu h,
    InternalKeyComparator.findShortSuccessor_ge hu.compare_self⟩

/-- The separator of `"abc"` and `"abe"`, which is `"abd"`. -/
theorem separator_of_abc_and_abe :
    bytewiseCompare [97, 98, 99] [97, 98, 101] = .lt ∧
      bytewiseCompare [97, 98, 99]
        (BytewiseComparatorImpl.findShortestSeparator [97, 98, 99] [97, 98, 101]) ≠ .gt ∧
      bytewiseCompare
        (BytewiseComparatorImpl.findShortestSeparator [97, 98, 99] [97, 98, 101])
        [97, 98, 101] = .lt ∧
      (BytewiseComparatorImpl.findShortestSeparator [97, 98, 99] [97, 98, 101]).length ≤ 3 :=
  ⟨by decide, comparator_hooks_stay_within_bounds.1 _ _ (by decide)⟩

end HapDB
