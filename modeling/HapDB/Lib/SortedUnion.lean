import HapDB.Lib.Cursor

/-!
# Positions in a sorted union

A merge of cursors over strictly sorted lists that share no key stands at one
position `m` of the union of the lists, and each list's cursor stands at the
first of its entries that does not come before position `m`.  The entries
before position `m` are those whose keys are in a cut, `below U m`: the keys
less than the key at `m`, or every key when `m` is past the end.

* `below_countP`: the count of any cut in the union gives that cut back on the
  union's entries, so a seek of every list leaves the lists at the position
  the same seek reaches in the union.
* `countP_below_of_mem` and `countP_below_succ_of_not_mem`: when the position
  moves one entry on, the list that holds that entry moves past it and every
  other list stays.
* `eq_getElem_of_le_heads` and `eq_getElem_of_ge_lasts`: the entry at `m` is
  the least of the lists' next entries, and the entry before `m` the greatest
  of their previous ones.
-/

section Sorted

variable {κ ν : Type*} {cmp : κ → κ → Ordering} [Std.TransCmp cmp]
variable {l : List (κ × ν)} (hl : l.Pairwise fun a b => cmp a.1 b.1 = .lt)
include hl

/-- In a strictly sorted list keys compare as their positions do. -/
theorem cmp_getElem_eq_lt_iff {i j : ℕ} (hi : i < l.length) (hj : j < l.length) :
    cmp l[i].1 l[j].1 = .lt ↔ i < j := by
  refine ⟨fun h => ?_, fun hij => List.pairwise_iff_getElem.mp hl i j hi hj hij⟩
  rcases Nat.lt_trichotomy i j with hij | rfl | hji
  · exact hij
  · rw [show cmp l[i].1 l[i].1 = .eq from Std.ReflCmp.compare_self] at h
    exact absurd h (by decide)
  · have hgt := Std.OrientedCmp.gt_iff_lt.mpr (List.pairwise_iff_getElem.mp hl j i hj hi hji)
    rw [hgt] at h
    exact absurd h (by decide)

theorem cmp_getElem_ne_gt_iff {i j : ℕ} (hi : i < l.length) (hj : j < l.length) :
    cmp l[i].1 l[j].1 ≠ .gt ↔ i ≤ j := by
  rw [ne_eq, Std.OrientedCmp.gt_iff_lt, cmp_getElem_eq_lt_iff hl hj hi, Nat.not_lt]

/-- A strictly sorted list holds each key once. -/
theorem eq_of_cmp_getElem_eq {i j : ℕ} (hi : i < l.length) (hj : j < l.length)
    (h : cmp l[i].1 l[j].1 = .eq) : i = j := by
  have hle := (cmp_getElem_ne_gt_iff hl hi hj).mp (by rw [h]; decide)
  have hge := (cmp_getElem_ne_gt_iff hl hj hi).mp (by rw [Std.OrientedCmp.eq_comm.mp h]; decide)
  omega

/-- The entries with keys below that of the `q`-th are the first `q`. -/
theorem countP_lt_getElem {q : ℕ} (hq : q < l.length) :
    l.countP (fun e => cmp e.1 l[q].1 == .lt) = q :=
  countP_cut_eq hl (isCut_lt _) hq.le fun i hi => by
    rw [beq_iff_eq, cmp_getElem_eq_lt_iff hl hi hq]

/-- The entries with keys not above that of the `q`-th are the first `q + 1`. -/
theorem countP_le_getElem {q : ℕ} (hq : q < l.length) :
    l.countP (fun e => cmp e.1 l[q].1 != .gt) = q + 1 :=
  countP_cut_eq hl (isCut_le _) hq fun i hi => by
    rw [bne_iff_ne, cmp_getElem_ne_gt_iff hl hi hq, Nat.lt_succ_iff]

end Sorted

/-! ## The cut of a position -/

section Below

variable {κ ν : Type*}

variable (cmp : κ → κ → Ordering) in
/-- The keys of the entries before position `m` of `U`. -/
def below (U : List (κ × ν)) (m : ℕ) (k : κ) : Bool :=
  if h : m < U.length then cmp k U[m].1 == .lt else true

variable {cmp : κ → κ → Ordering}

theorem below_of_lt {U : List (κ × ν)} {m : ℕ} (hm : m < U.length) (k : κ) :
    below cmp U m k = (cmp k U[m].1 == .lt) :=
  dif_pos hm

theorem below_of_le {U : List (κ × ν)} {m : ℕ} (hm : U.length ≤ m) (k : κ) : below cmp U m k = true :=
  dif_neg (Nat.not_lt.mpr hm)

/-- Past the end of `U` every entry is counted. -/
theorem countP_below_of_le {U l : List (κ × ν)} {m : ℕ} (hm : U.length ≤ m) :
    l.countP (fun e => below cmp U m e.1) = l.length :=
  List.countP_eq_length.mpr fun x _ => below_of_le hm x.1

variable [Std.TransCmp cmp]

theorem isCut_below (U : List (κ × ν)) (m : ℕ) : IsCut cmp (below cmp U m) := by
  unfold below
  split
  · exact isCut_lt _
  · exact isCut_const true

variable {U : List (κ × ν)} (hU : U.Pairwise fun a b => cmp a.1 b.1 = .lt)
include hU

theorem below_getElem (m : ℕ) {i : ℕ} (hi : i < U.length) : below cmp U m U[i].1 = decide (i < m) := by
  by_cases hm : m < U.length
  · rw [below_of_lt hm, Bool.eq_iff_iff, beq_iff_eq, cmp_getElem_eq_lt_iff hU hi hm, decide_eq_true_iff]
  · rw [below_of_le (Nat.le_of_not_lt hm), Bool.eq_iff_iff, decide_eq_true_iff]
    exact ⟨fun _ => by omega, fun _ => rfl⟩

/-- The position a cut counts in `U` gives the cut back on `U`'s entries. -/
theorem below_countP {S : κ → Bool} (hS : IsCut cmp S) {x : κ × ν} (hx : x ∈ U) :
    below cmp U (U.countP fun e => S e.1) x.1 = S x.1 := by
  obtain ⟨i, hi, rfl⟩ := List.mem_iff_getElem.mp hx
  rw [below_getElem hU _ hi, Bool.eq_iff_iff, decide_eq_true_iff]
  exact lt_countP_cut hU hS i hi

/-- One entry on, the cut takes in the entry at `m`. -/
theorem below_succ {m : ℕ} (hm : m < U.length) {x : κ × ν} (hx : x ∈ U) :
    below cmp U (m + 1) x.1 = (cmp x.1 U[m].1 != .gt) := by
  obtain ⟨i, hi, rfl⟩ := List.mem_iff_getElem.mp hx
  rw [below_getElem hU _ hi, Bool.eq_iff_iff, bne_iff_ne, cmp_getElem_ne_gt_iff hU hi hm,
    decide_eq_true_iff, Nat.lt_succ_iff]

variable {l : List (κ × ν)} (hl : l.Pairwise fun a b => cmp a.1 b.1 = .lt) (hsub : ∀ x ∈ l, x ∈ U)
include hl hsub

omit hl in
/-- A list of entries of `U` counts the same under a cut and under the
position the cut gives in `U`. -/
theorem countP_below_countP {S : κ → Bool} (hS : IsCut cmp S) :
    l.countP (fun e => below cmp U (U.countP fun e => S e.1) e.1) = l.countP fun e => S e.1 :=
  List.countP_congr fun x hx => by rw [below_countP hU hS (hsub x hx)]

/-- The list that holds the entry at `m` stands at it at `m`, and past it at `m + 1`. -/
theorem countP_below_of_mem {m : ℕ} (hm : m < U.length) (hmem : U[m] ∈ l) :
    ∃ q, ∃ hq : q < l.length, l[q] = U[m] ∧ l.countP (fun e => below cmp U m e.1) = q ∧
      l.countP (fun e => below cmp U (m + 1) e.1) = q + 1 := by
  obtain ⟨q, hq, hlq⟩ := List.mem_iff_getElem.mp hmem
  refine ⟨q, hq, hlq, ?_, ?_⟩
  · rw [← countP_lt_getElem hl hq, hlq]
    exact List.countP_congr fun x _ => by rw [below_of_lt hm]
  · rw [← countP_le_getElem hl hq, hlq]
    exact List.countP_congr fun x hx => by rw [below_succ hU hm (hsub x hx)]

omit hl in
/-- A list without the key at `m` stands at the same place at `m` and `m + 1`. -/
theorem countP_below_succ_of_not_mem {m : ℕ} (hm : m < U.length)
    (hne : ∀ x ∈ l, cmp x.1 U[m].1 ≠ .eq) :
    l.countP (fun e => below cmp U (m + 1) e.1) = l.countP fun e => below cmp U m e.1 :=
  List.countP_congr fun x hx => by
    rw [below_succ hU hm (hsub x hx), below_of_lt hm]
    have hx' := hne x hx
    cases h : cmp x.1 U[m].1 <;> simp_all

omit hl in
/-- Before the first position no entry of `U` is counted. -/
theorem countP_below_zero : l.countP (fun e => below cmp U 0 e.1) = 0 :=
  List.countP_eq_zero.mpr fun x hx => by
    obtain ⟨i, hi, hix⟩ := List.mem_iff_getElem.mp (hsub x hx)
    rw [← hix, below_getElem hU _ hi]
    simp

end Below

/-! ## The entry at a position among the lists' next entries -/

section Heads

variable {κ ν : Type*} {cmp : κ → κ → Ordering} {ls : List (List (κ × ν))}

theorem subset_sortedUnion {l : List (κ × ν)} (hl : l ∈ ls) : ∀ x ∈ l, x ∈ sortedUnion cmp ls :=
  fun _ hx => (mem_sortedUnion cmp).mpr ⟨l, hl, hx⟩

/-- Two different lists of key-disjoint lists share no key. -/
theorem cmp_ne_eq_of_ne [Std.OrientedCmp cmp]
    (hdisj : ls.Pairwise fun l l' => ∀ e ∈ l, ∀ e' ∈ l', cmp e.1 e'.1 ≠ .eq) {i j : ℕ}
    (hi : i < ls.length) (hj : j < ls.length) (hij : i ≠ j) {x y : κ × ν} (hx : x ∈ ls[i])
    (hy : y ∈ ls[j]) : cmp x.1 y.1 ≠ .eq := by
  rcases Nat.lt_or_gt_of_ne hij with hlt | hgt
  · exact List.pairwise_iff_getElem.mp hdisj i j hi hj hlt x hx y hy
  · exact fun h => List.pairwise_iff_getElem.mp hdisj j i hj hi hgt y hy x hx
      (Std.OrientedCmp.eq_comm.mp h)

/-- An entry lies in one of key-disjoint lists only. -/
theorem eq_of_mem_of_mem [Std.OrientedCmp cmp]
    (hdisj : ls.Pairwise fun l l' => ∀ e ∈ l, ∀ e' ∈ l', cmp e.1 e'.1 ≠ .eq) {i j : ℕ}
    (hi : i < ls.length) (hj : j < ls.length) {x : κ × ν} (hxi : x ∈ ls[i]) (hxj : x ∈ ls[j]) :
    i = j := by
  by_contra hij
  exact cmp_ne_eq_of_ne hdisj hi hj hij hxi hxj Std.ReflCmp.compare_self

variable [Std.TransCmp cmp] (hsorted : ∀ l ∈ ls, l.Pairwise fun a b => cmp a.1 b.1 = .lt)
  (hU : (sortedUnion cmp ls).Pairwise fun a b => cmp a.1 b.1 = .lt)
include hsorted hU

omit hsorted in
/-- Two keys that compare equal in the union are one entry. -/
theorem eq_of_cmp_eq_of_mem {x y : κ × ν} (hx : x ∈ sortedUnion cmp ls) (hy : y ∈ sortedUnion cmp ls)
    (h : cmp x.1 y.1 = .eq) : x = y := by
  obtain ⟨i, hi, rfl⟩ := List.mem_iff_getElem.mp hx
  obtain ⟨j, hj, rfl⟩ := List.mem_iff_getElem.mp hy
  obtain rfl := eq_of_cmp_getElem_eq hU hi hj h
  rfl

/-- The entry at `m` is the least of the lists' next entries: a next entry
that no other is below is the entry at `m`. -/
theorem eq_getElem_of_le_heads {m : ℕ} {l : List (κ × ν)} (hl : l ∈ ls) {e : κ × ν}
    (he : l[l.countP fun e => below cmp (sortedUnion cmp ls) m e.1]? = some e)
    (hmin : ∀ l' ∈ ls, ∀ x, l'[l'.countP fun e => below cmp (sortedUnion cmp ls) m e.1]? = some x →
      cmp e.1 x.1 ≠ .gt) :
    (sortedUnion cmp ls)[m]? = some e := by
  obtain ⟨hp, hpe⟩ := List.getElem?_eq_some_iff.mp he
  have heU : e ∈ sortedUnion cmp ls := subset_sortedUnion hl e (hpe ▸ List.getElem_mem hp)
  -- `e` is not before position `m`, since the list's count stops at it
  have hnot : below cmp (sortedUnion cmp ls) m e.1 = false := by
    have h := lt_countP_cut (hsorted l hl) (isCut_below (sortedUnion cmp ls) m) _ hp
    rw [hpe] at h
    simpa using h
  have hm : m < (sortedUnion cmp ls).length := by
    by_contra hm
    rw [below_of_le (Nat.le_of_not_lt hm)] at hnot
    exact absurd hnot (by decide)
  -- the list that holds the entry at `m` offers it next
  obtain ⟨l', hl', hmem⟩ := (mem_sortedUnion cmp).mp (List.getElem_mem hm)
  obtain ⟨q, hq, hlq, hcount, -⟩ :=
    countP_below_of_mem hU (hsorted l' hl') (subset_sortedUnion hl') hm hmem
  have hle : cmp e.1 (sortedUnion cmp ls)[m].1 ≠ .gt := by
    refine hmin l' hl' _ ?_
    rw [hcount, List.getElem?_eq_getElem hq, hlq]
  have hge : cmp e.1 (sortedUnion cmp ls)[m].1 ≠ .lt := by
    rw [below_of_lt hm] at hnot
    simpa using hnot
  have heq : cmp e.1 (sortedUnion cmp ls)[m].1 = .eq := by
    cases h : cmp e.1 (sortedUnion cmp ls)[m].1 <;> simp_all
  rw [List.getElem?_eq_getElem hm, eq_of_cmp_eq_of_mem hU heU (List.getElem_mem hm) heq]

/-- The entry before `m` is the greatest of the lists' previous entries. -/
theorem eq_getElem_of_ge_lasts {m : ℕ} (hm : m ≤ (sortedUnion cmp ls).length) {l : List (κ × ν)}
    (hl : l ∈ ls) {e : κ × ν}
    (he : l[(l.countP fun e => below cmp (sortedUnion cmp ls) m e.1) - 1]? = some e)
    (hc : 0 < l.countP fun e => below cmp (sortedUnion cmp ls) m e.1)
    (hmax : ∀ l' ∈ ls, ∀ x, 0 < (l'.countP fun e => below cmp (sortedUnion cmp ls) m e.1) →
      l'[(l'.countP fun e => below cmp (sortedUnion cmp ls) m e.1) - 1]? = some x → cmp e.1 x.1 ≠ .lt) :
    0 < m ∧ (sortedUnion cmp ls)[m - 1]? = some e := by
  obtain ⟨hp, hpe⟩ := List.getElem?_eq_some_iff.mp he
  have heU : e ∈ sortedUnion cmp ls := subset_sortedUnion hl e (hpe ▸ List.getElem_mem hp)
  have hin : below cmp (sortedUnion cmp ls) m e.1 = true := by
    have h := (lt_countP_cut (hsorted l hl) (isCut_below (sortedUnion cmp ls) m) _ hp).mp (by omega)
    rwa [hpe] at h
  have hm0 : 0 < m := by
    by_contra hm0
    obtain ⟨i, hi, hie⟩ := List.mem_iff_getElem.mp heU
    rw [← hie, below_getElem hU _ hi] at hin
    simp at hin
    omega
  obtain ⟨k, rfl⟩ : ∃ k, m = k + 1 := ⟨m - 1, by omega⟩
  have hk : k < (sortedUnion cmp ls).length := by omega
  -- the list that holds the entry at `k` offers it as its previous one
  obtain ⟨l', hl', hmem⟩ := (mem_sortedUnion cmp).mp (List.getElem_mem hk)
  obtain ⟨q, hq, hlq, -, hcount⟩ :=
    countP_below_of_mem hU (hsorted l' hl') (subset_sortedUnion hl') hk hmem
  have hge : cmp e.1 (sortedUnion cmp ls)[k].1 ≠ .lt := by
    refine hmax l' hl' _ (by omega) ?_
    rw [hcount, Nat.add_sub_cancel, List.getElem?_eq_getElem hq, hlq]
  have hle : cmp e.1 (sortedUnion cmp ls)[k].1 ≠ .gt := by
    rw [below_succ hU hk heU] at hin
    simpa using hin
  have heq : cmp e.1 (sortedUnion cmp ls)[k].1 = .eq := by
    cases h : cmp e.1 (sortedUnion cmp ls)[k].1 <;> simp_all
  refine ⟨Nat.succ_pos k, ?_⟩
  rw [Nat.add_sub_cancel, List.getElem?_eq_getElem hk,
    eq_of_cmp_eq_of_mem hU heU (List.getElem_mem hk) heq]

end Heads
