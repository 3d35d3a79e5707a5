import Mathlib.Data.List.Basic

/-!
# Cuts between the keys of a comparator

A bound of a range with an open or closed end sits between keys: just before a
key, or just after it.  Such a place is a `Cut`; cuts are ordered by their key
under a comparator and, at one key, the place before it first
(`Cut.compareBy`).  The ordering is lawful whenever the comparator is
(`Cut.instTransCmpCompareBy`).

A range is the cuts `lo` and `hi` bounding it, and it holds the cuts `y` with
`lo ≤ y < hi` (`Cut.Mem`); a key `x` stands for the cut just before it, so
`[p, q]` holds `x` iff `p ≤ x ≤ q` and `(p, q)` iff `p < x < q`
(`Cut.le_before_iff`, `Cut.before_lt_iff`).  A list of ranges is in order and
pairwise disjoint when its bounds, read left to right, never go down
(`Cut.Sorted`).
-/

/-- A place between keys: just before `key`, or just after it when `after`. -/
structure Cut (κ : Type*) where
  key : κ
  after : Bool
  deriving DecidableEq, Repr

namespace Cut

variable {κ : Type*} (cmp : κ → κ → Ordering)

/-- Cuts in order: by key, and the place before a key ahead of the place after it. -/
def compareBy (c d : Cut κ) : Ordering :=
  (cmp c.key d.key).then (compare c.after d.after)

/-- The cut just before a key, where the key itself is looked for. -/
def before (x : κ) : Cut κ := ⟨x, false⟩

/-- `c` is below `d`. -/
def Lt (c d : Cut κ) : Prop := compareBy cmp c d = .lt

/-- `c` is at most `d`. -/
def Le (c d : Cut κ) : Prop := (compareBy cmp c d).isLE

/-- The range from `lo` up to `hi` holds `y`. -/
def Mem (lo hi y : Cut κ) : Prop := Le cmp lo y ∧ Lt cmp y hi

instance (c d : Cut κ) : Decidable (Lt cmp c d) := inferInstanceAs (Decidable (_ = _))
instance (c d : Cut κ) : Decidable (Le cmp c d) := inferInstanceAs (Decidable (_ = _))
instance (lo hi y : Cut κ) : Decidable (Mem cmp lo hi y) := inferInstanceAs (Decidable (_ ∧ _))

variable {cmp}

theorem Lt.le {c d : Cut κ} (h : Lt cmp c d) : Le cmp c d := Ordering.isLE_of_eq_lt h

section Lawful

variable [Std.TransCmp cmp]

instance instTransCmpCompareBy : Std.TransCmp (compareBy cmp) :=
  have : Std.TransCmp fun c d : Cut κ => cmp c.key d.key :=
    { eq_swap := Std.OrientedCmp.eq_swap, isLE_trans := Std.TransCmp.isLE_trans }
  inferInstanceAs (Std.TransCmp (compareLex (fun c d : Cut κ => cmp c.key d.key) (compareOn Cut.after)))

variable {c d e lo hi y : Cut κ}

theorem Le.refl (c : Cut κ) : Le cmp c c := Std.ReflCmp.isLE_rfl

theorem Le.trans (h₁ : Le cmp c d) (h₂ : Le cmp d e) : Le cmp c e := Std.TransCmp.isLE_trans h₁ h₂

theorem Lt.trans_le (h₁ : Lt cmp c d) (h₂ : Le cmp d e) : Lt cmp c e :=
  Std.TransCmp.lt_of_lt_of_isLE h₁ h₂

theorem Le.trans_lt (h₁ : Le cmp c d) (h₂ : Lt cmp d e) : Lt cmp c e :=
  Std.TransCmp.lt_of_isLE_of_lt h₁ h₂

theorem Lt.trans (h₁ : Lt cmp c d) (h₂ : Lt cmp d e) : Lt cmp c e := Std.TransCmp.lt_trans h₁ h₂

theorem not_lt_of_le (h : Le cmp c d) : ¬ Lt cmp d c := Std.OrientedCmp.not_lt_of_isLE h

theorem not_le_of_lt (h : Lt cmp c d) : ¬ Le cmp d c := Std.OrientedCmp.not_isLE_of_lt h

theorem lt_of_not_le (h : ¬ Le cmp c d) : Lt cmp d c := Std.OrientedCmp.lt_of_not_isLE h

theorem le_of_not_lt (h : ¬ Lt cmp c d) : Le cmp d c := by
  by_contra h'
  exact h (lt_of_not_le h')

theorem lt_or_le (c d : Cut κ) : Lt cmp c d ∨ Le cmp d c := by
  by_cases h : Lt cmp c d
  · exact .inl h
  · exact .inr (le_of_not_lt h)

theorem Mem.not_of_lt (h : Lt cmp y lo) : ¬ Mem cmp lo hi y := fun hm => not_le_of_lt h hm.1

theorem Mem.not_of_le (h : Le cmp hi y) : ¬ Mem cmp lo hi y := fun hm => not_lt_of_le h hm.2

/-- Closing a range that starts at `p` at a cut `q` not below it leaves
something between the two exactly when they are not at one key with `p` after
it or `q` before it. -/
theorem lt_iff_not_degenerate {p q : Cut κ} (hpq : Le cmp p q) :
    Lt cmp p q ↔ ¬ (cmp q.key p.key = .eq ∧ (p.after = true ∨ q.after = false)) := by
  unfold Lt Le compareBy at *
  cases hk : cmp p.key q.key with
  | lt =>
      have : cmp q.key p.key = .gt := Std.OrientedCmp.gt_of_lt hk
      simp [this]
  | eq =>
      have : cmp q.key p.key = .eq := Std.OrientedCmp.eq_symm hk
      cases hp : p.after <;> cases hq : q.after <;> simp_all [compare]
  | gt => simp [hk] at hpq

/-- A range holds a cut of its own, so its bounds are in order. -/
theorem Mem.lt (h : Mem cmp lo hi y) : Lt cmp lo hi := h.1.trans_lt h.2

end Lawful

/-- The cut after `p` when `a`, read against a key: a closed lower bound `[p`
holds `x` iff `p ≤ x`, an open one `(p` iff `p < x`. -/
theorem le_before_iff {p x : κ} {a : Bool} :
    Le cmp ⟨p, a⟩ (before x) ↔ cmp p x = .lt ∨ (cmp p x = .eq ∧ a = false) := by
  cases a <;> cases h : cmp p x <;> simp [Le, compareBy, before, h, compare]

/-- A closed upper bound `q]` holds `x` iff `x ≤ q`, an open one `q)` iff `x < q`. -/
theorem before_lt_iff {q x : κ} {a : Bool} :
    Lt cmp (before x) ⟨q, a⟩ ↔ cmp x q = .lt ∨ (cmp x q = .eq ∧ a = true) := by
  cases a <;> cases h : cmp x q <;> simp [Lt, compareBy, before, h, compare]

/-! ## Lists of ranges in order -/

section Sorted

variable (cmp) {α : Type*} (lo hi : α → Cut κ)

theorem two_mul_succ (i : ℕ) : 2 * (i + 1) = 2 * i + 1 + 1 := by omega

/-- The bounds of a list of ranges, left to right. -/
def bounds (l : List α) : List (Cut κ) := l.flatMap fun r => [lo r, hi r]

/-- The ranges are in order and pairwise disjoint, and each is bounded the
right way round. -/
def Sorted (l : List α) : Prop := (bounds lo hi l).Pairwise (Le cmp)

instance (l : List α) : Decidable (Sorted cmp lo hi l) :=
  inferInstanceAs (Decidable (List.Pairwise _ _))

variable {cmp lo hi}

@[simp] theorem bounds_nil : bounds lo hi ([] : List α) = [] := rfl

@[simp] theorem bounds_cons (r : α) (l : List α) :
    bounds lo hi (r :: l) = lo r :: hi r :: bounds lo hi l := rfl

theorem bounds_append (l₁ l₂ : List α) :
    bounds lo hi (l₁ ++ l₂) = bounds lo hi l₁ ++ bounds lo hi l₂ := by
  simp [bounds]

@[simp] theorem length_bounds (l : List α) : (bounds lo hi l).length = 2 * l.length := by
  induction l with
  | nil => rfl
  | cons r l ih => simp [ih]; omega

theorem getElem?_bounds_two_mul (l : List α) (i : ℕ) :
    (bounds lo hi l)[2 * i]? = l[i]?.map lo := by
  induction l generalizing i with
  | nil => rfl
  | cons r l ih =>
      cases i with
      | zero => rfl
      | succ i => rw [bounds_cons, two_mul_succ, List.getElem?_cons_succ, List.getElem?_cons_succ, ih]; rfl

theorem getElem?_bounds_two_mul_add_one (l : List α) (i : ℕ) :
    (bounds lo hi l)[2 * i + 1]? = l[i]?.map hi := by
  induction l generalizing i with
  | nil => rfl
  | cons r l ih =>
      cases i with
      | zero => rfl
      | succ i =>
          rw [bounds_cons, two_mul_succ, List.getElem?_cons_succ, List.getElem?_cons_succ, ih]
          rfl

theorem mem_bounds {b : Cut κ} {l : List α} : b ∈ bounds lo hi l ↔ ∃ r ∈ l, b = lo r ∨ b = hi r := by
  simp only [bounds, List.mem_flatMap, List.mem_cons, List.not_mem_nil, or_false]

theorem mem_bounds_of_mem {r : α} {l : List α} (h : r ∈ l) :
    lo r ∈ bounds lo hi l ∧ hi r ∈ bounds lo hi l := by
  simp only [bounds, List.mem_flatMap, List.mem_cons, List.not_mem_nil, or_false]
  exact ⟨⟨r, h, .inl rfl⟩, ⟨r, h, .inr rfl⟩⟩

theorem Sorted.nil : Sorted cmp lo hi ([] : List α) := List.Pairwise.nil

theorem sorted_cons {r : α} {l : List α} :
    Sorted cmp lo hi (r :: l) ↔ Le cmp (lo r) (hi r) ∧
      (∀ b ∈ bounds lo hi l, Le cmp (lo r) b ∧ Le cmp (hi r) b) ∧ Sorted cmp lo hi l := by
  simp only [Sorted, bounds_cons, List.pairwise_cons, List.mem_cons]
  constructor
  · rintro ⟨h₁, h₂, h₃⟩
    exact ⟨h₁ _ (.inl rfl), fun b hb => ⟨h₁ b (.inr hb), h₂ b hb⟩, h₃⟩
  · rintro ⟨h₁, h₂, h₃⟩
    exact ⟨fun b hb => hb.elim (· ▸ h₁) fun hb => (h₂ b hb).1, fun b hb => (h₂ b hb).2, h₃⟩

theorem Sorted.tail {r : α} {l : List α} (h : Sorted cmp lo hi (r :: l)) :
    Sorted cmp lo hi l := (sorted_cons.mp h).2.2

theorem Sorted.append_right {l₁ l₂ : List α} (h : Sorted cmp lo hi (l₁ ++ l₂)) :
    Sorted cmp lo hi l₂ := by
  unfold Sorted at h ⊢
  rw [bounds_append] at h
  exact (List.pairwise_append.mp h).2.1

theorem sorted_append_singleton [Std.TransCmp cmp] {l : List α} {r : α} :
    Sorted cmp lo hi (l ++ [r]) ↔ Sorted cmp lo hi l ∧ Le cmp (lo r) (hi r) ∧
      ∀ b ∈ bounds lo hi l, Le cmp b (lo r) := by
  simp only [Sorted, bounds_append, bounds_cons, bounds_nil, List.pairwise_append,
    List.pairwise_cons, List.mem_cons, List.not_mem_nil, or_false, List.Pairwise.nil, and_true,
    forall_eq_or_imp, forall_eq, IsEmpty.forall_iff, implies_true]
  constructor
  · rintro ⟨h₁, h₂, h₃⟩
    exact ⟨h₁, h₂, fun b hb => (h₃ b hb).1⟩
  · rintro ⟨h₁, h₂, h₃⟩
    exact ⟨h₁, h₂, fun b hb => ⟨h₃ b hb, (h₃ b hb).trans h₂⟩⟩

theorem mem_drop_of_getElem? {β : Type*} {l : List β} {k : ℕ} {x : β} (h : l[k]? = some x) :
    x ∈ l.drop k := by
  obtain ⟨hk, rfl⟩ := List.getElem?_eq_some_iff.mp h
  rw [List.drop_eq_getElem_cons hk]
  exact List.mem_cons_self

/-- In sorted bounds, the first one left is at most every other one left. -/
theorem Sorted.head_le [Std.TransCmp cmp] {l : List α} (h : Sorted cmp lo hi l) {k : ℕ} {c : Cut κ}
    (hc : (bounds lo hi l)[k]? = some c) : ∀ b ∈ (bounds lo hi l).drop k, Le cmp c b := by
  obtain ⟨hk, hkc⟩ := List.getElem?_eq_some_iff.mp hc
  have hdrop : (bounds lo hi l).drop k = c :: (bounds lo hi l).drop (k + 1) := by
    rw [List.drop_eq_getElem_cons hk, hkc]
  have hpw : ((bounds lo hi l).drop k).Pairwise (Le cmp) := List.Pairwise.drop h
  rw [hdrop] at hpw
  intro b hb
  rw [hdrop, List.mem_cons] at hb
  rcases hb with rfl | hb
  · exact Le.refl b
  · exact List.rel_of_pairwise_cons hpw hb

/-- A cut past the bounds of the first `i` ranges and below those of the rest
is in none of them. -/
theorem filter_mem_eq_nil [Std.TransCmp cmp] {y : Cut κ} :
    ∀ (l : List α) (i : ℕ), (∀ b ∈ (bounds lo hi l).take (2 * i), Le cmp b y) →
      (∀ b ∈ (bounds lo hi l).drop (2 * i), Lt cmp y b) →
      l.filter (fun r => decide (Mem cmp (lo r) (hi r) y)) = []
  | [], _, _, _ => rfl
  | r :: l, 0, _, hlt => by
      have hr : ¬ Mem cmp (lo r) (hi r) y := Mem.not_of_lt (hlt _ (by simp))
      rw [List.filter_cons_of_neg (by simpa using hr)]
      refine filter_mem_eq_nil l 0 (by simp) fun b hb => hlt b ?_
      simp only [Nat.mul_zero, List.drop_zero] at hb ⊢
      exact List.mem_cons_of_mem _ (List.mem_cons_of_mem _ hb)
  | r :: l, i + 1, hle, hlt => by
      have hr : ¬ Mem cmp (lo r) (hi r) y :=
        Mem.not_of_le (hle _ (by rw [two_mul_succ]; simp))
      rw [List.filter_cons_of_neg (by simpa using hr)]
      refine filter_mem_eq_nil l i (fun b hb => hle b ?_) fun b hb => hlt b ?_
      · rw [bounds_cons, two_mul_succ, List.take_succ_cons, List.take_succ_cons]
        exact List.mem_cons_of_mem _ (List.mem_cons_of_mem _ hb)
      · rwa [bounds_cons, two_mul_succ, List.drop_succ_cons, List.drop_succ_cons]

/-- A cut past the left bound of the range at `i`, below its right bound, and
between the bounds of the others in the same way, is in that range only. -/
theorem filter_mem_eq_singleton [Std.TransCmp cmp] {y : Cut κ} :
    ∀ (l : List α) (i : ℕ) {r : α}, l[i]? = some r →
      (∀ b ∈ (bounds lo hi l).take (2 * i + 1), Le cmp b y) →
      (∀ b ∈ (bounds lo hi l).drop (2 * i + 1), Lt cmp y b) →
      l.filter (fun r => decide (Mem cmp (lo r) (hi r) y)) = [r]
  | [], _, _, hr, _, _ => by simp at hr
  | r' :: l, 0, r, hr, hle, hlt => by
      obtain rfl : r' = r := by simpa using hr
      have hmem : Mem cmp (lo r') (hi r') y := ⟨hle _ (by simp), hlt _ (by simp)⟩
      rw [List.filter_cons_of_pos (by simpa using hmem)]
      congr 1
      refine filter_mem_eq_nil l 0 (by simp) fun b hb => hlt b ?_
      simp only [Nat.mul_zero, List.drop_zero] at hb
      simpa using List.mem_cons_of_mem _ hb
  | r' :: l, i + 1, r, hr, hle, hlt => by
      have hr' : ¬ Mem cmp (lo r') (hi r') y :=
        Mem.not_of_le (hle _ (by rw [two_mul_succ]; simp))
      rw [List.filter_cons_of_neg (by simpa using hr')]
      refine filter_mem_eq_singleton l i (by simpa using hr) (fun b hb => hle b ?_) fun b hb => hlt b ?_
      · rw [bounds_cons, two_mul_succ, Nat.add_right_comm, List.take_succ_cons, List.take_succ_cons]
        exact List.mem_cons_of_mem _ (List.mem_cons_of_mem _ hb)
      · rwa [bounds_cons, two_mul_succ, Nat.add_right_comm, List.drop_succ_cons, List.drop_succ_cons]

end Sorted

end Cut
