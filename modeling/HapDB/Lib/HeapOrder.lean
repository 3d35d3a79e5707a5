import Mathlib

/-!
# Heap order on an array

An array is a binary heap for a comparison `lt` ("is below") when no element
is below one of its children; the parent of position `i > 0` is `(i - 1) / 2`.
For a strict weak order (`Lawful`) the root of such an array is then at least
every element (`Ordered.root_max`).

A sift moves a hole through the array and holds aside the value `v` it will
place at the end.  `UpOrder` and `DownOrder` say what stays true on the way.
Every parent–child pair that the hole does not touch is in order.  The hole's
neighbours are in the order the direction of the sift needs.  `move` is one
step of a sift and `finish` places `v`.  A step swaps the hole with a
neighbour, so the array with `v` in the hole keeps its elements
(`set_set_perm`).

What a heap is for is the priority queue over a bag (`Step`, `Run`): `push`
adds an element, `pop` takes out one that nothing in the bag is above
(`IsMax`), `replaceTop` does both, and `clear` empties the bag.  The root of
an ordered array is such an element of its bag (`Ordered.isMax_head`).
-/

namespace HeapOrder

variable {α : Type*} (lt : α → α → Bool)

/-- A strict weak order given by its Boolean comparison: it is asymmetric,
and "not below" is transitive. -/
structure Lawful : Prop where
  asymm : ∀ {a b}, lt a b = true → lt b a = false
  not_trans : ∀ {a b c}, lt a b = false → lt b c = false → lt a c = false

/-- No element is below its parent. -/
def Ordered (l : List α) : Prop :=
  ∀ i (hi : i < l.length), 0 < i → lt l[(i - 1) / 2] l[i] = false

/-- Every parent–child pair that does not touch `hole` is in order. -/
def OrderedExcept (l : List α) (hole : ℕ) : Prop :=
  ∀ i (hi : i < l.length), 0 < i → i ≠ hole → (i - 1) / 2 ≠ hole →
    lt l[(i - 1) / 2] l[i] = false

/-- What a sift up needs: the pairs off the hole are in order, the hole's
children are not above its parent, and `v` is not below them. -/
structure UpOrder (l : List α) (hole : ℕ) (v : α) : Prop where
  except : OrderedExcept lt l hole
  grand : ∀ c (hc : c < l.length) (_ : 0 < c) (_ : (c - 1) / 2 = hole), 0 < hole →
    lt l[(hole - 1) / 2] l[c] = false
  below : ∀ c (hc : c < l.length), 0 < c → (c - 1) / 2 = hole → lt v l[c] = false

/-- What a sift down needs: the pairs off the hole are in order, and neither
`v` nor the hole's children are above the hole's parent. -/
structure DownOrder (l : List α) (hole : ℕ) (v : α) : Prop where
  except : OrderedExcept lt l hole
  above : 0 < hole → ∀ (_ : hole < l.length), lt l[(hole - 1) / 2] v = false
  grand : ∀ c (hc : c < l.length) (_ : 0 < c) (_ : (c - 1) / 2 = hole), 0 < hole →
    lt l[(hole - 1) / 2] l[c] = false

variable {lt}

theorem Lawful.irrefl (hlt : Lawful lt) (a : α) : lt a a = false := by
  cases h : lt a a
  · rfl
  · simpa [h] using hlt.asymm h

/-- `b` is not below `a` and below `c`: then `a` is below `c`. -/
theorem Lawful.lt_of_not_lt_of_lt (hlt : Lawful lt) {a b c : α} (hba : lt b a = false)
    (hbc : lt b c = true) : lt a c = true := by
  cases hac : lt a c
  · simp [hlt.not_trans hba hac] at hbc
  · rfl

theorem ordered_nil : Ordered lt ([] : List α) := fun _ hi => absurd hi (Nat.not_lt_zero _)

/-- An ordered array is ordered off any hole. -/
theorem Ordered.except {l : List α} (ho : Ordered lt l) (hole : ℕ) : OrderedExcept lt l hole :=
  fun i hi h0 _ _ => ho i hi h0

/-- The root of an ordered array is not below any element. -/
theorem Ordered.root_max (hlt : Lawful lt) {l : List α} (ho : Ordered lt l) :
    ∀ i (hi : i < l.length), lt l[0] l[i] = false := by
  intro i
  induction i using Nat.strongRecOn with
  | ind i ih =>
    intro hi
    rcases Nat.eq_zero_or_pos i with rfl | h0
    · exact hlt.irrefl _
    · -- climb to the parent, which is not below its child
      exact hlt.not_trans (ih ((i - 1) / 2) (by omega) (by omega)) (ho i hi h0)

/-- One step of a sift swaps the hole with position `p`. -/
theorem set_set_perm (l : List α) {hole p : ℕ} (hp : p < l.length) (hhole : hole < l.length)
    (v : α) : ((l.set hole l[p]).set p v).Perm (l.set hole v) := by
  have hswap := List.swap_perm (l.set hole v) hole p
  rw [List.swap_eq_of_lt (by simpa using hhole) (by simpa using hp)] at hswap
  by_cases hne : hole = p
  · subst hne
    simp
  · rw [List.getElem_set_ne hne, List.getElem_set_self, List.set_set] at hswap
    exact hswap

section Sift

variable (hlt : Lawful lt) {l : List α} {hole : ℕ} {v : α}
include hlt

/-! ## Sift up -/

/-- The parent of the hole is below `v`: it moves down into the hole. -/
theorem UpOrder.move (o : UpOrder lt l hole v) (h0 : 0 < hole) (hhole : hole < l.length)
    (hb : lt l[(hole - 1) / 2] v = true) :
    UpOrder lt (l.set hole l[(hole - 1) / 2]) ((hole - 1) / 2) v := by
  have hlen : (l.set hole l[(hole - 1) / 2]).length = l.length := List.length_set ..
  -- the parent is not below its own parent
  have hup : 0 < (hole - 1) / 2 →
      lt l[((hole - 1) / 2 - 1) / 2] l[(hole - 1) / 2] = false := fun hp0 =>
    o.except _ (by omega) hp0 (by omega) (by omega)
  constructor
  · intro i hi h0i hip hpp
    have hih : hole ≠ i := by omega
    rw [List.getElem_set_ne hih]
    by_cases hph : hole = (i - 1) / 2
    · rw [List.getElem_set, if_pos hph]
      exact o.grand i (by omega) h0i hph.symm h0
    · rw [List.getElem_set_ne hph]
      exact o.except i (by omega) h0i (Ne.symm hih) (Ne.symm hph)
  · intro c hc h0c hcp hp0
    rw [List.getElem_set_ne (by omega)]
    by_cases hch : hole = c
    · subst hch
      rw [List.getElem_set_self]
      exact hup hp0
    · -- a sibling of the hole: below the parent, which is below the grandparent
      rw [List.getElem_set_ne hch]
      have hsib := o.except c (by omega) h0c (Ne.symm hch) (by omega)
      simp only [hcp] at hsib
      exact hlt.not_trans (hup hp0) hsib
  · intro c hc h0c hcp
    by_cases hch : hole = c
    · subst hch
      rw [List.getElem_set_self]
      exact hlt.asymm hb
    · rw [List.getElem_set_ne hch]
      have hsib := o.except c (by omega) h0c (Ne.symm hch) (by omega)
      simp only [hcp] at hsib
      exact hlt.asymm (hlt.lt_of_not_lt_of_lt hsib hb)

omit hlt in
/-- The parent of the hole is not below `v`, or the hole is the root: `v`
goes into the hole. -/
theorem UpOrder.finish (o : UpOrder lt l hole v)
    (hstop : 0 < hole → ∀ (_ : hole < l.length), lt l[(hole - 1) / 2] v = false) :
    Ordered lt (l.set hole v) := by
  intro i hi h0i
  have hi' : i < l.length := by simpa using hi
  by_cases hih : hole = i
  · subst hih
    rw [List.getElem_set_self, List.getElem_set_ne (by omega)]
    exact hstop h0i hi'
  · rw [List.getElem_set_ne hih]
    by_cases hph : hole = (i - 1) / 2
    · rw [List.getElem_set, if_pos hph]
      exact o.below i hi' h0i hph.symm
    · rw [List.getElem_set_ne hph]
      exact o.except i hi' h0i (Ne.symm hih) (Ne.symm hph)

/-! ## Sift down -/

/-- `v` is below the hole's child `c`, which no sibling is above: `c` moves up
into the hole. -/
theorem DownOrder.move (o : DownOrder lt l hole v) {c : ℕ} (hc : c < l.length) (h0c : 0 < c)
    (hcp : (c - 1) / 2 = hole)
    (hmax : ∀ s (hs : s < l.length), 0 < s → (s - 1) / 2 = hole → lt l[c] l[s] = false)
    (hb : lt v l[c] = true) :
    DownOrder lt (l.set hole l[c]) c v := by
  constructor
  · intro i hi h0i hic hpc
    have hi' : i < l.length := by simpa using hi
    by_cases hih : hole = i
    · subst hih
      rw [List.getElem_set_self, List.getElem_set_ne (by omega)]
      exact o.grand c hc h0c hcp h0i
    · rw [List.getElem_set_ne hih]
      by_cases hph : hole = (i - 1) / 2
      · rw [List.getElem_set, if_pos hph]
        exact hmax i hi' h0i hph.symm
      · rw [List.getElem_set_ne hph]
        exact o.except i hi' h0i (Ne.symm hih) (Ne.symm hph)
  · intro _ _
    simp only [hcp, List.getElem_set_self]
    exact hlt.asymm hb
  · intro d hd h0d hdp _
    have hd' : d < l.length := by simpa using hd
    simp only [hcp, List.getElem_set_self]
    rw [List.getElem_set_ne (by omega)]
    have hchild := o.except d hd' h0d (by omega) (by omega)
    simp only [hdp] at hchild
    exact hchild

omit hlt in
/-- `v` is not below any child of the hole: it goes into the hole. -/
theorem DownOrder.finish (o : DownOrder lt l hole v)
    (hstop : ∀ c (hc : c < l.length), 0 < c → (c - 1) / 2 = hole → lt v l[c] = false) :
    Ordered lt (l.set hole v) := by
  intro i hi h0i
  have hi' : i < l.length := by simpa using hi
  by_cases hih : hole = i
  · subst hih
    rw [List.getElem_set_self, List.getElem_set_ne (by omega)]
    exact o.above h0i hi'
  · rw [List.getElem_set_ne hih]
    by_cases hph : hole = (i - 1) / 2
    · rw [List.getElem_set, if_pos hph]
      exact hstop i hi' h0i hph.symm
    · rw [List.getElem_set_ne hph]
      exact o.except i hi' h0i (Ne.symm hih) (Ne.symm hph)

end Sift

/-! ## The priority queue -/

/-- The operations of a priority queue. -/
inductive Op (α : Type*) where
  | push (value : α)
  | pop
  | replaceTop (value : α)
  | clear

variable (lt) in
/-- `x` is in the bag and nothing in the bag is above it. -/
def IsMax (m : Multiset α) (x : α) : Prop := x ∈ m ∧ ∀ y ∈ m, lt x y = false

variable (lt) in
/-- One operation on the bag: `pop` and `replaceTop` take out a maximum, so
neither has a step from the empty bag. -/
inductive Step : Multiset α → Op α → Multiset α → Prop where
  | push (m : Multiset α) (v : α) : Step m (.push v) (v ::ₘ m)
  | pop (m : Multiset α) (x : α) : IsMax lt (x ::ₘ m) x → Step (x ::ₘ m) .pop m
  | replaceTop (m : Multiset α) (x v : α) :
      IsMax lt (x ::ₘ m) x → Step (x ::ₘ m) (.replaceTop v) (v ::ₘ m)
  | clear (m : Multiset α) : Step m .clear 0

variable (lt) in
/-- The bags a sequence of operations can lead to. -/
inductive Run : Multiset α → List (Op α) → Multiset α → Prop where
  | nil (m : Multiset α) : Run m [] m
  | cons {m m' m'' : Multiset α} {op : Op α} {ops : List (Op α)} :
      Step lt m op m' → Run m' ops m'' → Run m (op :: ops) m''

/-- The root of an ordered array is a maximum of its elements. -/
theorem Ordered.isMax_head (hlt : Lawful lt) {l : List α} (ho : Ordered lt l) (hne : l ≠ []) :
    IsMax lt (l : Multiset α) (l.head hne) := by
  have hpos : 0 < l.length := List.length_pos_of_ne_nil hne
  have hhead : l.head hne = l[0] := List.head_eq_getElem hne
  refine ⟨Multiset.mem_coe.mpr (List.head_mem hne), fun y hy => ?_⟩
  obtain ⟨i, hi, rfl⟩ := List.mem_iff_getElem.mp (Multiset.mem_coe.mp hy)
  rw [hhead]
  exact ho.root_max hlt i hi

end HeapOrder
