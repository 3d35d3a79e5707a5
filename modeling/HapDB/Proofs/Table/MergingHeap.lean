import HapDB.Table.MergingIterator
import HapDB.Proofs.Heap.Rekey

/-!
# The heaps of `MergingIterator`

The loops of `MergingIterator` over its children, and what `Next` and `Prev`
do to the heap of their direction, for any children.

* The heaps compare children by keys, a strict weak order on indices for a
  lawful comparator (`keyCmp_lawful`); moving one child changes the order only
  on the pairs that involve it (`keyCmp_congr`).
* The loops that move every child and push the valid ones (`SeekToFirst`,
  `Seek`, `SeekToLast`, `SeekForPrev`, `SwitchToForward`, the first half of
  `Prev`) leave in the heap exactly the valid children, each once, in heap
  order (`repositionChildren_spec`), from a loop invariant kept by each turn
  (`Repositioned.step`).
* Moving the top child and taking it back with `replace_top`, or dropping it
  with `pop`, keeps that (`holdsValid_step`), although the heap's comparator
  moved with the child.
* A turn leaves the current child where it is and only seeks a child that holds
  no key equal to the target (`turnChild_current`, `turnChild_of_ne`).
-/

namespace HapDB

namespace MergingIterator

open BinaryHeap HeapOrder

variable {κ ν : Type*} [Inhabited κ] [Inhabited ν] {cmp : κ → κ → Ordering}

/-! ## The heaps' comparators -/

/-- Comparing keys by `gt` or `lt` is a strict weak order on children. -/
theorem keyCmp_lawful [Std.TransCmp cmp] {o : Ordering} (ho : o ≠ .eq) (cs : List (Cursor κ ν)) :
    Lawful (keyCmp cmp o cs) where
  asymm {a b} h := by
    unfold keyCmp at h ⊢
    rw [beq_iff_eq] at h
    rw [beq_eq_false_iff_ne]
    cases o with
    | lt => rw [Std.OrientedCmp.gt_iff_lt.mpr h]; decide
    | eq => exact absurd rfl ho
    | gt => rw [Std.OrientedCmp.gt_iff_lt.mp h]; decide
  not_trans {a b c} hab hbc := by
    unfold keyCmp at hab hbc ⊢
    rw [beq_eq_false_iff_ne] at hab hbc ⊢
    cases o with
    | lt =>
      -- "not below" is "not less": the keys go down from `a` to `c`
      have hba := Ordering.isLE_iff_ne_gt.mpr (mt Std.OrientedCmp.gt_iff_lt.mp hab)
      have hcb := Ordering.isLE_iff_ne_gt.mpr (mt Std.OrientedCmp.gt_iff_lt.mp hbc)
      exact mt Std.OrientedCmp.gt_iff_lt.mpr
        (Ordering.isLE_iff_ne_gt.mp (Std.TransCmp.isLE_trans hcb hba))
    | eq => exact absurd rfl ho
    | gt =>
      exact Ordering.isLE_iff_ne_gt.mp
        (Std.TransCmp.isLE_trans (Ordering.isLE_iff_ne_gt.mpr hab) (Ordering.isLE_iff_ne_gt.mpr hbc))

theorem keyCmp_congr {o : Ordering} {cs cs' : List (Cursor κ ν)} {a b : ℕ}
    (ha : childAt cs' a = childAt cs a) (hb : childAt cs' b = childAt cs b) :
    keyCmp cmp o cs' a b = keyCmp cmp o cs a b := by
  simp only [keyCmp, ha, hb]

omit [Inhabited κ] [Inhabited ν] in
theorem childAt_modify_of_ne {cs : List (Cursor κ ν)} {i j : ℕ} (f : Cursor κ ν → Cursor κ ν)
    (h : i ≠ j) : childAt (cs.modify i f) j = childAt cs j := by
  simp only [childAt, List.getD_eq_getElem?_getD, List.getElem?_modify, if_neg h]
  cases cs[j]? <;> rfl

omit [Inhabited κ] [Inhabited ν] in
theorem childAt_modify_self {cs : List (Cursor κ ν)} {i : ℕ} (f : Cursor κ ν → Cursor κ ν)
    (h : i < cs.length) : childAt (cs.modify i f) i = f (childAt cs i) := by
  simp [childAt, List.getD_eq_getElem?_getD, List.getElem?_eq_getElem h]

/-! ## The loops over the children -/

/-- The heap of a direction. -/
def heapOf (forward : Bool) (it : MergingIterator κ ν) : Option (BinaryHeap ℕ) :=
  if forward then some it.minHeap else it.maxHeap

/-- The comparison of the heap of a direction. -/
def dirOrd (forward : Bool) : Ordering := if forward then .gt else .lt

theorem dirOrd_ne_eq (forward : Bool) : dirOrd forward ≠ .eq := by
  cases forward <;> decide

/-- The heap holds the valid children, each once, in heap order for `cmpH`
of the children. -/
structure HoldsValid (cmpH : List (Cursor κ ν) → ℕ → ℕ → Bool) (cs : List (Cursor κ ν))
    (h : BinaryHeap ℕ) : Prop where
  wf : WF (cmpH cs) h
  nodup : h.data.Nodup
  mem : ∀ j, j ∈ h.data ↔ j < cs.length ∧ (childAt cs j).valid = true

theorem wf_of_data_nil {lt : ℕ → ℕ → Bool} {h : BinaryHeap ℕ} (hnil : h.data = []) : WF lt h :=
  ⟨by rw [hnil]; exact ordered_nil, by simp [hnil], fun hin => by simp [hnil] at hin⟩

variable (cmp) in
/-- What the loop has done after moving the children before `k`. -/
structure Repositioned (forward : Bool) (move : ℕ → Cursor κ ν → Cursor κ ν)
    (it₀ : MergingIterator κ ν) (k : ℕ) (it : MergingIterator κ ν) : Prop where
  current : it.current = it₀.current
  direction : it.direction = it₀.direction
  prefixSeekMode : it.prefixSeekMode = it₀.prefixSeekMode
  children : it.children = it₀.children.mapIdx fun j c => if j < k then move j c else c
  heap : ∃ h, heapOf forward it = some h ∧ WF (keyCmp cmp (dirOrd forward) it.children) h ∧
    h.data.Nodup ∧ ∀ j, j ∈ h.data ↔ j < k ∧ (childAt it.children j).valid = true

section Push

variable (forward : Bool) (it : MergingIterator κ ν) (j : ℕ)

@[simp] theorem children_pushChild : (it.pushChild cmp forward j).children = it.children := by
  cases forward <;> rfl

@[simp] theorem current_pushChild : (it.pushChild cmp forward j).current = it.current := by
  cases forward <;> rfl

@[simp] theorem direction_pushChild : (it.pushChild cmp forward j).direction = it.direction := by
  cases forward <;> rfl

@[simp] theorem prefixSeekMode_pushChild :
    (it.pushChild cmp forward j).prefixSeekMode = it.prefixSeekMode := by
  cases forward <;> rfl

theorem heapOf_pushChild :
    heapOf forward (it.pushChild cmp forward j) =
      (heapOf forward it).map fun h => h.push (keyCmp cmp (dirOrd forward) it.children) j := by
  cases forward <;> rfl

end Push

/-- The loop starts from an empty heap. -/
theorem repositioned_zero {forward : Bool} {move : ℕ → Cursor κ ν → Cursor κ ν}
    {it₀ : MergingIterator κ ν} {h₀ : BinaryHeap ℕ} (hh : heapOf forward it₀ = some h₀)
    (hnil : h₀.data = []) : Repositioned cmp forward move it₀ 0 it₀ := by
  refine ⟨rfl, rfl, rfl, ?_, h₀, hh, wf_of_data_nil hnil, by simp [hnil], fun j => by simp [hnil]⟩
  apply List.ext_getElem (by simp)
  intro j _ _
  simp

variable [Std.TransCmp cmp]

omit [Inhabited κ] [Inhabited ν] [Std.TransCmp cmp] in
/-- Moving the element at `k` of a list whose first `k` elements are moved
moves its first `k + 1`. -/
theorem modify_mapIdx_prefix (cs : List (Cursor κ ν)) (move : ℕ → Cursor κ ν → Cursor κ ν) (k : ℕ) :
    (cs.mapIdx fun j c => if j < k then move j c else c).modify k (move k) =
      cs.mapIdx fun j c => if j < k + 1 then move j c else c := by
  apply List.ext_getElem (by simp)
  intro j h1 h2
  simp only [List.getElem_modify, List.getElem_mapIdx]
  by_cases hjk : k = j
  · subst hjk
    simp
  · rw [if_neg hjk]
    by_cases hj : j < k
    · simp [hj, show j < k + 1 by omega]
    · simp [hj, show ¬j < k + 1 by omega]

/-- One turn of the loop: the child at `k` moves and, if it is valid, joins the heap. -/
theorem Repositioned.step {forward : Bool} {move : ℕ → Cursor κ ν → Cursor κ ν}
    {it₀ it : MergingIterator κ ν} {k : ℕ} (hr : Repositioned cmp forward move it₀ k it)
    (hk : k < it₀.children.length) (hn : it₀.children.length ≤ kMaxSizet) :
    Repositioned cmp forward move it₀ (k + 1) (repositionStep cmp forward move it k) := by
  obtain ⟨hcur, hdir, hpsm, hch, h, hh, hwf, hnd, hmem⟩ := hr
  have hch' : it.children.modify k (move k) =
      it₀.children.mapIdx fun j c => if j < k + 1 then move j c else c := by
    rw [hch, modify_mapIdx_prefix]
  -- the heap holds children before `k`, whose comparison the move leaves as it was
  have hbefore : ∀ a ∈ h.data, childAt (it.children.modify k (move k)) a = childAt it.children a :=
    fun a ha => childAt_modify_of_ne _ (Nat.ne_of_gt ((hmem a).mp ha).1)
  have hwf' : WF (keyCmp cmp (dirOrd forward) (it.children.modify k (move k))) h :=
    hwf.congr fun a ha b hb => keyCmp_congr (hbefore a ha) (hbefore b hb)
  have hvalid : ∀ j, j < k →
      (childAt (it.children.modify k (move k)) j).valid = (childAt it.children j).valid :=
    fun j hj => by rw [childAt_modify_of_ne _ (Nat.ne_of_gt hj)]
  unfold repositionStep
  dsimp only
  split
  · rename_i hk_valid
    -- a valid child is pushed; the heap holds at most the `k` children before it
    have hlenh : h.data.length < kMaxSizet := by
      have hsub := hnd.subperm fun j hj => List.mem_range.mpr ((hmem j).mp hj).1
      have := hsub.length_le
      rw [List.length_range] at this
      omega
    obtain ⟨hwf'', hperm⟩ := push_wf (keyCmp_lawful (dirOrd_ne_eq forward) _) hwf' hlenh k
    have hnotin : k ∉ h.data := fun hkin => absurd ((hmem k).mp hkin).1 (lt_irrefl k)
    refine ⟨by simp [hcur], by simp [hdir], by simp [hpsm], by simp [hch'],
      h.push (keyCmp cmp (dirOrd forward) (it.children.modify k (move k))) k, ?_, ?_, ?_, fun j => ?_⟩
    · rw [heapOf_pushChild]
      change Option.map _ (heapOf forward it) = _
      rw [hh]
      rfl
    · simpa using hwf''
    · exact hperm.nodup_iff.mpr (List.nodup_append.mpr ⟨hnd, List.nodup_singleton k,
        fun a ha b hb => by rw [List.mem_singleton] at hb; rintro rfl; exact hnotin (hb ▸ ha)⟩)
    · rw [children_pushChild, hperm.mem_iff, List.mem_append, List.mem_singleton, hmem]
      by_cases hjk : j < k
      · simp [hjk, hvalid j hjk, show j ≠ k by omega, show j < k + 1 by omega]
      · by_cases hjk' : j = k
        · subst hjk'
          simp [hk_valid]
        · simp [hjk, hjk', show ¬j < k + 1 by omega]
  · rename_i hk_invalid
    refine ⟨hcur, hdir, hpsm, hch', h, hh, hwf', hnd, fun j => ?_⟩
    rw [hmem]
    by_cases hjk : j < k
    · simp [hjk, hvalid j hjk, show j < k + 1 by omega]
    · by_cases hjk' : j = k
      · subst hjk'
        simp [hk_invalid]
      · simp [hjk, show ¬j < k + 1 by omega]

/-- The loop after its first `k` turns. -/
theorem repositioned_foldl {forward : Bool} {move : ℕ → Cursor κ ν → Cursor κ ν}
    {it₀ : MergingIterator κ ν} (h0 : Repositioned cmp forward move it₀ 0 it₀)
    (hn : it₀.children.length ≤ kMaxSizet) :
    ∀ k ≤ it₀.children.length,
      Repositioned cmp forward move it₀ k ((List.range k).foldl (repositionStep cmp forward move) it₀)
  | 0, _ => h0
  | k + 1, hk => by
    rw [List.range_succ, List.foldl_append, List.foldl_cons, List.foldl_nil]
    exact (repositioned_foldl h0 hn k (by omega)).step (by omega) hn

variable (cmp) in
/-- The loop moves every child and leaves the valid ones in the heap of the direction. -/
theorem repositionChildren_spec {forward : Bool} (move : ℕ → Cursor κ ν → Cursor κ ν)
    {it₀ : MergingIterator κ ν} {h₀ : BinaryHeap ℕ} (hh : heapOf forward it₀ = some h₀)
    (hnil : h₀.data = []) (hn : it₀.children.length ≤ kMaxSizet) :
    let it := repositionChildren cmp forward move it₀
    it.current = it₀.current ∧ it.direction = it₀.direction ∧
      it.prefixSeekMode = it₀.prefixSeekMode ∧ it.children = it₀.children.mapIdx move ∧
      ∃ h, heapOf forward it = some h ∧ HoldsValid (keyCmp cmp (dirOrd forward)) it.children h := by
  have hr : Repositioned cmp forward move it₀ it₀.children.length
      (repositionChildren cmp forward move it₀) :=
    repositioned_foldl (repositioned_zero hh hnil) hn _ (le_refl _)
  obtain ⟨hcur, hdir, hpsm, hch, h, hh', hwf, hnd, hmem⟩ := hr
  have hch' : (repositionChildren cmp forward move it₀).children = it₀.children.mapIdx move := by
    rw [hch]
    apply List.ext_getElem (by simp)
    intro j h1 _
    simp only [List.getElem_mapIdx]
    rw [if_pos (by simpa using h1)]
  refine ⟨hcur, hdir, hpsm, hch', h, hh', hwf, hnd, fun j => ?_⟩
  rw [hmem, hch']
  simp only [List.length_mapIdx]

/-! ## Taking the top child back -/

/-- `Next` and `Prev` after moving the top child: `replace_top` takes it back
while it is valid, and `pop` drops it when it ran out. -/
theorem holdsValid_step {o : Ordering} (ho : o ≠ .eq) {cs : List (Cursor κ ν)}
    {h : BinaryHeap ℕ} (hH : HoldsValid (keyCmp cmp o) cs h) (hne : h.data ≠ [])
    (f : Cursor κ ν → Cursor κ ν) :
    HoldsValid (keyCmp cmp o) (cs.modify h.top f)
      (if (childAt (cs.modify h.top f) h.top).valid then
        h.replaceTop (keyCmp cmp o (cs.modify h.top f)) h.top
      else h.pop (keyCmp cmp o (cs.modify h.top f))) := by
  -- only the top child moved, so only pairs with the top compare differently
  have hagree : ∀ a b, a ≠ h.top → b ≠ h.top →
      keyCmp cmp o (cs.modify h.top f) a b = keyCmp cmp o cs a b := fun a b ha hb =>
    keyCmp_congr (childAt_modify_of_ne f (Ne.symm ha)) (childAt_modify_of_ne f (Ne.symm hb))
  have hvalid_ne : ∀ j, j ≠ h.top →
      (childAt (cs.modify h.top f) j).valid = (childAt cs j).valid := fun j hj => by
    rw [childAt_modify_of_ne f (Ne.symm hj)]
  have hcons := data_eq_top_cons hne
  have htop : h.top < cs.length ∧ (childAt cs h.top).valid = true :=
    (hH.mem h.top).mp (by rw [hcons]; exact List.mem_cons_self ..)
  split
  · rename_i hvalid
    obtain ⟨hwf, hperm⟩ := replaceTop_root_wf hH.wf hH.nodup hne hagree (keyCmp_lawful ho _)
    refine ⟨hwf, hperm.nodup_iff.mpr hH.nodup, fun j => ?_⟩
    rw [hperm.mem_iff, hH.mem, List.length_modify]
    by_cases hj : j = h.top
    · rw [hj, hvalid, htop.2]
    · rw [hvalid_ne j hj]
  · rename_i hinvalid
    obtain ⟨hwf, hperm⟩ := pop_root_wf hH.wf hH.nodup hne hagree (keyCmp_lawful ho _)
    have hnd := hH.nodup
    rw [hcons, List.nodup_cons] at hnd
    refine ⟨hwf, hperm.nodup_iff.mpr hnd.2, fun j => ?_⟩
    rw [hperm.mem_iff, List.length_modify]
    by_cases hj : j = h.top
    · rw [hj]
      simp [hnd.1, hinvalid]
    · have hmem : j ∈ h.data.tail ↔ j ∈ h.data := by
        conv_rhs => rw [hcons]
        simp [hj]
      rw [hmem, hH.mem, hvalid_ne j hj]

/-! ## Turning around -/

omit [Std.TransCmp cmp] in
theorem turnChild_current {forward : Bool} {target : κ} {current : Option ℕ} {i : ℕ}
    (h : current = some i) (c : Cursor κ ν) : turnChild cmp forward target current i c = c :=
  if_pos h.symm

omit [Std.TransCmp cmp] in
/-- A child that holds no key equal to the target is only sought, never stepped. -/
theorem turnChild_of_ne {forward : Bool} {target : κ} {current : Option ℕ} {j : ℕ} {c : Cursor κ ν}
    (hj : some j ≠ current) (hne : ∀ x ∈ c.entries, cmp target x.1 ≠ .eq) :
    turnChild cmp forward target current j c =
      if forward then c.seek cmp target else c.seekForPrev cmp target := by
  unfold turnChild
  rw [if_neg hj]
  dsimp only
  rw [if_neg]
  intro h
  rw [Bool.and_eq_true, beq_iff_eq] at h
  obtain ⟨hvalid, heq⟩ := h
  have hentries : (if forward then c.seek cmp target else c.seekForPrev cmp target).entries = c.entries := by
    cases forward <;> rfl
  have hmem := List.mem_of_getElem? (Cursor.entry_of_valid hvalid)
  rw [hentries] at hmem
  exact hne _ hmem heq

omit [Std.TransCmp cmp] in
theorem Next_eq_of_ne {it : MergingIterator κ ν} (h : it.direction ≠ .kForward) :
    it.Next cmp = (it.SwitchToForward cmp).Next cmp := by
  have hS : ¬(it.SwitchToForward cmp).direction ≠ .kForward := by simp [MergingIterator.SwitchToForward]
  unfold MergingIterator.Next
  rw [if_pos h, if_neg hS]

omit [Std.TransCmp cmp] in
theorem direction_SwitchToReverse (it : MergingIterator κ ν) :
    (it.SwitchToReverse cmp).direction = .kReverse := by
  unfold MergingIterator.SwitchToReverse
  dsimp only
  split <;> rfl

omit [Std.TransCmp cmp] in
theorem Prev_eq_of_ne {it : MergingIterator κ ν} (h : it.direction ≠ .kReverse) :
    it.Prev cmp = (it.SwitchToReverse cmp).Prev cmp := by
  have hS : ¬(it.SwitchToReverse cmp).direction ≠ .kReverse := by
    simp [direction_SwitchToReverse]
  unfold MergingIterator.Prev
  rw [if_pos h, if_neg hS]

omit [Inhabited κ] [Inhabited ν] [Std.TransCmp cmp] in
theorem children_InitMaxHeap (it : MergingIterator κ ν) : it.InitMaxHeap.children = it.children := by
  unfold InitMaxHeap
  split <;> rfl

omit [Inhabited κ] [Inhabited ν] [Std.TransCmp cmp] in
theorem current_InitMaxHeap (it : MergingIterator κ ν) : it.InitMaxHeap.current = it.current := by
  unfold InitMaxHeap
  split <;> rfl

omit [Inhabited κ] [Inhabited ν] [Std.TransCmp cmp] in
/-- `InitMaxHeap` after `ClearHeaps` leaves an empty max-heap. -/
theorem maxHeap_InitMaxHeap (it : MergingIterator κ ν) :
    ∃ h, it.ClearHeaps.InitMaxHeap.maxHeap = some h ∧ h.data = [] := by
  unfold InitMaxHeap ClearHeaps
  cases it.maxHeap with
  | none => exact ⟨_, rfl, rfl⟩
  | some h => exact ⟨_, rfl, rfl⟩

end MergingIterator

end HapDB
