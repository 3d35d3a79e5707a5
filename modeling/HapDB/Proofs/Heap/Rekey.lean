import HapDB.Proofs.Heap.BinaryHeap

/-!
# A heap whose comparator moves

A heap of `MergingIterator` holds children and compares their current keys,
so its comparator changes whenever a child moves.  Two cases occur.

* A child outside the heap moves: the comparator keeps its value on the
  heap's elements, and so does `WF` (`WF.congr`).
* The child at the root moves: the comparator keeps its value on every pair
  that does not involve the root's element.  The pairs off the root stay in
  order (`WF.orderedExcept_root`, `WF.cacheValid_root`), which is all that a
  sift from the root needs, so `replace_top` of the root with itself and `pop`
  restore the heap for the new comparator (`replaceTop_root_wf`,
  `pop_root_wf`).
-/

namespace HapDB

namespace BinaryHeap

open HeapOrder

variable {T : Type*} {cmp cmp' : T → T → Bool}

/-- `WF` reads the comparator on the heap's elements only. -/
theorem WF.congr {h : BinaryHeap T} (hwf : WF cmp h)
    (hagree : ∀ a ∈ h.data, ∀ b ∈ h.data, cmp' a b = cmp a b) : WF cmp' h := by
  refine ⟨fun i hi h0 => ?_, hwf.length_le, fun hin => ?_⟩
  · rw [hagree _ (List.getElem_mem _) _ (List.getElem_mem _)]
    exact hwf.ordered i hi h0
  · have m := hwf.cache hin
    refine ⟨m.lt_length, m.pos, m.parent, fun s hs h0 hps => ?_⟩
    rw [hagree _ (List.getElem_mem _) _ (List.getElem_mem _)]
    exact m.max s hs h0 hps

variable [Inhabited T]

/-- A heap that is not empty is its top followed by the rest. -/
theorem data_eq_top_cons {h : BinaryHeap T} (hne : h.data ≠ []) : h.data = h.top :: h.data.tail := by
  obtain ⟨a, t, hat⟩ := List.exists_cons_of_ne_nil hne
  simp [top, hat]

section Root

variable {h : BinaryHeap T} (hwf : WF cmp h) (hnd : h.data.Nodup) (hne : h.data ≠ [])
  (hagree : ∀ a b, a ≠ h.top → b ≠ h.top → cmp' a b = cmp a b)
include hwf hnd hne hagree

omit hwf hagree in
/-- Off the root, no position of a vector without duplicates holds the top. -/
theorem getElem_ne_top {i : ℕ} (hi : i < h.data.length) (h0 : 0 < i) : h.data[i] ≠ h.top := by
  have hlen : 0 < h.data.length := by omega
  have htop : h.top = h.data[0] := by
    conv_rhs => rw [List.getElem_of_eq (data_eq_top_cons hne)]
    rfl
  rw [htop]
  intro heq
  have := (List.Nodup.getElem_inj_iff hnd).mp heq
  omega

theorem WF.orderedExcept_root : OrderedExcept cmp' h.data 0 := by
  intro i hi h0 _ hp0
  rw [hagree _ _ (getElem_ne_top hnd hne (by omega) (Nat.pos_of_ne_zero hp0)) (getElem_ne_top hnd hne hi h0)]
  exact hwf.ordered i hi h0

/-- The cache compares the root's children, neither of which holds the root's element. -/
theorem WF.cacheValid_root : CacheValid cmp' h.data h.rootCmpCache := by
  intro hin
  have m := hwf.cache hin
  refine ⟨m.lt_length, m.pos, m.parent, fun s hs h0 hps => ?_⟩
  rw [hagree _ _ (getElem_ne_top hnd hne m.lt_length m.pos) (getElem_ne_top hnd hne hs h0)]
  exact m.max s hs h0 hps

/-- `replace_top` of the root with itself sifts it down to its place for the new comparator. -/
theorem replaceTop_root_wf (hlt : Lawful cmp') :
    WF cmp' (h.replaceTop cmp' h.top) ∧ (h.replaceTop cmp' h.top).data.Perm h.data := by
  have hset : h.data.set 0 h.top = h.data := by
    conv_rhs => rw [data_eq_top_cons hne]
    conv_lhs => rw [data_eq_top_cons hne]
    rfl
  unfold replaceTop
  simp only [hset]
  exact downheap_root_wf hlt h hne hwf.length_le (hwf.orderedExcept_root hnd hne hagree)
    (hwf.cacheValid_root hnd hne hagree)

/-- `pop` takes out the root and restores the heap for the new comparator. -/
theorem pop_root_wf (hlt : Lawful cmp') :
    WF cmp' (h.pop cmp') ∧ (h.pop cmp').data.Perm h.data.tail := by
  have ha := agreeOffRoot_pop h.data h.data.getLast!
  have hperm0 := pop_data_perm hne
  have hlen : ((h.data.set 0 h.data.getLast!).dropLast).length ≤ kMaxSizet :=
    ha.length_le.trans hwf.length_le
  -- the pairs off the root of the shortened vector are pairs off the root before
  have hex : OrderedExcept cmp' ((h.data.set 0 h.data.getLast!).dropLast) 0 := by
    intro i hi h0 hi0 hp0
    have hex0 := hwf.orderedExcept_root hnd hne hagree
    have hi' : i < h.data.length := Nat.lt_of_lt_of_le hi ha.length_le
    rw [ha.getElem_eq i hi hi' h0, ha.getElem_eq _ (by omega) (by omega) (Nat.pos_of_ne_zero hp0)]
    exact hex0 i hi' h0 hi0 hp0
  unfold pop
  dsimp only
  split
  · rename_i hfull
    have hne' : (h.data.set 0 h.data.getLast!).dropLast ≠ [] := by
      simpa [empty] using hfull
    obtain ⟨hwf', hperm⟩ := downheap_root_wf hlt
      { h with data := (h.data.set 0 h.data.getLast!).dropLast } hne' hlen hex
      (ha.cacheValid (hwf.cacheValid_root hnd hne hagree))
    exact ⟨hwf', hperm.trans hperm0⟩
  · rename_i hempty
    have hnil : (h.data.set 0 h.data.getLast!).dropLast = [] := by
      simpa [empty] using hempty
    refine ⟨wf_resetRootCmpCache ?_ hlen, hperm0⟩
    dsimp only
    rw [hnil]
    exact ordered_nil

end Root

end BinaryHeap

end HapDB
