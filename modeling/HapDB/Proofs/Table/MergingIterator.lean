import HapDB.Proofs.Table.MergingHeap
import HapDB.Lib.SortedUnion

/-!
# The merging iterator walks the sorted union

Over children that range over strictly sorted lists sharing no key, every
sequence of positioning calls leaves `MergingIterator` where a cursor over the
sorted union of the lists stands, with the same key and value
(`merging_iterates_as_union_cursor`).  Direction switches included, `Next`
and `Prev` move one entry of the union.

## Strategy

The iterator stands at a position `m` of the union `U`, going one way or the
other.

* Going forward (`Fwd`), each child stands at its first entry not before
  position `m` (`fwdChildren`), and the min-heap holds the valid children
  (`HoldsValid`).  Its top is then the child that holds `U[m]`
  (`eq_getElem_of_le_heads`), and the union cursor stands at `m`.
* Going back (`Rev`), each child stands at its last entry before position `m`
  (`revChildren`), the max-heap holds the valid children, its top holds
  `U[m - 1]`, and the union cursor stands at `m - 1`, or past the end when
  `m = 0`.

A seek moves every child by the same cut and rebuilds a heap: the loop over
the children (`repositionChildren_spec`) gives `Fwd` or `Rev` at the count of
the cut in `U` (`below_countP`).  `Next` going forward moves only the child
that holds `U[m]` (`countP_below_of_mem`), and the heap takes it back with
`replace_top` or `pop` (`holdsValid_step`).  A turn moves every
other child past `key()`; no child holds that key but the current one, so the
step past an equal key never fires and the current child stays the top.
-/

namespace HapDB

namespace MergingIterator

open BinaryHeap HeapOrder

variable {κ ν : Type*} [Inhabited κ] [Inhabited ν] {cmp : κ → κ → Ordering} [Std.TransCmp cmp]

/-! ## Where the children stand -/

variable (cmp) in
/-- The children at position `m` of the union going forward: each list at its
first entry not before position `m`. -/
def fwdChildren (ls : List (List (κ × ν))) (m : ℕ) : List (Cursor κ ν) :=
  ls.map fun l => ⟨l, l.countP fun e => below cmp (sortedUnion cmp ls) m e.1⟩

/-- Where `SeekForPrev` leaves a cursor with `n` entries not above its
target: on the last of them, or past the end when there is none. -/
def lastBefore (n len : ℕ) : ℕ := if n = 0 then len else n - 1

theorem lastBefore_of_pos {n len : ℕ} (hn : 0 < n) : lastBefore n len = n - 1 :=
  if_neg (Nat.pos_iff_ne_zero.mp hn)

theorem lastBefore_self (n : ℕ) : lastBefore n n = n - 1 := by
  unfold lastBefore
  split <;> omega

/-- Going back, the position is inside the list only after the start, on the entry before. -/
theorem pos_of_lastBefore_lt {m p len : ℕ} (hp : p = lastBefore m len) (hv : p < len) :
    0 < m ∧ p = m - 1 := by
  unfold lastBefore at hp
  split at hp <;> omega

variable (cmp) in
/-- The children at position `m` going back: each list at its last entry
before position `m`. -/
def revChildren (ls : List (List (κ × ν))) (m : ℕ) : List (Cursor κ ν) :=
  ls.map fun l => ⟨l, lastBefore (l.countP fun e => below cmp (sortedUnion cmp ls) m e.1) l.length⟩

omit [Inhabited κ] [Inhabited ν] in
theorem childAt_map {ls : List (List (κ × ν))} {f : List (κ × ν) → ℕ} {j : ℕ} (hj : j < ls.length) :
    childAt (ls.map fun l => (⟨l, f l⟩ : Cursor κ ν)) j = ⟨ls[j], f ls[j]⟩ := by
  simp [childAt, List.getD_eq_getElem?_getD, hj]

omit [Inhabited κ] [Inhabited ν] in
theorem valid_lastBefore {l : List (κ × ν)} {n : ℕ} (hn : n ≤ l.length) :
    (⟨l, lastBefore n l.length⟩ : Cursor κ ν).valid = decide (0 < n) := by
  unfold lastBefore Cursor.valid
  split <;> simp <;> omega

theorem entry_of_lt {l : List (κ × ν)} {p : ℕ} (hp : p < l.length) : (⟨l, p⟩ : Cursor κ ν).entry = l[p] := by
  simp [Cursor.entry, List.getD_eq_getElem?_getD, hp]

variable (cmp) in
/-- Going forward at position `m` of the union. -/
structure Fwd (ls : List (List (κ × ν))) (it : MergingIterator κ ν) (m : ℕ) : Prop where
  le : m ≤ (sortedUnion cmp ls).length
  direction : it.direction = .kForward
  children : it.children = fwdChildren cmp ls m
  heap : HoldsValid (minCmp cmp) it.children it.minHeap
  current : it.current = it.CurrentForward

variable (cmp) in
/-- Going back at position `m` of the union: the entry before `m` is the current one. -/
structure Rev (ls : List (List (κ × ν))) (it : MergingIterator κ ν) (m : ℕ) : Prop where
  le : m ≤ (sortedUnion cmp ls).length
  direction : it.direction = .kReverse
  children : it.children = revChildren cmp ls m
  heap : ∃ h, it.maxHeap = some h ∧ HoldsValid (maxCmp cmp) it.children h
  current : it.current = it.CurrentReverse

variable (cmp) in
/-- The iterator stands where a cursor over the union stands: going forward at
`m`, the cursor is at `m`; going back at `m`, it is on the entry before `m`. -/
def Refines (ls : List (List (κ × ν))) (it : MergingIterator κ ν) (c : Cursor κ ν) : Prop :=
  (∃ m, Fwd cmp ls it m ∧ c = ⟨sortedUnion cmp ls, m⟩) ∨
    ∃ m, Rev cmp ls it m ∧ c = ⟨sortedUnion cmp ls, lastBefore m (sortedUnion cmp ls).length⟩

omit [Std.TransCmp cmp] in
theorem Refines.children_entries {ls : List (List (κ × ν))} {it : MergingIterator κ ν} {c : Cursor κ ν}
    (h : Refines cmp ls it c) : it.children.map Cursor.entries = ls := by
  rcases h with ⟨m, hF, -⟩ | ⟨m, hR, -⟩
  · rw [hF.children]
    simp [fwdChildren, Function.comp_def]
  · rw [hR.children]
    simp [revChildren, Function.comp_def]

omit [Std.TransCmp cmp] in
theorem Refines.entries {ls : List (List (κ × ν))} {it : MergingIterator κ ν} {c : Cursor κ ν}
    (h : Refines cmp ls it c) : c.entries = sortedUnion cmp ls := by
  rcases h with ⟨m, -, rfl⟩ | ⟨m, -, rfl⟩ <;> rfl

/-- The constructor, over children that stand unpositioned at the end of
their lists, goes forward at the end of the union. -/
theorem new_fwd {ls : List (List (κ × ν))} (hn : ls.length ≤ kMaxSizet) (prefixSeekMode : Bool) :
    Fwd cmp ls (new cmp (ls.map fun l => Cursor.mk l l.length) prefixSeekMode)
      (sortedUnion cmp ls).length := by
  let it₀ : MergingIterator κ ν :=
    ⟨ls.map fun l => Cursor.mk l l.length, none, .kForward, BinaryHeap.new, none, prefixSeekMode⟩
  obtain ⟨-, hdir, -, hch', h', hh', hH'⟩ := repositionChildren_spec cmp (fun _ c => c)
    (show heapOf true it₀ = some BinaryHeap.new from rfl) rfl (by simpa [it₀] using hn)
  -- past the end of the union every entry of a list is counted
  have hchildren : it₀.children.mapIdx (fun _ c => c) = fwdChildren cmp ls (sortedUnion cmp ls).length := by
    apply List.ext_getElem (by simp [it₀, fwdChildren])
    intro j h1 h2
    simp [it₀, fwdChildren, countP_below_of_le (le_refl (sortedUnion cmp ls).length)]
  rw [hchildren] at hch'
  have hdata : (repositionChildren cmp true (fun _ c => c) it₀).minHeap = h' := by
    simpa [heapOf] using hh'
  rw [← hdata] at hH'
  exact ⟨le_refl _, hdir, hch', hH', rfl⟩

section Lists

variable {ls : List (List (κ × ν))}
  (hsorted : ∀ l ∈ ls, l.Pairwise fun a b => cmp a.1 b.1 = .lt)
  (hU : (sortedUnion cmp ls).Pairwise fun a b => cmp a.1 b.1 = .lt)
include hsorted hU

/-- Going forward before the end, the top of the heap is the child that holds
the entry at `m`. -/
theorem top_fwd {m : ℕ} {h : BinaryHeap ℕ} (hH : HoldsValid (minCmp cmp) (fwdChildren cmp ls m) h)
    (hm : m < (sortedUnion cmp ls).length) :
    h.data ≠ [] ∧ ∃ hi : h.top < ls.length,
      ls[h.top][ls[h.top].countP fun e => below cmp (sortedUnion cmp ls) m e.1]? =
        some (sortedUnion cmp ls)[m] := by
  -- the child that holds the entry at `m` is valid, so the heap is not empty
  obtain ⟨l, hl, hmem⟩ := (mem_sortedUnion cmp).mp (List.getElem_mem hm)
  obtain ⟨j, hj, rfl⟩ := List.mem_iff_getElem.mp hl
  obtain ⟨q, hq, -, hcount, -⟩ :=
    countP_below_of_mem hU (hsorted _ hl) (subset_sortedUnion hl) hm hmem
  have hjin : j ∈ h.data := (hH.mem j).mpr ⟨by simpa [fwdChildren] using hj, by
    rw [fwdChildren, childAt_map hj, hcount]
    simpa [Cursor.valid] using hq⟩
  have hne : h.data ≠ [] := List.ne_nil_of_mem hjin
  obtain ⟨htop_in, hmax⟩ := top_isMax (keyCmp_lawful (by decide) _) hH.wf hne
  obtain ⟨hi, hvalid⟩ := (hH.mem h.top).mp htop_in
  simp only [fwdChildren, List.length_map] at hi
  rw [fwdChildren, childAt_map hi] at hvalid
  have hp : ls[h.top].countP (fun e => below cmp (sortedUnion cmp ls) m e.1) < ls[h.top].length := by
    simpa [Cursor.valid] using hvalid
  refine ⟨hne, hi, ?_⟩
  -- no valid child is below the top, so the top's entry is the least next entry
  have hU' := eq_getElem_of_le_heads hsorted hU (List.getElem_mem hi)
    (List.getElem?_eq_getElem hp) fun l' hl' x hx => by
      obtain ⟨j', hj', rfl⟩ := List.mem_iff_getElem.mp hl'
      obtain ⟨hp', hpx⟩ := List.getElem?_eq_some_iff.mp hx
      have hj'in : j' ∈ h.data := (hH.mem j').mpr ⟨by simpa [fwdChildren] using hj', by
        rw [fwdChildren, childAt_map hj']
        simpa [Cursor.valid] using hp'⟩
      have hlt := hmax j' (Multiset.mem_coe.mpr hj'in)
      simp only [keyCmp, fwdChildren, childAt_map hi, childAt_map hj', Cursor.key,
        entry_of_lt hp, entry_of_lt hp', hpx, beq_eq_false_iff_ne] at hlt
      exact hlt
  rw [List.getElem?_eq_getElem hm] at hU'
  rw [List.getElem?_eq_getElem hp, hU']

/-- Going back after the start, the top of the heap is the child that holds
the entry before `m`. -/
theorem top_rev {m : ℕ} {h : BinaryHeap ℕ} (hH : HoldsValid (maxCmp cmp) (revChildren cmp ls m) h)
    (hm0 : 0 < m) (hm : m ≤ (sortedUnion cmp ls).length) :
    h.data ≠ [] ∧ ∃ hi : h.top < ls.length,
      0 < ls[h.top].countP (fun e => below cmp (sortedUnion cmp ls) m e.1) ∧
      ls[h.top][ls[h.top].countP (fun e => below cmp (sortedUnion cmp ls) m e.1) - 1]? =
        some (sortedUnion cmp ls)[m - 1] := by
  have hk : m - 1 < (sortedUnion cmp ls).length := by omega
  -- the child that holds the entry before `m` is valid, so the heap is not empty
  obtain ⟨l, hl, hmem⟩ := (mem_sortedUnion cmp).mp (List.getElem_mem hk)
  obtain ⟨j, hj, rfl⟩ := List.mem_iff_getElem.mp hl
  obtain ⟨q, hq, -, -, hcount⟩ :=
    countP_below_of_mem hU (hsorted _ hl) (subset_sortedUnion hl) hk hmem
  rw [Nat.sub_add_cancel hm0] at hcount
  have hvalid_of : ∀ j' (hj' : j' < ls.length),
      0 < ls[j'].countP (fun e => below cmp (sortedUnion cmp ls) m e.1) → j' ∈ h.data :=
    fun j' hj' hc => (hH.mem j').mpr ⟨by simpa [revChildren] using hj', by
      rw [revChildren, childAt_map hj', valid_lastBefore List.countP_le_length]
      simpa using hc⟩
  have hne : h.data ≠ [] := List.ne_nil_of_mem (hvalid_of j hj (by omega))
  obtain ⟨htop_in, hmax⟩ := top_isMax (keyCmp_lawful (by decide) _) hH.wf hne
  obtain ⟨hi, hvalid⟩ := (hH.mem h.top).mp htop_in
  simp only [revChildren, List.length_map] at hi
  rw [revChildren, childAt_map hi, valid_lastBefore List.countP_le_length] at hvalid
  have hc : 0 < ls[h.top].countP (fun e => below cmp (sortedUnion cmp ls) m e.1) := by
    simpa using hvalid
  have hp : ls[h.top].countP (fun e => below cmp (sortedUnion cmp ls) m e.1) - 1 < ls[h.top].length := by
    have := List.countP_le_length (p := fun e => below cmp (sortedUnion cmp ls) m e.1) (l := ls[h.top])
    omega
  refine ⟨hne, hi, hc, ?_⟩
  -- no valid child is above the top, so the top's entry is the greatest previous entry
  obtain ⟨-, hU'⟩ := eq_getElem_of_ge_lasts hsorted hU hm (List.getElem_mem hi)
    (List.getElem?_eq_getElem hp) hc fun l' hl' x hc' hx => by
      obtain ⟨j', hj', rfl⟩ := List.mem_iff_getElem.mp hl'
      obtain ⟨hp', hpx⟩ := List.getElem?_eq_some_iff.mp hx
      have hlt := hmax j' (Multiset.mem_coe.mpr (hvalid_of j' hj' hc'))
      simp only [keyCmp, revChildren, childAt_map hi, childAt_map hj', Cursor.key,
        lastBefore_of_pos hc, lastBefore_of_pos hc', entry_of_lt hp, entry_of_lt hp', hpx,
        beq_eq_false_iff_ne] at hlt
      exact hlt
  rw [List.getElem?_eq_getElem hk] at hU'
  rw [List.getElem?_eq_getElem hp, hU']

/-- Going forward before the end, the iterator stands on the child that holds
the entry at `m`. -/
theorem Fwd.current_of_lt {it : MergingIterator κ ν} {m : ℕ} (hF : Fwd cmp ls it m)
    (hm : m < (sortedUnion cmp ls).length) :
    it.minHeap.data ≠ [] ∧ it.current = some it.minHeap.top ∧ ∃ hi : it.minHeap.top < ls.length,
      ls[it.minHeap.top][ls[it.minHeap.top].countP fun e => below cmp (sortedUnion cmp ls) m e.1]? =
        some (sortedUnion cmp ls)[m] := by
  have hH := hF.heap
  rw [hF.children] at hH
  obtain ⟨hne, hi, hmem⟩ := top_fwd hsorted hU hH hm
  refine ⟨hne, ?_, hi, hmem⟩
  rw [hF.current, CurrentForward, if_neg (by simpa [BinaryHeap.empty] using hne)]

/-- Going back after the start, the iterator stands on the child that holds
the entry before `m`. -/
theorem Rev.current_of_pos {it : MergingIterator κ ν} {m : ℕ} (hR : Rev cmp ls it m) (hm0 : 0 < m) :
    ∃ h, it.maxHeap = some h ∧ h.data ≠ [] ∧ it.current = some h.top ∧ ∃ hi : h.top < ls.length,
      0 < ls[h.top].countP (fun e => below cmp (sortedUnion cmp ls) m e.1) ∧
      ls[h.top][ls[h.top].countP (fun e => below cmp (sortedUnion cmp ls) m e.1) - 1]? =
        (sortedUnion cmp ls)[m - 1]? := by
  obtain ⟨h, hh, hH⟩ := hR.heap
  rw [hR.children] at hH
  obtain ⟨hne, hi, hc, hmem⟩ := top_rev hsorted hU hH hm0 hR.le
  refine ⟨h, hh, hne, ?_, hi, hc, by rw [hmem, List.getElem?_eq_getElem]⟩
  rw [hR.current, CurrentReverse, hh]
  simp [BinaryHeap.empty, hne]

omit hsorted in
/-- At the start going back no child is valid. -/
theorem Rev.current_of_zero {it : MergingIterator κ ν} (hR : Rev cmp ls it 0) : it.current = none := by
  obtain ⟨h, hh, hH⟩ := hR.heap
  have hnil : h.data = [] := List.eq_nil_iff_forall_not_mem.mpr fun j hj => by
    obtain ⟨hj, hvalid⟩ := (hH.mem j).mp hj
    rw [hR.children] at hj hvalid
    simp only [revChildren, List.length_map] at hj
    rw [revChildren, childAt_map hj,
      countP_below_zero hU (subset_sortedUnion (List.getElem_mem hj))] at hvalid
    simp [lastBefore, Cursor.valid] at hvalid
  rw [hR.current, CurrentReverse, hh]
  simp [BinaryHeap.empty, hnil]

omit [Std.TransCmp cmp] hsorted hU in
/-- At the end going forward no child is valid. -/
theorem Fwd.current_of_end {it : MergingIterator κ ν} {m : ℕ} (hF : Fwd cmp ls it m)
    (hm : (sortedUnion cmp ls).length ≤ m) : it.current = none := by
  have hnil : it.minHeap.data = [] := List.eq_nil_iff_forall_not_mem.mpr fun j hj => by
    obtain ⟨hj, hvalid⟩ := (hF.heap.mem j).mp hj
    rw [hF.children] at hj hvalid
    simp only [fwdChildren, List.length_map] at hj
    rw [fwdChildren, childAt_map hj, countP_below_of_le hm] at hvalid
    simp [Cursor.valid] at hvalid
  rw [hF.current, CurrentForward, if_pos (by simp [BinaryHeap.empty, hnil])]

/-! ### Seeks -/

omit hsorted in
/-- A forward seek puts every child at the count of one cut: the iterator goes
forward at the count of that cut in the union. -/
theorem seekChildren_fwd {it : MergingIterator κ ν} {move : Cursor κ ν → Cursor κ ν} {S : κ → Bool}
    (hS : IsCut cmp S) (hch : it.children.map Cursor.entries = ls) (hn : ls.length ≤ kMaxSizet)
    (hmove : ∀ c, move c = ⟨c.entries, c.entries.countP fun e => S e.1⟩) :
    Fwd cmp ls (it.seekChildren cmp true move) ((sortedUnion cmp ls).countP fun e => S e.1) := by
  have hlen : it.children.length = ls.length := by rw [← hch, List.length_map]
  obtain ⟨-, -, -, hch', h', hh', hH'⟩ := repositionChildren_spec cmp (fun _ => move)
    (show heapOf true it.ClearHeaps = some it.minHeap.clear from rfl)
    (by simp [BinaryHeap.clear, resetRootCmpCache]) (by simpa [ClearHeaps, hlen] using hn)
  have hchildren : it.ClearHeaps.children.mapIdx (fun _ => move) =
      fwdChildren cmp ls ((sortedUnion cmp ls).countP fun e => S e.1) := by
    apply List.ext_getElem (by simp [ClearHeaps, fwdChildren, hlen])
    intro j h1 h2
    have hj : j < ls.length := by simpa [fwdChildren] using h2
    have hj' : j < it.children.length := by omega
    have hls : ls[j] = it.children[j].entries := by simp [← hch]
    simp only [List.getElem_mapIdx, ClearHeaps, fwdChildren, List.getElem_map, hmove, hls]
    rw [countP_below_countP hU (subset_sortedUnion (hls ▸ List.getElem_mem hj)) hS]
  rw [hchildren] at hch'
  have hdata : (repositionChildren cmp true (fun _ => move) it.ClearHeaps).minHeap = h' := by
    simpa [heapOf] using hh'
  rw [← hdata] at hH'
  exact ⟨List.countP_le_length, rfl, hch', hH', rfl⟩

omit hsorted in
/-- A backward seek puts every child on the last entry of one cut: the
iterator goes back at the count of that cut in the union. -/
theorem seekChildren_rev {it : MergingIterator κ ν} {move : Cursor κ ν → Cursor κ ν} {S : κ → Bool}
    (hS : IsCut cmp S) (hch : it.children.map Cursor.entries = ls) (hn : ls.length ≤ kMaxSizet)
    (hmove : ∀ c, move c = ⟨c.entries, lastBefore (c.entries.countP fun e => S e.1) c.entries.length⟩) :
    Rev cmp ls (it.seekChildren cmp false move) ((sortedUnion cmp ls).countP fun e => S e.1) := by
  have hlen : it.children.length = ls.length := by rw [← hch, List.length_map]
  obtain ⟨h₀, hh₀, hnil⟩ := maxHeap_InitMaxHeap it
  obtain ⟨-, -, -, hch', h', hh', hH'⟩ := repositionChildren_spec cmp (fun _ => move)
    (show heapOf false it.ClearHeaps.InitMaxHeap = some h₀ from hh₀) hnil
    (by rw [children_InitMaxHeap]; simpa [ClearHeaps, hlen] using hn)
  have hchildren : it.ClearHeaps.InitMaxHeap.children.mapIdx (fun _ => move) =
      revChildren cmp ls ((sortedUnion cmp ls).countP fun e => S e.1) := by
    rw [children_InitMaxHeap]
    apply List.ext_getElem (by simp [ClearHeaps, revChildren, hlen])
    intro j h1 h2
    have hj : j < ls.length := by simpa [revChildren] using h2
    have hj' : j < it.children.length := by omega
    have hls : ls[j] = it.children[j].entries := by simp [← hch]
    simp only [List.getElem_mapIdx, ClearHeaps, revChildren, List.getElem_map, hmove, hls]
    rw [countP_below_countP hU (subset_sortedUnion (hls ▸ List.getElem_mem hj)) hS]
  rw [hchildren] at hch'
  have hdata : (repositionChildren cmp false (fun _ => move) it.ClearHeaps.InitMaxHeap).maxHeap =
      some h' := hh'
  exact ⟨List.countP_le_length, rfl, hch', ⟨h', hdata, hH'⟩, rfl⟩

/-- The iterator is valid where the cursor is, and then stands on the cursor's entry. -/
theorem Refines.valid_entry {it : MergingIterator κ ν} {c : Cursor κ ν} (h : Refines cmp ls it c) :
    it.Valid = c.valid ∧
      (c.valid = true → (childAt it.children (it.current.getD 0)).entry = c.entry) := by
  rcases h with ⟨m, hF, rfl⟩ | ⟨m, hR, rfl⟩
  · by_cases hm : m < (sortedUnion cmp ls).length
    · obtain ⟨-, hcur, hi, hmem⟩ := hF.current_of_lt hsorted hU hm
      obtain ⟨hp, hpe⟩ := List.getElem?_eq_some_iff.mp hmem
      refine ⟨by simp [MergingIterator.Valid, hcur, Cursor.valid, hm], fun _ => ?_⟩
      rw [hcur, Option.getD_some, hF.children, fwdChildren, childAt_map hi, entry_of_lt hp, hpe,
        entry_of_lt hm]
    · have hcur := hF.current_of_end (Nat.le_of_not_lt hm)
      refine ⟨by simp [MergingIterator.Valid, hcur, Cursor.valid, hm], fun hv => ?_⟩
      simp [Cursor.valid, hm] at hv
  · by_cases hm0 : 0 < m
    · obtain ⟨h, -, -, hcur, hi, hc, hmem⟩ := hR.current_of_pos hsorted hU hm0
      have hk : m - 1 < (sortedUnion cmp ls).length := by have := hR.le; omega
      rw [List.getElem?_eq_getElem hk] at hmem
      obtain ⟨hp, hpe⟩ := List.getElem?_eq_some_iff.mp hmem
      refine ⟨by simp [MergingIterator.Valid, hcur, Cursor.valid, lastBefore_of_pos hm0, hk], fun _ => ?_⟩
      rw [hcur, Option.getD_some, hR.children, revChildren, childAt_map hi, lastBefore_of_pos hc,
        entry_of_lt hp, hpe, lastBefore_of_pos hm0, entry_of_lt hk]
    · obtain rfl : m = 0 := by omega
      have hcur := hR.current_of_zero hU
      refine ⟨by simp [MergingIterator.Valid, hcur, Cursor.valid, lastBefore], fun hv => ?_⟩
      simp [Cursor.valid, lastBefore] at hv

variable (hdisj : ls.Pairwise fun l l' => ∀ e ∈ l, ∀ e' ∈ l', cmp e.1 e'.1 ≠ .eq)
include hdisj

omit [Inhabited κ] [Inhabited ν] in
/-- One entry on going forward: the child that holds the entry at `m` steps. -/
theorem fwdChildren_succ {m i : ℕ} (hm : m < (sortedUnion cmp ls).length) (hi : i < ls.length)
    (hmem : ls[i][ls[i].countP fun e => below cmp (sortedUnion cmp ls) m e.1]? =
      some (sortedUnion cmp ls)[m]) :
    (fwdChildren cmp ls m).modify i Cursor.next = fwdChildren cmp ls (m + 1) := by
  have hin : (sortedUnion cmp ls)[m] ∈ ls[i] := List.mem_of_getElem? hmem
  apply List.ext_getElem (by simp [fwdChildren])
  intro j h1 h2
  have hj : j < ls.length := by simpa [fwdChildren] using h2
  rw [List.getElem_modify]
  simp only [fwdChildren, List.getElem_map]
  split
  · rename_i hij
    subst hij
    obtain ⟨q, -, -, hc, hc'⟩ := countP_below_of_mem hU (hsorted _ (List.getElem_mem hi))
      (subset_sortedUnion (List.getElem_mem hi)) hm hin
    simp [Cursor.next, hc, hc']
  · -- every other child holds no key equal to the entry at `m`
    rename_i hij
    rw [countP_below_succ_of_not_mem hU (subset_sortedUnion (List.getElem_mem hj)) hm
      fun x hx => cmp_ne_eq_of_ne hdisj hj hi (Ne.symm hij) hx hin]

omit [Inhabited κ] [Inhabited ν] in
/-- One entry back going back: the child that holds the entry before `m` steps back. -/
theorem revChildren_pred {m i : ℕ} (hm0 : 0 < m) (hm : m ≤ (sortedUnion cmp ls).length)
    (hi : i < ls.length)
    (hmem : ls[i][ls[i].countP (fun e => below cmp (sortedUnion cmp ls) m e.1) - 1]? =
      (sortedUnion cmp ls)[m - 1]?) :
    (revChildren cmp ls m).modify i Cursor.prev = revChildren cmp ls (m - 1) := by
  obtain ⟨k, rfl⟩ : ∃ k, m = k + 1 := ⟨m - 1, by omega⟩
  have hk : k < (sortedUnion cmp ls).length := by omega
  rw [Nat.add_sub_cancel, List.getElem?_eq_getElem hk] at hmem
  rw [Nat.add_sub_cancel]
  have hin : (sortedUnion cmp ls)[k] ∈ ls[i] := List.mem_of_getElem? hmem
  apply List.ext_getElem (by simp [revChildren])
  intro j h1 h2
  have hj : j < ls.length := by simpa [revChildren] using h2
  rw [List.getElem_modify]
  simp only [revChildren, List.getElem_map]
  split
  · rename_i hij
    subst hij
    obtain ⟨q, -, -, hc, hc'⟩ := countP_below_of_mem hU (hsorted _ (List.getElem_mem hi))
      (subset_sortedUnion (List.getElem_mem hi)) hk hin
    rw [hc, hc', lastBefore_of_pos (Nat.succ_pos q)]
    simp [Cursor.prev, lastBefore]
  · rename_i hij
    rw [countP_below_succ_of_not_mem hU (subset_sortedUnion (List.getElem_mem hj)) hk
      fun x hx => cmp_ne_eq_of_ne hdisj hj hi (Ne.symm hij) hx hin]

/-- Turning forward going back at `m`: the child that holds the entry before
`m` stays on it, every other one goes to its first entry past it. -/
theorem revChildren_turn {m i : ℕ} (hm0 : 0 < m) (hm : m ≤ (sortedUnion cmp ls).length)
    (hi : i < ls.length) (hin : (sortedUnion cmp ls)[m - 1] ∈ ls[i]) :
    (revChildren cmp ls m).mapIdx (turnChild cmp true (sortedUnion cmp ls)[m - 1].1 (some i)) =
      fwdChildren cmp ls (m - 1) := by
  have hk : m - 1 < (sortedUnion cmp ls).length := by omega
  apply List.ext_getElem (by simp [revChildren, fwdChildren])
  intro j h1 h2
  have hj : j < ls.length := by simpa [fwdChildren] using h2
  rw [List.getElem_mapIdx]
  simp only [revChildren, List.getElem_map, fwdChildren]
  by_cases hji : j = i
  · subst hji
    obtain ⟨q, -, -, hq, hq'⟩ := countP_below_of_mem hU (hsorted _ (List.getElem_mem hi))
      (subset_sortedUnion (List.getElem_mem hi)) hk hin
    rw [Nat.sub_add_cancel hm0] at hq'
    rw [turnChild_current rfl, hq', hq, lastBefore_of_pos (Nat.succ_pos q), Nat.succ_sub_one]
  · rw [turnChild_of_ne (by simpa using hji) fun x hx =>
      cmp_ne_eq_of_ne hdisj hi hj (Ne.symm hji) hin hx]
    simp only [if_true, Cursor.seek]
    congr 1
    exact List.countP_congr fun x _ => by rw [below_of_lt hk]

/-- Turning back going forward at `m`: the child that holds the entry at `m`
stays on it, every other one goes to its last entry before it. -/
theorem fwdChildren_turn {m i : ℕ} (hm : m < (sortedUnion cmp ls).length) (hi : i < ls.length)
    (hin : (sortedUnion cmp ls)[m] ∈ ls[i]) :
    (fwdChildren cmp ls m).mapIdx (turnChild cmp false (sortedUnion cmp ls)[m].1 (some i)) =
      revChildren cmp ls (m + 1) := by
  apply List.ext_getElem (by simp [revChildren, fwdChildren])
  intro j h1 h2
  have hj : j < ls.length := by simpa [revChildren] using h2
  rw [List.getElem_mapIdx]
  simp only [revChildren, List.getElem_map, fwdChildren]
  by_cases hji : j = i
  · subst hji
    obtain ⟨q, -, -, hq, hq'⟩ := countP_below_of_mem hU (hsorted _ (List.getElem_mem hi))
      (subset_sortedUnion (List.getElem_mem hi)) hm hin
    rw [turnChild_current rfl, hq', hq, lastBefore_of_pos (Nat.succ_pos q), Nat.succ_sub_one]
  · rw [turnChild_of_ne (by simpa using hji) fun x hx =>
      cmp_ne_eq_of_ne hdisj hi hj (Ne.symm hji) hin hx]
    -- below the next position is "not above the current key" on the union
    have hcount : (ls[j].countP fun e => cmp e.1 (sortedUnion cmp ls)[m].1 != .gt) =
        ls[j].countP fun e => below cmp (sortedUnion cmp ls) (m + 1) e.1 :=
      List.countP_congr fun x hx => by
        rw [below_succ hU hm (subset_sortedUnion (List.getElem_mem hj) x hx)]
    simp only [Bool.false_eq_true, if_false, Cursor.seekForPrev, hcount]
    rfl

/-- `Next` going forward before the end moves one entry on. -/
theorem Fwd.Next {it : MergingIterator κ ν} {m : ℕ} (hF : Fwd cmp ls it m)
    (hm : m < (sortedUnion cmp ls).length) : Fwd cmp ls (it.Next cmp) (m + 1) := by
  obtain ⟨hne, hcur, hi, hmem⟩ := hF.current_of_lt hsorted hU hm
  have hch : it.children.modify it.minHeap.top Cursor.next = fwdChildren cmp ls (m + 1) := by
    rw [hF.children, fwdChildren_succ hsorted hU hdisj hm hi hmem]
  have hstep := holdsValid_step (by decide : Ordering.gt ≠ .eq) hF.heap hne Cursor.next
  rw [hch] at hstep
  have hdir : ¬it.direction ≠ .kForward := by simp [hF.direction]
  simp only [MergingIterator.Next, hdir, if_false, hcur, hch]
  split
  · rename_i hvalid
    rw [if_pos hvalid] at hstep
    exact ⟨by omega, hF.direction, rfl, hstep, rfl⟩
  · rename_i hinvalid
    rw [if_neg hinvalid] at hstep
    exact ⟨by omega, hF.direction, rfl, hstep, rfl⟩

/-- `Prev` going back after the start moves one entry back. -/
theorem Rev.Prev {it : MergingIterator κ ν} {m : ℕ} (hR : Rev cmp ls it m) (hm0 : 0 < m) :
    Rev cmp ls (it.Prev cmp) (m - 1) := by
  obtain ⟨h, hh, hne, hcur, hi, hc, hmem⟩ := hR.current_of_pos hsorted hU hm0
  have hch : it.children.modify h.top Cursor.prev = revChildren cmp ls (m - 1) := by
    rw [hR.children, revChildren_pred hsorted hU hdisj hm0 hR.le hi hmem]
  have hH : HoldsValid (maxCmp cmp) it.children h := by
    obtain ⟨h', hh', hH'⟩ := hR.heap
    rw [hh, Option.some_inj] at hh'
    rw [hh']
    exact hH'
  have hstep := holdsValid_step (by decide : Ordering.lt ≠ .eq) hH hne Cursor.prev
  rw [hch] at hstep
  have hdir : ¬it.direction ≠ .kReverse := by simp [hR.direction]
  simp only [MergingIterator.Prev, hdir, if_false, hcur, hch, hh, Option.map_some]
  have hle : m - 1 ≤ (sortedUnion cmp ls).length := by have := hR.le; omega
  split
  · rename_i hvalid
    rw [if_pos hvalid] at hstep
    exact ⟨hle, hR.direction, rfl, ⟨_, rfl, hstep⟩, rfl⟩
  · rename_i hinvalid
    rw [if_neg hinvalid] at hstep
    exact ⟨hle, hR.direction, rfl, ⟨_, rfl, hstep⟩, rfl⟩

/-- `SwitchToForward` going back after the start: every other child goes past
the current key, the min-heap is rebuilt, and its top is the current child. -/
theorem Rev.SwitchToForward {it : MergingIterator κ ν} {m : ℕ} (hR : Rev cmp ls it m) (hm0 : 0 < m)
    (hn : ls.length ≤ kMaxSizet) : Fwd cmp ls (it.SwitchToForward cmp) (m - 1) := by
  obtain ⟨h, -, -, hcur, hi, hc, hmem⟩ := hR.current_of_pos hsorted hU hm0
  generalize h.top = i at hcur hi hc hmem
  have hk : m - 1 < (sortedUnion cmp ls).length := by have := hR.le; omega
  rw [List.getElem?_eq_getElem hk] at hmem
  obtain ⟨hp, hpe⟩ := List.getElem?_eq_some_iff.mp hmem
  have hin : (sortedUnion cmp ls)[m - 1] ∈ ls[i] := hpe ▸ List.getElem_mem hp
  have hkey : it.key = (sortedUnion cmp ls)[m - 1].1 := by
    rw [key, hcur, Option.getD_some, hR.children, revChildren, childAt_map hi, Cursor.key,
      lastBefore_of_pos hc, entry_of_lt hp, hpe]
  have hlen : it.ClearHeaps.children.length ≤ kMaxSizet := by
    simpa [ClearHeaps, hR.children, revChildren] using hn
  obtain ⟨hcur', -, -, hch', h', hh', hH'⟩ := repositionChildren_spec cmp
    (turnChild cmp true it.key it.current) (show heapOf true it.ClearHeaps = some it.minHeap.clear from rfl)
    (by simp [BinaryHeap.clear, resetRootCmpCache]) hlen
  -- the current child stays on the key, every other one goes to its first key past it
  have hchildren : it.ClearHeaps.children.mapIdx (turnChild cmp true it.key it.current) =
      fwdChildren cmp ls (m - 1) := by
    rw [hkey, hcur, show it.ClearHeaps.children = revChildren cmp ls m from hR.children]
    exact revChildren_turn hsorted hU hdisj hm0 hR.le hi hin
  rw [hchildren] at hch'
  have hdata : (repositionChildren cmp true (turnChild cmp true it.key it.current) it.ClearHeaps).minHeap = h' := by
    simpa [heapOf] using hh'
  have hH : HoldsValid (minCmp cmp) (fwdChildren cmp ls (m - 1)) h' := by
    rw [← hch']
    exact hH'
  -- the top of the new heap holds the current key, so it is the current child
  obtain ⟨hne', htop, htop_mem⟩ := top_fwd hsorted hU hH hk
  have htop_eq : h'.top = i := eq_of_mem_of_mem hdisj htop hi (List.mem_of_getElem? htop_mem) hin
  rw [show it.SwitchToForward cmp = { repositionChildren cmp true (turnChild cmp true it.key it.current)
    it.ClearHeaps with direction := .kForward } from rfl]
  refine ⟨by omega, rfl, hch', by rw [hdata, hch']; exact hH, ?_⟩
  rw [CurrentForward, hdata, if_neg (by simpa [BinaryHeap.empty] using hne'), htop_eq]
  exact hcur'.trans hcur

/-- The first half of `Prev` going forward before the end: every other child
goes before the current key, the max-heap is rebuilt, and its top is the
current child, which prefix seek mode keeps as it is. -/
theorem Fwd.SwitchToReverse {it : MergingIterator κ ν} {m : ℕ} (hF : Fwd cmp ls it m)
    (hm : m < (sortedUnion cmp ls).length) (hn : ls.length ≤ kMaxSizet) :
    Rev cmp ls (it.SwitchToReverse cmp) (m + 1) := by
  obtain ⟨-, hcur, hi, hmem⟩ := hF.current_of_lt hsorted hU hm
  generalize it.minHeap.top = i at hcur hi hmem
  obtain ⟨hp, hpe⟩ := List.getElem?_eq_some_iff.mp hmem
  have hin : (sortedUnion cmp ls)[m] ∈ ls[i] := hpe ▸ List.getElem_mem hp
  have hkey : it.key = (sortedUnion cmp ls)[m].1 := by
    rw [key, hcur, Option.getD_some, hF.children, fwdChildren, childAt_map hi, Cursor.key,
      entry_of_lt hp, hpe]
  have hch0 : it.ClearHeaps.InitMaxHeap.children = fwdChildren cmp ls m := by
    rw [children_InitMaxHeap, ← hF.children]
    rfl
  obtain ⟨h₀, hh₀, hnil⟩ := maxHeap_InitMaxHeap it
  obtain ⟨hcur', -, hpsm', hch', h', hh', hH'⟩ := repositionChildren_spec cmp
    (turnChild cmp false it.key it.current)
    (show heapOf false it.ClearHeaps.InitMaxHeap = some h₀ from hh₀) hnil
    (by rw [hch0]; simpa [fwdChildren] using hn)
  -- the current child stays on the key, every other one goes to its last key before it
  have hchildren : it.ClearHeaps.InitMaxHeap.children.mapIdx (turnChild cmp false it.key it.current) =
      revChildren cmp ls (m + 1) := by
    rw [hch0, hkey, hcur]
    exact fwdChildren_turn hsorted hU hdisj hm hi hin
  rw [hchildren] at hch'
  have hdata : (repositionChildren cmp false (turnChild cmp false it.key it.current)
      it.ClearHeaps.InitMaxHeap).maxHeap = some h' := hh'
  have hH : HoldsValid (maxCmp cmp) (revChildren cmp ls (m + 1)) h' := by
    rw [← hch']
    exact hH'
  have hle : m + 1 ≤ (sortedUnion cmp ls).length := hm
  rw [show it.SwitchToReverse cmp =
    (let it' := { repositionChildren cmp false (turnChild cmp false it.key it.current)
        it.ClearHeaps.InitMaxHeap with direction := .kReverse }
      if !it'.prefixSeekMode then { it' with current := it'.CurrentReverse } else it') from rfl]
  dsimp only
  split
  · exact ⟨hle, rfl, hch', ⟨h', hdata, by rw [hch']; exact hH⟩, rfl⟩
  · -- in prefix seek mode `current_` is kept: the top of the new heap holds the current key
    obtain ⟨hne', htop, -, htop_mem⟩ := top_rev hsorted hU hH (Nat.succ_pos m) hle
    simp only [Nat.add_sub_cancel] at htop_mem
    have htop_eq : h'.top = i :=
      eq_of_mem_of_mem hdisj htop hi (List.mem_of_getElem? htop_mem) hin
    refine ⟨hle, rfl, hch', ⟨h', hdata, by rw [hch']; exact hH⟩, ?_⟩
    simp only [CurrentReverse, hdata, BinaryHeap.empty, List.isEmpty_iff, hne', if_false, htop_eq]
    rw [hcur', current_InitMaxHeap]
    exact hcur

/-- One positioning call keeps the iterator where the cursor over the union
stands, when `Next` and `Prev` are called on a valid iterator only. -/
theorem Refines.apply {it : MergingIterator κ ν} {c : Cursor κ ν} (h : Refines cmp ls it c)
    (hn : ls.length ≤ kMaxSizet) (op : IterOp κ) (hop : op.isStep = true → c.valid = true) :
    Refines cmp ls (it.apply cmp op) (c.apply cmp op) := by
  have hch := h.children_entries
  obtain ⟨E, p⟩ := c
  obtain rfl : E = sortedUnion cmp ls := h.entries
  cases op with
  | seekToFirst =>
    exact Or.inl ⟨_, seekChildren_fwd hU (isCut_const false) hch hn fun c => by simp [Cursor.seekToFirst],
      by simp [Cursor.apply, Cursor.seekToFirst]⟩
  | seekToLast =>
    exact Or.inr ⟨_, seekChildren_rev hU (isCut_const true) hch hn fun c => by
      simp [Cursor.seekToLast, lastBefore_self], by simp [Cursor.apply, Cursor.seekToLast, lastBefore_self]⟩
  | seek t => exact Or.inl ⟨_, seekChildren_fwd hU (isCut_lt t) hch hn fun _ => rfl, rfl⟩
  | seekForPrev t => exact Or.inr ⟨_, seekChildren_rev hU (isCut_le t) hch hn fun _ => rfl, rfl⟩
  | next =>
    have hv : p < (sortedUnion cmp ls).length := by simpa [Cursor.valid] using hop rfl
    rcases h with ⟨m, hF, hcm⟩ | ⟨m, hR, hcm⟩
    · obtain rfl : p = m := (Cursor.mk.inj hcm).2
      exact Or.inl ⟨p + 1, hF.Next hsorted hU hdisj hv, rfl⟩
    · -- going back, `Next` first turns forward, onto the entry before `m`
      obtain ⟨hm0, rfl⟩ := pos_of_lastBefore_lt (Cursor.mk.inj hcm).2 hv
      have hF := (hR.SwitchToForward hsorted hU hdisj hm0 hn).Next hsorted hU hdisj hv
      rw [Nat.sub_add_cancel hm0] at hF
      refine Or.inl ⟨m, ?_, by simp [Cursor.apply, Cursor.next, Nat.sub_add_cancel hm0]⟩
      rw [show it.apply cmp .next = it.Next cmp from rfl, Next_eq_of_ne (by rw [hR.direction]; decide)]
      exact hF
  | prev =>
    have hv : p < (sortedUnion cmp ls).length := by simpa [Cursor.valid] using hop rfl
    rcases h with ⟨m, hF, hcm⟩ | ⟨m, hR, hcm⟩
    · -- going forward, `Prev` first turns back, past the entry at `m`
      obtain rfl : p = m := (Cursor.mk.inj hcm).2
      have hR := (hF.SwitchToReverse hsorted hU hdisj hv hn).Prev hsorted hU hdisj (Nat.succ_pos p)
      rw [Nat.add_sub_cancel] at hR
      refine Or.inr ⟨p, ?_, rfl⟩
      rw [show it.apply cmp .prev = it.Prev cmp from rfl, Prev_eq_of_ne (by rw [hF.direction]; decide)]
      exact hR
    · obtain ⟨hm0, rfl⟩ := pos_of_lastBefore_lt (Cursor.mk.inj hcm).2 hv
      exact Or.inr ⟨m - 1, hR.Prev hsorted hU hdisj hm0, rfl⟩

/-- A sequence of calls that the iterator's contract allows keeps the iterator
where the cursor over the union stands. -/
theorem Refines.run (hn : ls.length ≤ kMaxSizet) (ops : List (IterOp κ)) {it : MergingIterator κ ν}
    {c : Cursor κ ν} (h : Refines cmp ls it c) (hlegal : Cursor.Legal cmp c ops) :
    Refines cmp ls (it.run cmp ops) (c.run cmp ops) := by
  -- induction on the calls, one `Refines.apply` a call
  induction ops generalizing it c with
  | nil => exact h
  | cons op ops ih => exact ih (h.apply hsorted hU hdisj hn op hlegal.1) hlegal.2

end Lists

/-- Over children that range over strictly sorted lists sharing no key, and
start unpositioned, every sequence of calls that an iterator's contract allows
leaves `MergingIterator` where a cursor over the sorted union of the lists
stands: valid when the cursor is, and then on the cursor's key and value.
Turning around included, `Next` and `Prev` move one entry of the union. -/
theorem merging_iterates_as_union_cursor {ls : List (List (κ × ν))}
    (hsorted : ∀ l ∈ ls, l.Pairwise fun a b => cmp a.1 b.1 = .lt)
    (hdisj : ls.Pairwise fun l l' => ∀ e ∈ l, ∀ e' ∈ l', cmp e.1 e'.1 ≠ .eq)
    (hn : ls.length ≤ kMaxSizet) (prefixSeekMode : Bool) (ops : List (IterOp κ))
    (hlegal : Cursor.Legal cmp ⟨sortedUnion cmp ls, (sortedUnion cmp ls).length⟩ ops) :
    let it := (new cmp (ls.map fun l => Cursor.mk l l.length) prefixSeekMode).run cmp ops
    let c := Cursor.run cmp ⟨sortedUnion cmp ls, (sortedUnion cmp ls).length⟩ ops
    it.Valid = c.valid ∧ (c.valid = true → it.key = c.key ∧ it.value = c.value) := by
  intro it c
  have hU := pairwise_sortedUnion hsorted hdisj
  -- the constructor stands where the unpositioned cursor does, past the end
  have h0 : Refines cmp ls (new cmp (ls.map fun l => Cursor.mk l l.length) prefixSeekMode)
      ⟨sortedUnion cmp ls, (sortedUnion cmp ls).length⟩ :=
    Or.inl ⟨_, new_fwd hn prefixSeekMode, rfl⟩
  have hrun : Refines cmp ls it c := Refines.run hsorted hU hdisj hn ops h0 hlegal
  obtain ⟨hvalid, hentry⟩ := hrun.valid_entry hsorted hU
  refine ⟨hvalid, fun hv => ?_⟩
  rw [key, value, Cursor.key, Cursor.value, hentry hv]
  exact ⟨rfl, rfl⟩

/-- Two lists merged: a seek, a step on, two steps back over a turn, a step on
over another, and a `SeekForPrev` followed by `Next`. -/
theorem merging_iterates_as_union_cursor_two_lists :
    let ls : List (List (ℕ × ℕ)) := [[(1, 10), (4, 40)], [(2, 20), (3, 30)]]
    let ops : List (IterOp ℕ) := [.seek 2, .next, .prev, .prev, .next, .seekForPrev 3, .next]
    (∀ l ∈ ls, l.Pairwise fun a b => compare a.1 b.1 = .lt) ∧
      (ls.Pairwise fun l l' => ∀ e ∈ l, ∀ e' ∈ l', compare e.1 e'.1 ≠ .eq) ∧
      ls.length ≤ kMaxSizet ∧
      Cursor.Legal compare ⟨sortedUnion compare ls, (sortedUnion compare ls).length⟩ ops ∧
      let it := (new compare (ls.map fun l => Cursor.mk l l.length) false).run compare ops
      let c := Cursor.run compare ⟨sortedUnion compare ls, (sortedUnion compare ls).length⟩ ops
      it.Valid = c.valid ∧ (c.valid = true → it.key = c.key ∧ it.value = c.value) := by
  intro ls ops
  have hsorted : ∀ l ∈ ls, l.Pairwise fun a b => compare a.1 b.1 = .lt := by decide
  have hdisj : ls.Pairwise fun l l' => ∀ e ∈ l, ∀ e' ∈ l', compare e.1 e'.1 ≠ .eq := by decide
  have hn : ls.length ≤ kMaxSizet := by decide
  have hU : sortedUnion compare ls = [(1, 10), (2, 20), (3, 30), (4, 40)] := by
    simp +decide [ls, sortedUnion, List.mergeSort]
  have hlegal : Cursor.Legal compare ⟨sortedUnion compare ls, (sortedUnion compare ls).length⟩ ops := by
    rw [hU]
    decide
  exact ⟨hsorted, hdisj, hn, hlegal,
    merging_iterates_as_union_cursor hsorted hdisj hn false ops hlegal⟩

end MergingIterator

end HapDB
