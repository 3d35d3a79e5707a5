import HapDB.Util.BinaryHeap
import HapDB.Lib.HeapOrder

/-!
# `BinaryHeap` keeps its order and its cache

Every operation of the heap ends in a vector that is heap ordered for `cmp`
and holds the elements the priority queue of `HeapOrder.Step` holds, and with a
`root_cmp_cache_` that, when it lies inside the vector, names a child of the
root that its sibling is not above (`WF`).

The sifts are the loops of `upheap` and `downheap`.  `upheapLoop_sifted` and
`downheapLoop_sifted` carry `UpOrder` and `DownOrder` from the start of the
loop to its end, one step of the loop being one `move`, and place `v` with
`finish`.  The cache enters only the first round of `downheap` from the root,
where `pickChild` returns it; `pickChild_maxChild` says that whatever it
returns is a child that no sibling is above.  `downheap` keeps the child it
picked only when the hole stayed at the root, and then the root's children are
those it compared (`downheapLoop_stay`).
-/

namespace HapDB

namespace BinaryHeap

open HeapOrder

variable {T : Type*} (cmp : T → T → Bool)

/-- `c` is a child of `index` that no child of `index` is above. -/
structure MaxChild (data : List T) (index c : ℕ) : Prop where
  lt_length : c < data.length
  pos : 0 < c
  parent : (c - 1) / 2 = index
  max : ∀ s (hs : s < data.length), 0 < s → (s - 1) / 2 = index → cmp data[c] data[s] = false

/-- A cache inside the vector names a child of the root that its sibling is
not above. -/
def CacheValid (data : List T) (cache : ℕ) : Prop := cache < data.length → MaxChild cmp data 0 cache

/-- What every operation keeps. -/
structure WF (h : BinaryHeap T) : Prop where
  ordered : Ordered cmp h.data
  length_le : h.data.length ≤ kMaxSizet
  cache : CacheValid cmp h.data h.rootCmpCache

variable {cmp}

/-! ## What the operations start from -/

/-- `l'` is no longer than `l` and holds what `l` holds off the root: so are
the vectors `replace_top` and `pop` hand to `downheap`. -/
structure AgreeOffRoot (l' l : List T) : Prop where
  length_le : l'.length ≤ l.length
  getElem_eq : ∀ i (hi : i < l'.length) (hi' : i < l.length), 0 < i → l'[i] = l[i]

theorem agreeOffRoot_set_zero (l : List T) (x : T) : AgreeOffRoot (l.set 0 x) l :=
  ⟨by simp, fun i _ _ h0 => List.getElem_set_ne (by omega) _⟩

theorem agreeOffRoot_pop (l : List T) (x : T) : AgreeOffRoot ((l.set 0 x).dropLast) l := by
  refine ⟨by simp, fun i hi hi' h0 => ?_⟩
  rw [List.getElem_dropLast, List.getElem_set_ne (by omega)]

/-- The pairs off the root are those of the ordered vector. -/
theorem AgreeOffRoot.orderedExcept {l' l : List T} (ha : AgreeOffRoot l' l)
    (ho : Ordered cmp l) : OrderedExcept cmp l' 0 := by
  intro i hi h0 _ hp0
  have hi' : i < l.length := Nat.lt_of_lt_of_le hi ha.length_le
  rw [ha.getElem_eq i hi hi' h0, ha.getElem_eq _ (by omega) (by omega) (by omega)]
  exact ho i hi' h0

/-- The root's children are those the cache was checked against. -/
theorem AgreeOffRoot.cacheValid {l' l : List T} (ha : AgreeOffRoot l' l) {cache : ℕ}
    (hc : CacheValid cmp l cache) : CacheValid cmp l' cache := by
  intro hin
  have m := hc (Nat.lt_of_lt_of_le hin ha.length_le)
  refine ⟨hin, m.pos, m.parent, fun s hs h0 hps => ?_⟩
  have hs' : s < l.length := Nat.lt_of_lt_of_le hs ha.length_le
  rw [ha.getElem_eq _ hin m.lt_length m.pos, ha.getElem_eq s hs hs' h0]
  exact m.max s hs' h0 hps

variable (cmp) in
/-- The reset cache lies outside every vector a `size_t` can count. -/
theorem cacheValid_kMaxSizet {l : List T} (hlen : l.length ≤ kMaxSizet) :
    CacheValid cmp l kMaxSizet :=
  fun hin => absurd hin (Nat.not_lt.mpr hlen)

/-- A sift down from the root needs only the pairs off the root. -/
theorem downOrder_root {l : List T} (hex : OrderedExcept cmp l 0) (v : T) :
    DownOrder cmp l 0 v :=
  ⟨hex, fun h0 => absurd h0 (lt_irrefl 0), fun _ _ _ _ h0 => absurd h0 (lt_irrefl 0)⟩

/-- A pushed element at the end: only its own pair with its parent may be out
of order, and it has no children. -/
theorem upOrder_append {l : List T} (ho : Ordered cmp l) (v : T) :
    UpOrder cmp (l ++ [v]) l.length v := by
  refine ⟨fun i hi h0 hin _ => ?_, fun c hc h0 hcp _ => ?_, fun c hc h0 hcp => ?_⟩
  · have hi' : i < l.length := by simp at hi; omega
    rw [List.getElem_append_left hi', List.getElem_append_left (by omega)]
    exact ho i hi' h0
  · simp at hc; omega
  · simp at hc; omega

theorem wf_resetRootCmpCache {h : BinaryHeap T} (ho : Ordered cmp h.data)
    (hlen : h.data.length ≤ kMaxSizet) : WF cmp h.resetRootCmpCache :=
  ⟨ho, hlen, cacheValid_kMaxSizet cmp hlen⟩

theorem clear_wf (h : BinaryHeap T) : WF cmp h.clear :=
  wf_resetRootCmpCache ordered_nil (Nat.zero_le _)

theorem new_wf : WF cmp (new : BinaryHeap T) :=
  ⟨ordered_nil, Nat.zero_le _, cacheValid_kMaxSizet cmp (Nat.zero_le _)⟩

variable [Inhabited T]

/-! ## Sift up -/

theorem length_upheapLoop (v : T) (data : List T) (index : ℕ) :
    (upheapLoop cmp v data index).1.length = data.length := by
  fun_induction upheapLoop cmp v data index with
  | case1 => rfl
  | case2 data index _ _ _ ih => rw [ih, List.length_set]
  | case3 => rfl

theorem upheapLoop_sifted (hlt : Lawful cmp) {v : T} {data : List T} {index : ℕ}
    (o : UpOrder cmp data index v) (hindex : index < data.length) :
    Ordered cmp ((upheapLoop cmp v data index).1.set (upheapLoop cmp v data index).2 v) ∧
      ((upheapLoop cmp v data index).1.set (upheapLoop cmp v data index).2 v).Perm
        (data.set index v) := by
  fun_induction upheapLoop cmp v data index with
  | case1 data index hroot parent hstop =>
    -- the parent is not below `v`: `v` stays in the hole
    have hp : parent < data.length := by simp only [parent, getParent]; omega
    have hget : data[parent]! = data[(index - 1) / 2] := getElem!_pos data parent hp
    have hb : cmp data[(index - 1) / 2] v = false := by simpa [hget] using hstop
    exact ⟨o.finish fun _ _ => hb, List.Perm.refl _⟩
  | case2 data index hroot parent hmove ih =>
    have h0 : 0 < index := by simpa [getRoot] using hroot
    have hp : parent < data.length := by simp only [parent, getParent]; omega
    have hget : data[parent]! = data[(index - 1) / 2] := getElem!_pos data parent hp
    have hb : cmp data[(index - 1) / 2] v = true := by simpa [hget] using hmove
    have o' : UpOrder cmp (data.set index data[parent]!) parent v := by
      rw [hget]
      exact o.move hlt h0 hindex hb
    obtain ⟨hord, hperm⟩ := ih o' (by simpa using hp)
    refine ⟨hord, hperm.trans ?_⟩
    rw [hget]
    exact set_set_perm data hp hindex v
  | case3 data index hroot =>
    have h0 : index = 0 := by simpa [getRoot] using hroot
    exact ⟨o.finish fun hpos => absurd h0 (Nat.pos_iff_ne_zero.mp hpos), List.Perm.refl _⟩

/-! ## Sift down -/

/-- The children of `index` are `getLeft index` and the one after it. -/
theorem eq_left_or_right_of_parent {s index : ℕ} (hs : 0 < s) (hp : (s - 1) / 2 = index) :
    s = getLeft index ∨ s = getLeft index + 1 := by
  unfold getLeft
  omega

/-- What `pickChild` returns is a child that no sibling is above: the cache by
its validity, and otherwise the left child unless the right one is above it. -/
theorem pickChild_maxChild (hlt : Lawful cmp) {cache : ℕ} {data : List T} {index : ℕ}
    (hcache : index = 0 → CacheValid cmp data cache) (hleft : getLeft index < data.length) :
    MaxChild cmp data index (pickChild cmp cache data index) := by
  dsimp only [pickChild]
  by_cases hroot : (index == 0 && decide (cache < data.length)) = true
  · rw [if_pos hroot]
    simp only [Bool.and_eq_true, beq_iff_eq, decide_eq_true_eq] at hroot
    obtain ⟨rfl, hin⟩ := hroot
    exact hcache rfl hin
  · rw [if_neg hroot]
    split
    · rename_i hright
      simp only [Bool.and_eq_true, decide_eq_true_eq] at hright
      obtain ⟨hin, hbelow⟩ := hright
      rw [getElem!_pos data _ hleft, getElem!_pos data _ hin] at hbelow
      refine ⟨hin, by omega, by unfold getLeft; omega, fun s hs h0 hps => ?_⟩
      rcases eq_left_or_right_of_parent h0 hps with rfl | rfl
      · exact hlt.asymm hbelow
      · exact hlt.irrefl _
    · rename_i hright
      refine ⟨hleft, by unfold getLeft; omega, by unfold getLeft; omega, fun s hs h0 hps => ?_⟩
      rcases eq_left_or_right_of_parent h0 hps with rfl | rfl
      · exact hlt.irrefl _
      · -- the right child exists, so the comparison was made and failed
        simp only [Bool.and_eq_true, decide_eq_true_eq, not_and] at hright
        rw [getElem!_pos data _ hleft, getElem!_pos data _ hs] at hright
        simpa using hright hs

variable (cmp) in
theorem length_downheapLoop {cache : ℕ} (hc : 0 < cache) (v : T) (data : List T)
    (index picked : ℕ) : (downheapLoop cmp cache hc v data index picked).1.length = data.length := by
  fun_induction downheapLoop cmp cache hc v data index picked with
  | case1 => rfl
  | case2 => rfl
  | case3 data index _ _ _ _ ih => rw [ih, List.length_set]

variable (cmp) in
/-- The hole only moves down. -/
theorem index_le_downheapLoop {cache : ℕ} (hc : 0 < cache) (v : T) (data : List T)
    (index picked : ℕ) : index ≤ (downheapLoop cmp cache hc v data index picked).2.1 := by
  fun_induction downheapLoop cmp cache hc v data index picked with
  | case1 => exact le_refl _
  | case2 => exact le_refl _
  | case3 data index _ _ _ _ ih => exact (index_lt_pickChild cmp hc data index).le.trans ih

theorem downheapLoop_sifted (hlt : Lawful cmp) {cache : ℕ} (hc : 0 < cache) {v : T}
    {data : List T} {index : ℕ} (picked : ℕ) (hcache : index = 0 → CacheValid cmp data cache)
    (o : DownOrder cmp data index v) (hindex : index < data.length) :
    Ordered cmp ((downheapLoop cmp cache hc v data index picked).1.set
        (downheapLoop cmp cache hc v data index picked).2.1 v) ∧
      ((downheapLoop cmp cache hc v data index picked).1.set
        (downheapLoop cmp cache hc v data index picked).2.1 v).Perm (data.set index v) := by
  fun_induction downheapLoop cmp cache hc v data index picked with
  | case1 data index picked hleft =>
    -- no child inside the vector: `v` stays in the hole
    refine ⟨o.finish fun c hc h0c hcp => ?_, List.Perm.refl _⟩
    unfold getLeft at hleft
    omega
  | case2 data index picked hleft pc hstop =>
    have m : MaxChild cmp data index pc := pickChild_maxChild hlt hcache (by omega)
    have hpc : pc < data.length := m.lt_length
    have hb : cmp v data[pc] = false := by
      simpa [getElem!_pos data pc hpc] using hstop
    -- `v` is not below the picked child, which no sibling is above
    exact ⟨o.finish fun s hs h0s hsp => hlt.not_trans hb (m.max s hs h0s hsp), List.Perm.refl _⟩
  | case3 data index picked hleft pc hmove ih =>
    have m : MaxChild cmp data index pc := pickChild_maxChild hlt hcache (by omega)
    have hpc : pc < data.length := m.lt_length
    have hget : data[pc]! = data[pc] := getElem!_pos data pc hpc
    have hb : cmp v data[pc] = true := by simpa [hget] using hmove
    have o' : DownOrder cmp (data.set index data[pc]!) pc v := by
      rw [hget]
      exact o.move hlt hpc m.pos m.parent m.max hb
    -- the hole has left the root, so the cache is not read again
    obtain ⟨hord, hperm⟩ := ih (fun h0 => absurd h0 (Nat.pos_iff_ne_zero.mp m.pos)) o'
      (by simpa using hpc)
    refine ⟨hord, hperm.trans ?_⟩
    rw [hget]
    exact set_set_perm data hpc hindex v

/-- A hole that stays at the root leaves the vector as it was, and the child
the loop picked last is a valid cache: either none was picked, or the root's
children were compared. -/
theorem downheapLoop_stay (hlt : Lawful cmp) {cache : ℕ} (hc : 0 < cache) {v : T}
    {data : List T} {picked : ℕ} (hcache : CacheValid cmp data cache)
    (hpicked : CacheValid cmp data picked)
    (hstay : (downheapLoop cmp cache hc v data 0 picked).2.1 = 0) :
    (downheapLoop cmp cache hc v data 0 picked).1 = data ∧
      CacheValid cmp data (downheapLoop cmp cache hc v data 0 picked).2.2 := by
  revert hstay
  fun_cases downheapLoop cmp cache hc v data 0 picked with
  | case1 hleft => exact fun _ => ⟨rfl, hpicked⟩
  | case2 hleft pc hstop =>
    exact fun _ => ⟨rfl, fun _ => pickChild_maxChild hlt (fun _ => hcache) (by omega)⟩
  | case3 hleft pc hmove =>
    -- the hole moved to a child, and holes only move down
    intro hstay
    have hdown := index_le_downheapLoop cmp hc v (data.set 0 data[pc]!) pc pc
    have hchild := index_lt_pickChild cmp hc data 0
    omega

/-! ## The operations -/

/-- `downheap` from the root of a vector ordered off the root, with a valid
cache: the loop orders it, and the cache it keeps is the child it compared. -/
theorem downheap_root_wf (hlt : Lawful cmp) (h : BinaryHeap T) (hne : h.data ≠ [])
    (hlen : h.data.length ≤ kMaxSizet) (hex : OrderedExcept cmp h.data 0)
    (hc : CacheValid cmp h.data h.rootCmpCache) :
    WF cmp (h.downheap cmp getRoot) ∧ (h.downheap cmp getRoot).data.Perm h.data := by
  have hpos : 0 < h.data.length := List.length_pos_of_ne_nil hne
  have hv : h.data[0]! = h.data[0] := getElem!_pos h.data 0 hpos
  obtain ⟨hord, hperm⟩ := downheapLoop_sifted hlt h.rootCmpCache_pos kMaxSizet
    (fun _ => hc) (downOrder_root hex h.data[0]) hpos
  rw [List.set_getElem_self] at hperm
  have hlen' := length_downheapLoop cmp h.rootCmpCache_pos h.data[0] h.data 0 kMaxSizet
  have hlen'' : ((downheapLoop cmp h.rootCmpCache h.rootCmpCache_pos h.data[0] h.data 0
      kMaxSizet).1.set (downheapLoop cmp h.rootCmpCache h.rootCmpCache_pos h.data[0] h.data 0
      kMaxSizet).2.1 h.data[0]).length ≤ kMaxSizet := by
    rw [List.length_set, hlen']
    exact hlen
  unfold downheap
  simp only [getRoot, hv]
  by_cases hstay : (downheapLoop cmp h.rootCmpCache h.rootCmpCache_pos h.data[0] h.data 0
      kMaxSizet).2.1 = 0
  · -- the hole stayed at the root: the picked child is kept
    rw [if_pos hstay]
    obtain ⟨hdata, hcache⟩ := downheapLoop_stay hlt h.rootCmpCache_pos hc
      (cacheValid_kMaxSizet cmp hlen) hstay
    refine ⟨⟨hord, hlen'', ?_⟩, hperm⟩
    dsimp only
    rw [hstay, hdata]
    exact (agreeOffRoot_set_zero h.data h.data[0]).cacheValid hcache
  · rw [if_neg hstay]
    exact ⟨wf_resetRootCmpCache hord hlen'', hperm⟩

/-- `push` sifts the new last element up; `upheap` resets the cache. -/
theorem push_wf (hlt : Lawful cmp) {h : BinaryHeap T} (hwf : WF cmp h)
    (hlen : h.data.length < kMaxSizet) (value : T) :
    WF cmp (h.push cmp value) ∧ (h.push cmp value).data.Perm (h.data ++ [value]) := by
  have hidx : (h.data ++ [value]).length - 1 = h.data.length := by simp
  have hv : (h.data ++ [value])[h.data.length]! = value := by simp
  obtain ⟨hord, hperm⟩ := upheapLoop_sifted hlt (upOrder_append hwf.ordered value) (by simp)
  rw [List.set_append_right _ _ (le_refl _), Nat.sub_self, List.set_cons_zero] at hperm
  have hlen' : ((upheapLoop cmp value (h.data ++ [value]) h.data.length).1.set
      (upheapLoop cmp value (h.data ++ [value]) h.data.length).2 value).length ≤ kMaxSizet := by
    rw [List.length_set, length_upheapLoop, List.length_append, List.length_singleton]
    exact hlen
  unfold push upheap
  simp only [hidx, hv]
  exact ⟨wf_resetRootCmpCache hord hlen', hperm⟩

variable (cmp) in
@[simp] theorem length_push (h : BinaryHeap T) (value : T) :
    (h.push cmp value).data.length = h.data.length + 1 := by
  simp [push, upheap, resetRootCmpCache, length_upheapLoop]

/-- `replace_top` writes the root and sifts it down; the root's children, and
with them the cache, are untouched. -/
theorem replaceTop_wf (hlt : Lawful cmp) {h : BinaryHeap T} (hwf : WF cmp h) (hne : h.data ≠ [])
    (value : T) :
    WF cmp (h.replaceTop cmp value) ∧
      (h.replaceTop cmp value).data.Perm (value :: h.data.tail) := by
  obtain ⟨a, t, hat⟩ := List.exists_cons_of_ne_nil hne
  have ha := agreeOffRoot_set_zero h.data value
  have hne' : h.data.set 0 value ≠ [] := by simp [hne]
  obtain ⟨hwf', hperm⟩ := downheap_root_wf hlt { h with data := h.data.set 0 value } hne'
    (by simpa using hwf.length_le) (ha.orderedExcept hwf.ordered) (ha.cacheValid hwf.cache)
  refine ⟨hwf', hperm.trans ?_⟩
  simp [hat]

/-- The vector `pop` hands to `downheap`: the last element at the root, then
the last position dropped. -/
theorem pop_data_perm {l : List T} (hne : l ≠ []) : ((l.set 0 l.getLast!).dropLast).Perm l.tail := by
  obtain ⟨a, t, rfl⟩ := List.exists_cons_of_ne_nil hne
  rcases List.eq_nil_or_concat t with rfl | ⟨init, last, rfl⟩
  · simp
  · rw [List.concat_eq_append]
    -- the last element moves to the front of what stays
    have hlast : (a :: (init ++ [last])).getLast! = last := by
      rw [List.getLast!_eq_getLast?_getD, ← List.cons_append, List.getLast?_append]
      simp
    rw [hlast, List.set_cons_zero, ← List.cons_append, List.dropLast_concat, List.tail_cons]
    exact List.perm_append_singleton last init |>.symm

/-- `pop` moves the last element to the root and sifts it down, or resets the
cache of a heap it left empty. -/
theorem pop_wf (hlt : Lawful cmp) {h : BinaryHeap T} (hwf : WF cmp h) (hne : h.data ≠ []) :
    WF cmp (h.pop cmp) ∧ (h.pop cmp).data.Perm h.data.tail := by
  have ha := agreeOffRoot_pop h.data h.data.getLast!
  have hperm0 := pop_data_perm hne
  have hlen : ((h.data.set 0 h.data.getLast!).dropLast).length ≤ kMaxSizet :=
    ha.length_le.trans hwf.length_le
  unfold pop
  dsimp only
  split
  · rename_i hfull
    have hne' : (h.data.set 0 h.data.getLast!).dropLast ≠ [] := by
      simpa [empty] using hfull
    obtain ⟨hwf', hperm⟩ := downheap_root_wf hlt
      { h with data := (h.data.set 0 h.data.getLast!).dropLast } hne' hlen
      (ha.orderedExcept hwf.ordered) (ha.cacheValid hwf.cache)
    exact ⟨hwf', hperm.trans hperm0⟩
  · rename_i hempty
    have hnil : (h.data.set 0 h.data.getLast!).dropLast = [] := by
      simpa [empty] using hempty
    refine ⟨wf_resetRootCmpCache ?_ hlen, hperm0⟩
    dsimp only
    rw [hnil]
    exact ordered_nil

/-- `top()` is a maximum of the heap's elements. -/
theorem top_isMax (hlt : Lawful cmp) {h : BinaryHeap T} (hwf : WF cmp h) (hne : h.data ≠ []) :
    IsMax cmp (h.data : Multiset T) h.top := by
  have htop : h.top = h.data.head hne := by
    obtain ⟨a, t, hat⟩ := List.exists_cons_of_ne_nil hne
    simp [top, hat]
  rw [htop]
  exact hwf.ordered.isMax_head hlt hne

/-! ## Runs -/

variable (cmp) in
/-- One operation of the priority queue on the heap. -/
def apply (h : BinaryHeap T) : Op T → BinaryHeap T
  | .push value => h.push cmp value
  | .pop => h.pop cmp
  | .replaceTop value => h.replaceTop cmp value
  | .clear => h.clear

/-- What the caller guarantees before an operation: `pop` and `replace_top`
assert that the heap is not empty, and a vector, whose size is a `size_t`
bounded by `max_size()`, never grows to `kMaxSizet` elements. -/
def allowed (h : BinaryHeap T) : Op T → Bool
  | .push _ => decide (h.size < kMaxSizet)
  | .pop | .replaceTop _ => !h.empty
  | .clear => true

variable (cmp) in
/-- Every operation of the sequence is allowed where it is applied. -/
def legal : BinaryHeap T → List (Op T) → Bool
  | _, [] => true
  | h, op :: ops => h.allowed op && legal (h.apply cmp op) ops

variable (cmp) in
def run (h : BinaryHeap T) (ops : List (Op T)) : BinaryHeap T := ops.foldl (apply cmp) h

/-- One allowed operation keeps `WF` and changes the elements as the priority
queue does: `pop` and `replace_top` take out the top, a maximum. -/
theorem apply_step (hlt : Lawful cmp) {h : BinaryHeap T} (hwf : WF cmp h) {op : Op T}
    (hop : h.allowed op = true) :
    WF cmp (h.apply cmp op) ∧ Step cmp (h.data : Multiset T) op (h.apply cmp op).data := by
  cases op with
  | push value =>
    simp only [allowed, size] at hop
    have hlen : h.data.length < kMaxSizet := of_decide_eq_true hop
    obtain ⟨hwf', hperm⟩ := push_wf hlt hwf hlen value
    have hbag : ((h.push cmp value).data : Multiset T) = value ::ₘ h.data :=
      Multiset.coe_eq_coe.mpr (hperm.trans (List.perm_append_singleton value h.data))
    exact ⟨hwf', by simpa only [apply, hbag] using Step.push _ value⟩
  | pop =>
    have hne : h.data ≠ [] := by simpa [allowed, empty] using hop
    obtain ⟨hwf', hperm⟩ := pop_wf hlt hwf hne
    have hmax := top_isMax hlt hwf hne
    -- the top is the head of the vector, and the rest is what stays
    obtain ⟨a, t, hat⟩ := List.exists_cons_of_ne_nil hne
    have htop : h.top = a := by simp [top, hat]
    rw [htop, hat, ← Multiset.cons_coe] at hmax
    rw [hat] at hperm
    have hbag : ((h.pop cmp).data : Multiset T) = t := Multiset.coe_eq_coe.mpr hperm
    refine ⟨hwf', ?_⟩
    simp only [apply, hbag, hat, ← Multiset.cons_coe]
    exact Step.pop _ a hmax
  | replaceTop value =>
    have hne : h.data ≠ [] := by simpa [allowed, empty] using hop
    obtain ⟨hwf', hperm⟩ := replaceTop_wf hlt hwf hne value
    have hmax := top_isMax hlt hwf hne
    obtain ⟨a, t, hat⟩ := List.exists_cons_of_ne_nil hne
    have htop : h.top = a := by simp [top, hat]
    rw [htop, hat, ← Multiset.cons_coe] at hmax
    rw [hat] at hperm
    have hbag : ((h.replaceTop cmp value).data : Multiset T) = value ::ₘ t :=
      Multiset.coe_eq_coe.mpr hperm
    refine ⟨hwf', ?_⟩
    simp only [apply, hbag, hat, ← Multiset.cons_coe]
    exact Step.replaceTop _ a value hmax
  | clear => exact ⟨clear_wf h, Step.clear _⟩

/-- A legal run from a heap that keeps `WF` keeps it, and the elements it ends
with are a bag the priority queue reaches by the same operations. -/
theorem run_wf (hlt : Lawful cmp) {h : BinaryHeap T} (hwf : WF cmp h) {ops : List (Op T)}
    (hlegal : legal cmp h ops = true) :
    WF cmp (run cmp h ops) ∧ Run cmp (h.data : Multiset T) ops (run cmp h ops).data := by
  induction ops generalizing h with
  | nil => exact ⟨hwf, Run.nil _⟩
  | cons op ops ih =>
    simp only [legal, Bool.and_eq_true] at hlegal
    obtain ⟨hop, hrest⟩ := hlegal
    obtain ⟨hwf', hstep⟩ := apply_step hlt hwf hop
    obtain ⟨hwf'', hrun⟩ := ih hwf' hrest
    exact ⟨hwf'', Run.cons hstep hrun⟩

theorem binaryHeap_run_keeps_order_and_cache (hlt : Lawful cmp) (ops : List (Op T))
    (hlegal : legal cmp new ops = true) :
    Ordered cmp (run cmp new ops).data ∧
      Run cmp 0 ops (run cmp new ops).data ∧
      ((run cmp new ops).data ≠ [] →
        IsMax cmp ((run cmp new ops).data : Multiset T) (run cmp new ops).top) ∧
      CacheValid cmp (run cmp new ops).data (run cmp new ops).rootCmpCache := by
  obtain ⟨hwf, hrun⟩ := run_wf hlt new_wf hlegal
  exact ⟨hwf.ordered, hrun, fun hne => top_isMax hlt hwf hne, hwf.cache⟩

theorem binaryHeap_run_push_push_pop :
    Lawful (fun a b : ℕ => decide (a < b)) ∧
      legal (fun a b : ℕ => decide (a < b)) new [.push 3, .push 5, .pop] = true ∧
      Ordered (fun a b : ℕ => decide (a < b))
        (run (fun a b : ℕ => decide (a < b)) new [.push 3, .push 5, .pop]).data := by
  have hlt : Lawful (fun a b : ℕ => decide (a < b)) :=
    ⟨fun h => by simp at h ⊢; omega, fun h1 h2 => by simp at h1 h2 ⊢; omega⟩
  have hlegal : legal (fun a b : ℕ => decide (a < b)) new [.push 3, .push 5, .pop] = true := by
    simp [legal, allowed, apply, size, empty, new, kMaxSizet, ← List.length_eq_zero_iff]
  exact ⟨hlt, hlegal, (binaryHeap_run_keeps_order_and_cache hlt _ hlegal).1⟩

end BinaryHeap

end HapDB
