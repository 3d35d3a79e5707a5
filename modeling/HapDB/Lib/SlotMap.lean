import Mathlib

/-!
# Hash maps with stable positions and a free list

Some hash maps keep their entries in one array and hand out an entry's index in
that array as its *position*: the position of an entry never changes while it
is in the map, erasing an entry frees its slot, and an insertion takes the slot
freed last, or a new slot at the end when none is free.  Iteration visits the
occupied slots in the order of their positions.

`SlotMap κ ν` is such a map seen through its array of slots and its free list;
the bucket index, which only speeds up the search for a key, is left out.  Its
values carry their invariant: the free slots are empty and listed once each,
and a key occupies at most one slot.

The point of the model is what callers may do with positions.  A position kept
after its entry is erased names whatever entry is inserted next into that slot
(`emplace_erase`), and the positions of two different maps are
unrelated numbers that may coincide.
-/

namespace SlotMap

variable {κ ν : Type*}

/-- The key in slot `p`, if the slot is occupied. -/
def keyAt (slots : List (Option (κ × ν))) (p : ℕ) : Option κ := slots[p]?.bind (Option.map Prod.fst)

theorem keyAt_set_of_ne {slots : List (Option (κ × ν))} {p q : ℕ} (s : Option (κ × ν))
    (h : q ≠ p) : keyAt (slots.set p s) q = keyAt slots q := by
  simp [keyAt, List.getElem?_set_ne (Ne.symm h)]

theorem keyAt_set_self {slots : List (Option (κ × ν))} {p : ℕ} (s : Option (κ × ν))
    (h : p < slots.length) : keyAt (slots.set p s) p = s.map Prod.fst := by
  simp [keyAt, List.getElem?_set_self h]

theorem keyAt_append_singleton {slots : List (Option (κ × ν))} (s : Option (κ × ν)) (q : ℕ) :
    keyAt (slots ++ [s]) q = if q = slots.length then s.map Prod.fst else keyAt slots q := by
  unfold keyAt
  split
  · subst q
    simp
  · rcases Nat.lt_or_gt_of_ne ‹q ≠ slots.length› with hlt | hgt
    · rw [List.getElem?_append_left hlt]
    · rw [List.getElem?_eq_none (by simp; omega), List.getElem?_eq_none (by omega)]

end SlotMap

/-- The slots of the map and its free list, most recently freed first. -/
structure SlotMap (κ ν : Type*) where
  slots : List (Option (κ × ν))
  freeList : List ℕ
  free_empty : ∀ p ∈ freeList, slots[p]? = some none
  free_nodup : freeList.Nodup
  key_unique : ∀ p q k, SlotMap.keyAt slots p = some k → SlotMap.keyAt slots q = some k → p = q

namespace SlotMap

variable {κ ν : Type*} [DecidableEq κ]

/-- The empty map. -/
def empty : SlotMap κ ν where
  slots := []
  freeList := []
  free_empty := by simp
  free_nodup := List.nodup_nil
  key_unique := by simp [keyAt]

/-- `pos(p)`: the entry in slot `p`, if the slot is occupied. -/
def getSlot (m : SlotMap κ ν) (p : ℕ) : Option (κ × ν) := m.slots[p]?.join

/-- `find(k)`: the position of key `k`. -/
def find (m : SlotMap κ ν) (k : κ) : Option ℕ :=
  m.slots.findIdx? fun s => s.map Prod.fst == some k

/-- `count(k) > 0`. -/
def contains (m : SlotMap κ ν) (k : κ) : Bool := (m.find k).isSome

/-- The value in slot `p`. -/
def valueAt (m : SlotMap κ ν) (p : ℕ) : Option ν := (m.getSlot p).map Prod.snd

/-- The value at key `k`. -/
def get? (m : SlotMap κ ν) (k : κ) : Option ν := (m.find k).bind m.valueAt

/-- The occupied slots in the order of their positions: what iteration visits. -/
def entries (m : SlotMap κ ν) : List (ℕ × κ × ν) :=
  (List.range m.slots.length).filterMap fun p => (m.getSlot p).map fun e => (p, e)

omit [DecidableEq κ] in
theorem keyAt_eq_getSlot (m : SlotMap κ ν) (p : ℕ) :
    keyAt m.slots p = (m.getSlot p).map Prod.fst := by
  simp only [keyAt, getSlot]
  cases m.slots[p]? with
  | none => rfl
  | some s => cases s <;> rfl

theorem find_eq_some_iff {m : SlotMap κ ν} {k : κ} {p : ℕ} :
    m.find k = some p ↔ keyAt m.slots p = some k := by
  constructor
  · intro h
    obtain ⟨hlt, hkey, -⟩ := List.findIdx?_eq_some_iff_getElem.mp h
    simpa [keyAt, List.getElem?_eq_getElem hlt] using hkey
  · intro h
    have hlt : p < m.slots.length := by
      by_contra hge
      simp [keyAt, List.getElem?_eq_none (Nat.le_of_not_lt hge)] at h
    refine List.findIdx?_eq_some_iff_getElem.mpr ⟨hlt, ?_, ?_⟩
    · simpa [keyAt, List.getElem?_eq_getElem hlt] using h
    · intro q hq
      have hq' : q < m.slots.length := by omega
      simp only [beq_iff_eq]
      intro hk
      have : keyAt m.slots q = some k := by simpa [keyAt, List.getElem?_eq_getElem hq'] using hk
      exact absurd (m.key_unique q p k this h) (by omega)

theorem find_eq_none_iff {m : SlotMap κ ν} {k : κ} :
    m.find k = none ↔ ∀ p, keyAt m.slots p ≠ some k := by
  constructor
  · intro h p hp
    have := find_eq_some_iff.mpr hp
    simp [h] at this
  · intro h
    cases hf : m.find k with
    | none => rfl
    | some p => exact absurd (find_eq_some_iff.mp hf) (h p)

/-! ## Insertion -/

/-- The map with `(k, v)` in the free slot `p` at the front of the free list. -/
def fillFree (m : SlotMap κ ν) (k : κ) (v : ν) (hnew : m.find k = none) (p : ℕ) (rest : List ℕ)
    (hfree : m.freeList = p :: rest) : SlotMap κ ν where
  slots := m.slots.set p (some (k, v))
  freeList := rest
  free_empty := by
    intro q hq
    have hnodup := m.free_nodup
    rw [hfree, List.nodup_cons] at hnodup
    have hqp : p ≠ q := fun h => hnodup.1 (h ▸ hq)
    rw [List.getElem?_set_ne hqp]
    exact m.free_empty q (hfree ▸ List.mem_cons_of_mem p hq)
  free_nodup := by
    have hnodup := m.free_nodup
    rw [hfree, List.nodup_cons] at hnodup
    exact hnodup.2
  key_unique := by
    have hlt : p < m.slots.length :=
      (List.getElem?_eq_some_iff.mp (m.free_empty p (by simp [hfree]))).1
    -- the new key is the only one in slot `p`, and found nowhere else
    have hkey : ∀ q, keyAt (m.slots.set p (some (k, v))) q =
        if q = p then some k else keyAt m.slots q := by
      intro q
      split
      · subst q
        simp [keyAt_set_self _ hlt]
      · exact keyAt_set_of_ne _ ‹q ≠ p›
    have hold := find_eq_none_iff.mp hnew
    intro q r k' hq hr
    rw [hkey] at hq hr
    split at hq <;> split at hr
    · omega
    · cases hq; exact absurd hr (hold r)
    · cases hr; exact absurd hq (hold q)
    · exact m.key_unique q r k' hq hr

/-- The map with `(k, v)` in a new slot at the end, when no slot is free. -/
def push (m : SlotMap κ ν) (k : κ) (v : ν) (hnew : m.find k = none) : SlotMap κ ν where
  slots := m.slots ++ [some (k, v)]
  freeList := m.freeList
  free_empty := by
    intro q hq
    have hlt : q < m.slots.length := (List.getElem?_eq_some_iff.mp (m.free_empty q hq)).1
    rw [List.getElem?_append_left hlt]
    exact m.free_empty q hq
  free_nodup := m.free_nodup
  key_unique := by
    have hold := find_eq_none_iff.mp hnew
    intro q r k' hq hr
    rw [keyAt_append_singleton] at hq hr
    split at hq <;> split at hr
    · omega
    · cases hq; exact absurd hr (hold r)
    · cases hr; exact absurd hq (hold q)
    · exact m.key_unique q r k' hq hr

/-- `emplace(k, v)`: the position of `k` and whether it was inserted.  A key
already there keeps its value; a new key takes the slot freed last, or a new
slot at the end. -/
def emplace (m : SlotMap κ ν) (k : κ) (v : ν) : (ℕ × Bool) × SlotMap κ ν :=
  match hfind : m.find k with
  | some p => ((p, false), m)
  | none =>
      match hfree : m.freeList with
      | p :: rest => ((p, true), m.fillFree k v hfind p rest hfree)
      | [] => ((m.slots.length, true), m.push k v hfind)

theorem emplace_of_free {m : SlotMap κ ν} {k : κ} {v : ν} {p : ℕ} {rest : List ℕ}
    (hnew : m.find k = none) (hfree : m.freeList = p :: rest) :
    (m.emplace k v).1 = (p, true) ∧ (m.emplace k v).2.getSlot p = some (k, v) := by
  have hlt : p < m.slots.length :=
    (List.getElem?_eq_some_iff.mp (m.free_empty p (by simp [hfree]))).1
  unfold emplace
  split
  · simp_all
  · split
    · simp_all [fillFree, getSlot]
    · simp_all

/-! ## Erasure and update in place -/

omit [DecidableEq κ] in
theorem lt_length_of_getSlot {m : SlotMap κ ν} {p : ℕ} (hp : (m.getSlot p).isSome) :
    p < m.slots.length := by
  by_contra hge
  simp [getSlot, List.getElem?_eq_none (Nat.le_of_not_lt hge)] at hp

/-- `erase(pos(p))`: slot `p` emptied and put at the front of the free list.
An empty slot is left as it is. -/
def erase (m : SlotMap κ ν) (p : ℕ) : SlotMap κ ν :=
  if hp : (m.getSlot p).isSome then
    { slots := m.slots.set p none
      freeList := p :: m.freeList
      free_empty := by
        intro q hq
        rcases List.mem_cons.mp hq with rfl | hq
        · exact List.getElem?_set_self (lt_length_of_getSlot hp)
        · have hqp : p ≠ q := by
            rintro rfl
            simp [getSlot, m.free_empty p hq] at hp
          rw [List.getElem?_set_ne hqp]
          exact m.free_empty q hq
      free_nodup := by
        refine List.nodup_cons.mpr ⟨fun hmem => ?_, m.free_nodup⟩
        simp [getSlot, m.free_empty p hmem] at hp
      key_unique := by
        intro q r k hq hr
        have hqp : q ≠ p := by
          rintro rfl
          simp [keyAt_set_self _ (lt_length_of_getSlot hp)] at hq
        have hrp : r ≠ p := by
          rintro rfl
          simp [keyAt_set_self _ (lt_length_of_getSlot hp)] at hr
        rw [keyAt_set_of_ne _ hqp] at hq
        rw [keyAt_set_of_ne _ hrp] at hr
        exact m.key_unique q r k hq hr }
  else m

omit [DecidableEq κ] in
theorem erase_freeList {m : SlotMap κ ν} {p : ℕ} (hp : (m.getSlot p).isSome) :
    (m.erase p).freeList = p :: m.freeList := by
  simp [erase, hp]

/-- A position kept after its entry is erased names the next entry inserted. -/
theorem emplace_erase {m : SlotMap κ ν} {p : ℕ} (hp : (m.getSlot p).isSome) {k : κ} {v : ν}
    (hnew : (m.erase p).find k = none) :
    ((m.erase p).emplace k v).1 = (p, true) ∧ ((m.erase p).emplace k v).2.getSlot p = some (k, v) :=
  emplace_of_free hnew (erase_freeList hp)

/-- Assignment through a reference to the value in slot `p`. -/
def modify (m : SlotMap κ ν) (p : ℕ) (f : ν → ν) : SlotMap κ ν where
  slots := m.slots.modify p (Option.map fun e => (e.1, f e.2))
  freeList := m.freeList
  free_empty := by
    intro q hq
    rw [List.getElem?_modify, m.free_empty q hq]
    simp
  free_nodup := m.free_nodup
  key_unique := by
    -- the update keeps every slot's key
    have hkey : ∀ q, keyAt (m.slots.modify p (Option.map fun e => (e.1, f e.2))) q =
        keyAt m.slots q := by
      intro q
      simp only [keyAt, List.getElem?_modify]
      split
      · cases m.slots[q]? with
        | none => rfl
        | some s => cases s <;> rfl
      · simp
    intro q r k hq hr
    rw [hkey] at hq hr
    exact m.key_unique q r k hq hr

/-- `erase(k)`. -/
def eraseKey (m : SlotMap κ ν) (k : κ) : SlotMap κ ν :=
  match m.find k with
  | some p => m.erase p
  | none => m

/-- Assignment through a reference to the value at key `k`. -/
def modifyKey (m : SlotMap κ ν) (k : κ) (f : ν → ν) : SlotMap κ ν :=
  match m.find k with
  | some p => m.modify p f
  | none => m

/-- Every value changed in place, as a loop over the map does. -/
def mapValues (m : SlotMap κ ν) (f : ν → ν) : SlotMap κ ν :=
  (List.range m.slots.length).foldl (fun m p => m.modify p f) m


/-! ## The slots after each operation

Iteration visits `entries`, the occupied slots; these lemmas say what each
operation leaves in every slot, and, through `mem_entries` and
`nodup_entries`, what iteration visits afterwards, up to order. -/

omit [DecidableEq κ] in
theorem mem_entries {m : SlotMap κ ν} {e : ℕ × κ × ν} : e ∈ m.entries ↔ m.getSlot e.1 = some e.2 := by
  obtain ⟨p, kv⟩ := e
  simp only [entries, List.mem_filterMap, List.mem_range, Option.map_eq_some_iff, Prod.mk.injEq]
  constructor
  · rintro ⟨q, -, e, he, rfl, rfl⟩
    exact he
  · intro h
    exact ⟨p, lt_length_of_getSlot (by simp [h]), kv, h, rfl, rfl⟩

omit [DecidableEq κ] in
theorem nodup_entries (m : SlotMap κ ν) : m.entries.Nodup := by
  -- the entries have distinct positions
  refine List.Nodup.filterMap (fun p q e hp hq => ?_) List.nodup_range
  obtain ⟨_, -, rfl⟩ := Option.mem_map.mp hp
  obtain ⟨_, -, he⟩ := Option.mem_map.mp hq
  exact (Prod.mk.inj he).1.symm

omit [DecidableEq κ] in
theorem eq_of_getSlot {m : SlotMap κ ν} {p q : ℕ} {k : κ} {v w : ν} (hp : m.getSlot p = some (k, v))
    (hq : m.getSlot q = some (k, w)) : p = q :=
  m.key_unique p q k (by rw [keyAt_eq_getSlot, hp]; rfl) (by rw [keyAt_eq_getSlot, hq]; rfl)

theorem find_eq_some_iff_getSlot {m : SlotMap κ ν} {k : κ} {p : ℕ} :
    m.find k = some p ↔ ∃ v, m.getSlot p = some (k, v) := by
  rw [find_eq_some_iff, keyAt_eq_getSlot, Option.map_eq_some_iff]
  constructor
  · rintro ⟨⟨k', v⟩, h, rfl⟩
    exact ⟨v, h⟩
  · rintro ⟨v, h⟩
    exact ⟨(k, v), h, rfl⟩

theorem find_eq_none_iff_getSlot {m : SlotMap κ ν} {k : κ} :
    m.find k = none ↔ ∀ p v, m.getSlot p ≠ some (k, v) := by
  rw [find_eq_none_iff]
  refine forall_congr' fun p => ?_
  rw [keyAt_eq_getSlot, Ne, Option.map_eq_some_iff]
  constructor
  · exact fun h v hv => h ⟨(k, v), hv, rfl⟩
  · rintro h ⟨⟨k', v⟩, hv, rfl⟩
    exact h v hv

omit [DecidableEq κ] in
theorem getSlot_modify (m : SlotMap κ ν) (p : ℕ) (f : ν → ν) (q : ℕ) :
    (m.modify p f).getSlot q = if q = p then (m.getSlot p).map (fun e => (e.1, f e.2)) else m.getSlot q := by
  by_cases hq : q = p
  · subst hq
    simp only [getSlot, modify, List.getElem?_modify, if_true]
    cases m.slots[q]? with
    | none => rfl
    | some s => cases s <;> rfl
  · simp [getSlot, modify, Ne.symm hq, hq]

omit [DecidableEq κ] in
theorem getSlot_erase (m : SlotMap κ ν) (p q : ℕ) :
    (m.erase p).getSlot q = if q = p then none else m.getSlot q := by
  unfold erase
  by_cases hq : q = p
  · subst hq
    split
    · simp [getSlot, List.getElem?_set_self (lt_length_of_getSlot ‹_›)]
    · simpa using Option.not_isSome_iff_eq_none.mp ‹_›
  · split
    · simp [getSlot, List.getElem?_set_ne (Ne.symm hq)]
    · simp

theorem emplace_of_find_some {m : SlotMap κ ν} {k : κ} {v : ν} {p : ℕ} (h : m.find k = some p) :
    m.emplace k v = ((p, false), m) := by
  unfold emplace
  split <;> simp_all

/-- A new key goes to an empty slot, and nothing else changes. -/
theorem emplace_of_find_none {m : SlotMap κ ν} {k : κ} {v : ν} (h : m.find k = none) :
    (m.emplace k v).1.2 = true ∧ m.getSlot (m.emplace k v).1.1 = none ∧
      ∀ q, (m.emplace k v).2.getSlot q =
        if q = (m.emplace k v).1.1 then some (k, v) else m.getSlot q := by
  unfold emplace
  split
  · simp_all
  · split
    · rename_i p rest hfree
      have hempty := m.free_empty p (by simp [hfree])
      have hlt : p < m.slots.length := (List.getElem?_eq_some_iff.mp hempty).1
      refine ⟨rfl, by simp [getSlot, hempty], fun q => ?_⟩
      by_cases hq : q = p
      · subst hq
        simp [getSlot, fillFree, List.getElem?_set_self hlt]
      · simp [getSlot, fillFree, List.getElem?_set_ne (Ne.symm hq), hq]
    · refine ⟨rfl, by simp [getSlot], fun q => ?_⟩
      rcases Nat.lt_trichotomy q m.slots.length with hlt | rfl | hgt
      · simp [getSlot, push, List.getElem?_append_left hlt, Nat.ne_of_lt hlt]
      · simp [getSlot, push]
      · have hnone : (m.slots ++ [some (k, v)])[q]? = none :=
          List.getElem?_eq_none (by simp; omega)
        simp [getSlot, push, hnone, Nat.ne_of_gt hgt, List.getElem?_eq_none (Nat.le_of_lt hgt)]

theorem getSlot_eraseKey (m : SlotMap κ ν) (k : κ) (q : ℕ) :
    (m.eraseKey k).getSlot q = (m.getSlot q).filter fun e => e.1 != k := by
  unfold eraseKey
  split
  · rename_i p hp
    obtain ⟨v, hv⟩ := find_eq_some_iff_getSlot.mp hp
    rw [getSlot_erase]
    split
    · subst q
      rw [hv, Option.filter_some_neg (by simp)]
    · -- key `k` is in slot `p` only
      cases hq : m.getSlot q with
      | none => rfl
      | some e =>
          obtain ⟨k', w⟩ := e
          have hk : k' ≠ k := fun he => ‹q ≠ p› (eq_of_getSlot (he ▸ hq) hv)
          exact (Option.filter_some_pos (by simpa using hk)).symm
  · rename_i hnone
    cases hq : m.getSlot q with
    | none => rfl
    | some e =>
        obtain ⟨k', w⟩ := e
        have hk : k' ≠ k := fun he => find_eq_none_iff_getSlot.mp hnone q w (he ▸ hq)
        exact (Option.filter_some_pos (by simpa using hk)).symm

theorem getSlot_modifyKey (m : SlotMap κ ν) (k : κ) (f : ν → ν) (q : ℕ) :
    (m.modifyKey k f).getSlot q = (m.getSlot q).map fun e => if e.1 = k then (e.1, f e.2) else e := by
  unfold modifyKey
  split
  · rename_i p hp
    obtain ⟨v, hv⟩ := find_eq_some_iff_getSlot.mp hp
    rw [getSlot_modify]
    split
    · subst q
      simp [hv]
    · cases hq : m.getSlot q with
      | none => rfl
      | some e =>
          obtain ⟨k', w⟩ := e
          have hk : k' ≠ k := fun he => ‹q ≠ p› (eq_of_getSlot (he ▸ hq) hv)
          simp [hk]
  · rename_i hnone
    cases hq : m.getSlot q with
    | none => rfl
    | some e =>
        obtain ⟨k', w⟩ := e
        have hk : k' ≠ k := fun he => find_eq_none_iff_getSlot.mp hnone q w (he ▸ hq)
        simp [hk]

omit [DecidableEq κ] in
theorem length_modify (m : SlotMap κ ν) (p : ℕ) (f : ν → ν) :
    (m.modify p f).slots.length = m.slots.length := by
  simp [modify]

omit [DecidableEq κ] in
/-- A loop over positions changes the value in slot `q` once for each time it
visits `q`. -/
theorem getSlot_foldl_modify (m : SlotMap κ ν) (f : ν → ν) (ps : List ℕ) (q : ℕ) :
    (ps.foldl (fun m p => m.modify p f) m).getSlot q =
      (m.getSlot q).map fun e => (e.1, f^[ps.count q] e.2) := by
  induction ps generalizing m with
  | nil => cases h : m.getSlot q <;> simp [h]
  | cons p ps ih =>
      rw [List.foldl_cons, ih, getSlot_modify]
      split
      · subst q
        cases m.getSlot p <;> simp [Function.iterate_succ_apply]
      · cases m.getSlot q <;> simp [List.count_cons, beq_false_of_ne (Ne.symm ‹q ≠ p›)]

omit [DecidableEq κ] in
theorem getSlot_mapValues (m : SlotMap κ ν) (f : ν → ν) (q : ℕ) :
    (m.mapValues f).getSlot q = (m.getSlot q).map fun e => (e.1, f e.2) := by
  rw [mapValues, getSlot_foldl_modify]
  by_cases hq : q < m.slots.length
  · cases m.getSlot q <;> simp [List.count_eq_one_of_mem List.nodup_range (List.mem_range.mpr hq)]
  · simp [getSlot, List.getElem?_eq_none (Nat.le_of_not_lt hq)]

/-- Erasing a key leaves the other entries for iteration. -/
theorem entries_eraseKey_perm (m : SlotMap κ ν) (k : κ) :
    (m.eraseKey k).entries.Perm (m.entries.filter fun e => e.2.1 != k) := by
  refine (List.perm_ext_iff_of_nodup (nodup_entries _) ((nodup_entries m).filter _)).mpr fun e => ?_
  rw [List.mem_filter, mem_entries, mem_entries, getSlot_eraseKey, Option.filter_eq_some_iff]

/-- A new key adds one entry for iteration, in the slot it takes. -/
theorem entries_emplace_perm {m : SlotMap κ ν} {k : κ} {v : ν} (h : m.find k = none) :
    (m.emplace k v).2.entries.Perm (m.entries ++ [((m.emplace k v).1.1, k, v)]) := by
  obtain ⟨-, hfree, hslot⟩ := emplace_of_find_none (v := v) h
  have hnew : ((m.emplace k v).1.1, k, v) ∉ m.entries := by
    rw [mem_entries, hfree]
    simp
  refine (List.perm_ext_iff_of_nodup (nodup_entries _)
    ((nodup_entries m).append (List.nodup_singleton _) (by simpa using hnew))).mpr fun e => ?_
  rw [List.mem_append, List.mem_singleton, mem_entries, mem_entries, hslot]
  split
  · rename_i he
    constructor
    · rintro h
      exact .inr (Prod.ext he (Option.some.inj h).symm)
    · rintro (h | rfl)
      · rw [he, hfree] at h
        cases h
      · rfl
  · rename_i he
    constructor
    · exact .inl
    · rintro (h | rfl)
      · exact h
      · exact absurd rfl he

end SlotMap
