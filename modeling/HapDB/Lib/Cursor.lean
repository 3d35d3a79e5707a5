import Mathlib

/-!
# Cursors over sorted lists

A cursor holds a list of entries `(key, value)` and a position among them.  It
is valid while the position is inside the list, and an invalid cursor sits at
the list's length.  The operations are those of an iterator over a source
sorted by a comparator `cmp`: `seek t` goes to the first entry whose key is not
below `t`, `seekForPrev t` to the last entry whose key is not above `t`, and
`next` and `prev` step.  The comparator is a lawful total preorder
(`Std.TransCmp`), as the comparators of a store are.

Over a list sorted strictly by key, a position is described by a cut: a set
`S` of keys closed downwards (`IsCut`).  The entries whose keys are in `S` are
an initial segment, of length `countP` (`lt_countP_cut`).  Every positioning
operation is such a count: `seek t` counts the cut "below `t`", `seekForPrev t`
the cut "not above `t`" less one.

The sorted union of several lists is the reference that a merge of cursors is
compared with (`sortedUnion`).  When the lists are strictly sorted and share
no key, their union is strictly sorted too (`pairwise_sortedUnion`).
-/

/-- Entries `(key, value)` and a position among them. -/
structure Cursor (κ ν : Type*) where
  entries : List (κ × ν)
  pos : ℕ

/-- The positioning operations of an iterator. -/
inductive IterOp (κ : Type*) where
  | seekToFirst
  | seekToLast
  | seek (target : κ)
  | seekForPrev (target : κ)
  | next
  | prev

/-- `next` and `prev` step from the current entry; the others reposition. -/
def IterOp.isStep {κ : Type*} : IterOp κ → Bool
  | .next | .prev => true
  | _ => false

namespace Cursor

variable {κ ν : Type*}

instance : Inhabited (Cursor κ ν) := ⟨⟨[], 0⟩⟩

/-- The position is inside the list. -/
def valid (c : Cursor κ ν) : Bool := decide (c.pos < c.entries.length)

section Entry

variable [Inhabited κ] [Inhabited ν]

/-- The entry at the position. -/
def entry (c : Cursor κ ν) : κ × ν := c.entries.getD c.pos default

def key (c : Cursor κ ν) : κ := c.entry.1

def value (c : Cursor κ ν) : ν := c.entry.2

theorem entry_of_valid {c : Cursor κ ν} (h : c.valid = true) :
    c.entries[c.pos]? = some c.entry := by
  simp only [valid, decide_eq_true_eq] at h
  simp [entry, List.getD_eq_getElem?_getD, List.getElem?_eq_getElem h]

end Entry

section Ops

variable (cmp : κ → κ → Ordering)

def seekToFirst (c : Cursor κ ν) : Cursor κ ν := { c with pos := 0 }

def seekToLast (c : Cursor κ ν) : Cursor κ ν := { c with pos := c.entries.length - 1 }

/-- The first entry whose key is not below `t`. -/
def seek (c : Cursor κ ν) (t : κ) : Cursor κ ν :=
  { c with pos := c.entries.countP fun e => cmp e.1 t == .lt }

/-- The last entry whose key is not above `t`; past the end when there is none. -/
def seekForPrev (c : Cursor κ ν) (t : κ) : Cursor κ ν :=
  let n := c.entries.countP fun e => cmp e.1 t != .gt
  { c with pos := if n = 0 then c.entries.length else n - 1 }

def next (c : Cursor κ ν) : Cursor κ ν := { c with pos := c.pos + 1 }

/-- One entry back; past the end from the first. -/
def prev (c : Cursor κ ν) : Cursor κ ν :=
  { c with pos := if c.pos = 0 then c.entries.length else c.pos - 1 }

def apply (c : Cursor κ ν) : IterOp κ → Cursor κ ν
  | .seekToFirst => c.seekToFirst
  | .seekToLast => c.seekToLast
  | .seek t => c.seek cmp t
  | .seekForPrev t => c.seekForPrev cmp t
  | .next => c.next
  | .prev => c.prev

@[simp] theorem entries_apply (c : Cursor κ ν) (op : IterOp κ) :
    (c.apply cmp op).entries = c.entries := by
  cases op <;> rfl

/-- Every `next` and `prev` of a sequence of operations is applied to a valid
cursor, as an iterator's contract asks. -/
def Legal : Cursor κ ν → List (IterOp κ) → Prop
  | _, [] => True
  | c, op :: ops => (op.isStep = true → c.valid = true) ∧ Legal (c.apply cmp op) ops

instance decidableLegal : (c : Cursor κ ν) → (ops : List (IterOp κ)) → Decidable (Legal cmp c ops)
  | _, [] => isTrue trivial
  | c, op :: ops =>
    have := decidableLegal (c.apply cmp op) ops
    inferInstanceAs (Decidable ((op.isStep = true → c.valid = true) ∧ Legal cmp (c.apply cmp op) ops))

/-- The cursor after a sequence of operations. -/
def run (c : Cursor κ ν) (ops : List (IterOp κ)) : Cursor κ ν := ops.foldl (apply cmp) c

end Ops

end Cursor

/-! ## Counting an initial segment -/

section Count

variable {α : Type*} {p : α → Bool}

/-- When `p` holds of everything before an element it holds of, the elements
it holds of are the first `countP p l`. -/
theorem lt_countP_iff {l : List α} (hl : l.Pairwise fun x y => p y = true → p x = true) :
    ∀ i (hi : i < l.length), i < l.countP p ↔ p l[i] = true := by
  induction l with
  | nil => intro i hi; simp at hi
  | cons a l ih =>
    rw [List.pairwise_cons] at hl
    obtain ⟨ha, hl⟩ := hl
    intro i hi
    rw [List.countP_cons]
    cases hpa : p a with
    | false =>
      -- nothing after `a` satisfies `p`
      have hnone : ∀ x ∈ l, p x = false := fun x hx => by
        cases hpx : p x
        · rfl
        · simpa [hpa] using ha x hx hpx
      have hzero : l.countP p = 0 := List.countP_eq_zero.mpr fun x hx => by simp [hnone x hx]
      cases i with
      | zero => simp [hzero, hpa]
      | succ j => simp [hzero, hnone _ (List.getElem_mem _)]
    | true =>
      cases i with
      | zero => simp [hpa]
      | succ j =>
        simp only [if_true, List.getElem_cons_succ, Nat.add_lt_add_iff_right]
        exact ih hl j (by simpa using hi)

/-- The count is the `n` that splits the list where `p` stops holding. -/
theorem countP_eq_of_forall_lt_iff {l : List α}
    (hl : l.Pairwise fun x y => p y = true → p x = true) {n : ℕ} (hn : n ≤ l.length)
    (h : ∀ i (hi : i < l.length), i < n ↔ p l[i] = true) : l.countP p = n := by
  have hle : l.countP p ≤ l.length := List.countP_le_length
  by_contra hne
  rcases Nat.lt_or_gt_of_ne hne with hlt | hlt
  · have hp := (h _ (by omega)).mp hlt
    have := (lt_countP_iff hl _ (by omega)).mpr hp
    omega
  · have hp := (lt_countP_iff hl n (by omega)).mp hlt
    have := (h n (by omega)).mpr hp
    omega

/-- When `p` holds of everything before an element it holds of, it holds of
nothing after one it fails on. -/
theorem forall_not_of_pairwise {a : α} {l : List α} (hl : (a :: l).Pairwise fun x y => p y = true → p x = true)
    (ha : p a = false) : ∀ x ∈ a :: l, p x = false := by
  intro x hx
  rcases List.mem_cons.mp hx with rfl | hx
  · exact ha
  · cases hpx : p x
    · rfl
    · simpa [ha] using List.rel_of_pairwise_cons hl hx hpx

/-- The count of a prefix where `p` holds is where `dropWhile` stops. -/
theorem drop_countP_eq_dropWhile {l : List α} (hl : l.Pairwise fun x y => p y = true → p x = true) :
    l.drop (l.countP p) = l.dropWhile p := by
  induction l with
  | nil => rfl
  | cons a l ih =>
    rw [List.pairwise_cons] at hl
    cases hpa : p a with
    | true => simp [hpa, ih hl.2]
    | false =>
      -- nothing after `a` satisfies `p`
      have hnone := forall_not_of_pairwise (List.pairwise_cons.mpr hl) hpa
      have hzero : l.countP p = 0 :=
        List.countP_eq_zero.mpr fun x hx => by simp [hnone x (List.mem_cons_of_mem _ hx)]
      simp [hpa, hzero]

theorem dropWhile_congr {p' : α → Bool} {l : List α} (h : ∀ x ∈ l, p x = p' x) :
    l.dropWhile p = l.dropWhile p' := by
  induction l with
  | nil => rfl
  | cons a l ih =>
    simp only [List.dropWhile_cons, h a List.mem_cons_self]
    split
    · exact ih fun x hx => h x (List.mem_cons_of_mem _ hx)
    · rfl

/-- Dropping a prefix where `q` holds, then one where `p` holds, drops the
prefix where either holds. -/
theorem dropWhile_dropWhile {q : α → Bool} {l : List α} (hl : l.Pairwise fun x y => q y = true → q x = true) :
    (l.dropWhile q).dropWhile p = l.dropWhile fun x => p x || q x := by
  induction l with
  | nil => rfl
  | cons a l ih =>
    cases hqa : q a with
    | true => simp [hqa, ih hl.of_cons]
    | false =>
      -- `q` holds of nothing from `a` on
      have hnone := forall_not_of_pairwise hl hqa
      rw [List.dropWhile_cons_of_neg (by simp [hqa])]
      exact dropWhile_congr fun x hx => by simp [hnone x hx]

/-- Dropping a prefix where `p` holds and taking one where `q` holds commute,
when `q` holds on a prefix. -/
theorem dropWhile_takeWhile {q : α → Bool} {l : List α} (hl : l.Pairwise fun x y => q y = true → q x = true) :
    (l.takeWhile q).dropWhile p = (l.dropWhile p).takeWhile q := by
  induction l with
  | nil => rfl
  | cons a l ih =>
    cases hqa : q a with
    | true =>
      rw [List.takeWhile_cons_of_pos (by simp [hqa])]
      cases hpa : p a with
      | true => simp only [List.dropWhile_cons_of_pos (by simp [hpa] : p a = true), ih hl.of_cons]
      | false =>
        simp only [List.dropWhile_cons_of_neg (by simp [hpa] : ¬p a = true),
          List.takeWhile_cons_of_pos (by simp [hqa] : q a = true)]
    | false =>
      -- `q` holds of nothing from `a` on, so of nothing that `dropWhile` leaves
      have hnone := forall_not_of_pairwise hl hqa
      rw [List.takeWhile_cons_of_neg (by simp [hqa]), List.dropWhile_nil]
      refine (List.takeWhile_eq_nil_iff.mpr fun hl' => ?_).symm
      simp [hnone _ ((List.dropWhile_sublist p).subset (List.getElem_mem hl'))]

end Count

/-! ## Cuts of a sorted list -/

section Cut

variable {κ ν : Type*} {cmp : κ → κ → Ordering}

variable (cmp) in
/-- A set of keys closed downwards. -/
def IsCut (S : κ → Bool) : Prop := ∀ ⦃a b : κ⦄, cmp a b ≠ .gt → S b = true → S a = true

theorem isCut_lt [Std.TransCmp cmp] (t : κ) : IsCut cmp fun x => cmp x t == .lt :=
  fun _ _ hab hb => by
    simp only [beq_iff_eq] at hb ⊢
    exact Std.TransCmp.lt_of_isLE_of_lt (Ordering.isLE_iff_ne_gt.mpr hab) hb

theorem isCut_le [Std.TransCmp cmp] (t : κ) : IsCut cmp fun x => cmp x t != .gt :=
  fun _ _ hab hb => by
    simp only [bne_iff_ne, ne_eq] at hb ⊢
    have hle := Std.TransCmp.isLE_trans (Ordering.isLE_iff_ne_gt.mpr hab)
      (Ordering.isLE_iff_ne_gt.mpr hb)
    exact Ordering.isLE_iff_ne_gt.mp hle

theorem isCut_const (b : Bool) : IsCut cmp fun _ : κ => b := fun _ _ _ hb => hb

/-- The keys below an optional lower bound: none when there is no bound. -/
theorem isCut_any_lt [Std.TransCmp cmp] (o : Option κ) : IsCut cmp fun x => o.any fun b => cmp x b == .lt := by
  cases o with
  | none => exact isCut_const false
  | some b => exact isCut_lt b

/-- The keys below an optional upper bound: all when there is no bound. -/
theorem isCut_all_lt [Std.TransCmp cmp] (o : Option κ) : IsCut cmp fun x => o.all fun b => cmp x b == .lt := by
  cases o with
  | none => exact isCut_const true
  | some b => exact isCut_lt b

variable {l : List (κ × ν)} (hl : l.Pairwise fun a b => cmp a.1 b.1 = .lt)
include hl

theorem pairwise_cut {S : κ → Bool} (hS : IsCut cmp S) :
    l.Pairwise fun x y => S y.1 = true → S x.1 = true :=
  hl.imp fun hxy hy => hS (by simp [hxy]) hy

/-- The entries of a strictly sorted list whose keys are in a cut come first. -/
theorem lt_countP_cut {S : κ → Bool} (hS : IsCut cmp S) (i : ℕ) (hi : i < l.length) :
    i < l.countP (fun e => S e.1) ↔ S l[i].1 = true :=
  lt_countP_iff (pairwise_cut hl hS) i hi

theorem countP_cut_eq {S : κ → Bool} (hS : IsCut cmp S) {n : ℕ} (hn : n ≤ l.length)
    (h : ∀ i (hi : i < l.length), i < n ↔ S l[i].1 = true) : l.countP (fun e => S e.1) = n :=
  countP_eq_of_forall_lt_iff (pairwise_cut hl hS) hn h

end Cut

/-! ## The sorted union -/

section Union

variable {κ ν : Type*} (cmp : κ → κ → Ordering)

/-- All entries of the lists, sorted by key. -/
def sortedUnion (ls : List (List (κ × ν))) : List (κ × ν) :=
  ls.flatten.mergeSort fun a b => cmp a.1 b.1 != .gt

theorem sortedUnion_perm (ls : List (List (κ × ν))) : (sortedUnion cmp ls).Perm ls.flatten :=
  List.mergeSort_perm _ _

theorem mem_sortedUnion {ls : List (List (κ × ν))} {e : κ × ν} :
    e ∈ sortedUnion cmp ls ↔ ∃ l ∈ ls, e ∈ l := by
  rw [(sortedUnion_perm cmp ls).mem_iff, List.mem_flatten]

variable {cmp} [Std.TransCmp cmp]

/-- Strictly sorted lists that share no key have a strictly sorted union. -/
theorem pairwise_sortedUnion {ls : List (List (κ × ν))}
    (hsorted : ∀ l ∈ ls, l.Pairwise fun a b => cmp a.1 b.1 = .lt)
    (hdisj : ls.Pairwise fun l l' => ∀ e ∈ l, ∀ e' ∈ l', cmp e.1 e'.1 ≠ .eq) :
    (sortedUnion cmp ls).Pairwise fun a b => cmp a.1 b.1 = .lt := by
  have hle : (sortedUnion cmp ls).Pairwise fun a b => (cmp a.1 b.1 != .gt) = true :=
    List.pairwise_mergeSort (fun a b c hab hbc => by
        simp only [bne_iff_ne, ne_eq, ← Ordering.isLE_iff_ne_gt] at hab hbc ⊢
        exact Std.TransCmp.isLE_trans hab hbc)
      (fun a b => by
        cases h : cmp a.1 b.1 with
        | gt => simp [Std.OrientedCmp.lt_of_gt h]
        | _ => simp) _
  -- no two entries of the flattened lists share a key
  have hne : ls.flatten.Pairwise fun a b => cmp a.1 b.1 ≠ .eq := by
    rw [List.pairwise_flatten]
    refine ⟨fun l hl => (hsorted l hl).imp fun h => by simp [h], ?_⟩
    exact hdisj.imp fun h e he e' he' => h e he e' he'
  have hne' : (sortedUnion cmp ls).Pairwise fun a b => cmp a.1 b.1 ≠ .eq :=
    ((sortedUnion_perm cmp ls).pairwise_iff fun h hba =>
      h (Std.OrientedCmp.eq_swap.trans (by simp [hba]))).mpr hne
  refine (hle.and hne').imp fun h => ?_
  obtain ⟨hle, hne⟩ := h
  simp only [bne_iff_ne, ne_eq] at hle
  cases hc : cmp _ _ <;> simp_all
end Union
