import Mathlib

/-!
# Ordered sets as strictly increasing lists

An ordered set container (a balanced search tree) seen through its in-order
traversal: a list whose elements increase strictly.  `SortedList.insert` is the
container's `insert`, which leaves the set as it is when the element is there
already; iterating the container is reading the list from the front.

A value of `SortedList α` carries its order as a field, so every set built by
`empty` and `insert` is strictly increasing without further proof.

The one fact about whole runs that a serialiser needs is `foldl_insert`:
inserting the elements of an increasing list, in order, behind a set of smaller
elements appends them, so reading a set back in iteration order rebuilds it.
-/

/-- A strictly increasing list. -/
def SortedList (α : Type*) [LinearOrder α] := {l : List α // l.Pairwise (· < ·)}

namespace SortedList

variable {α : Type*} [LinearOrder α]

instance : Membership α (SortedList α) := ⟨fun s a => a ∈ s.1⟩

/-- The empty set. -/
def empty : SortedList α := ⟨[], List.Pairwise.nil⟩

/-- Insertion into an increasing list: before the first larger element, and not
at all when the element is there. -/
def insertList (a : α) : List α → List α
  | [] => [a]
  | b :: l => if a < b then a :: b :: l else if a = b then b :: l else b :: insertList a l

theorem mem_insertList {a x : α} {l : List α} : x ∈ insertList a l ↔ x = a ∨ x ∈ l := by
  induction l with
  | nil => simp [insertList]
  | cons b l ih =>
      unfold insertList
      split_ifs with hlt heq
      · simp
      · subst heq
        simp
      · simp only [List.mem_cons, ih]
        tauto

theorem pairwise_insertList {a : α} {l : List α} (h : l.Pairwise (· < ·)) :
    (insertList a l).Pairwise (· < ·) := by
  induction l with
  | nil => simp [insertList]
  | cons b l ih =>
      rw [List.pairwise_cons] at h
      unfold insertList
      split_ifs with hlt heq
      · exact List.Pairwise.cons (fun c hc => by
          rcases List.mem_cons.mp hc with rfl | hc
          · exact hlt
          · exact hlt.trans (h.1 c hc)) (List.Pairwise.cons h.1 h.2)
      · exact List.Pairwise.cons h.1 h.2
      · -- `b < a`: `b` stays in front of the set with `a` in it
        have hba : b < a := lt_of_le_of_ne (not_lt.mp hlt) (Ne.symm heq)
        refine List.Pairwise.cons (fun c hc => ?_) (ih h.2)
        rcases mem_insertList.mp hc with rfl | hc
        · exact hba
        · exact h.1 c hc

/-- `insert`. -/
def insert (a : α) (s : SortedList α) : SortedList α := ⟨insertList a s.1, pairwise_insertList s.2⟩

/-- An element larger than all of the set goes at its end. -/
theorem insertList_of_forall_lt {a : α} {l : List α} (h : ∀ b ∈ l, b < a) :
    insertList a l = l ++ [a] := by
  induction l with
  | nil => rfl
  | cons b l ih =>
      have hba : b < a := h b List.mem_cons_self
      unfold insertList
      rw [if_neg (not_lt.mpr hba.le), if_neg (ne_of_gt hba),
        ih (fun c hc => h c (List.mem_cons_of_mem b hc))]
      rfl

/-- **Reading a set back.**  Inserting, in order, the elements of an increasing
list behind smaller ones appends them. -/
theorem foldl_insertList {l₁ l₂ : List α} (h : (l₁ ++ l₂).Pairwise (· < ·)) :
    l₂.foldl (fun l a => insertList a l) l₁ = l₁ ++ l₂ := by
  induction l₂ generalizing l₁ with
  | nil => simp
  | cons a l₂ ih =>
      have hlt : ∀ b ∈ l₁, b < a := by
        rw [List.pairwise_append] at h
        exact fun b hb => h.2.2 b hb a List.mem_cons_self
      rw [List.foldl_cons, insertList_of_forall_lt hlt,
        ih (by rwa [List.append_assoc, List.singleton_append])]
      simp

end SortedList
