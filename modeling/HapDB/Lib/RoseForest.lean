import Mathlib

/-!
# Labelled forests and their bracket sequences

A forest of finite trees with a label at every node is written down, depth
first, as a bracket sequence: a node's label when the walk enters it, the
sequences of its children, and its label again when the walk leaves it
(`Rose.dfsForest`).  The sequences that arise so are the `Bracketed` ones
(`Rose.bracketed_iff_exists_dfsForest`); the one fact about them that a
stack-based reader of such sequences needs is that putting a pair `a a` at any
place keeps a sequence bracketed (`Rose.Bracketed.insert_pair`).

`Rose.pruneForest keep` takes away, bottom-up, every node that fails `keep`
and has no child left; its labels are a sublist of the forest's
(`Rose.labelsForest_pruneForest_sublist`).
-/

/-- A finite tree with a label at every node and its subtrees in order. -/
inductive Rose (α : Type*) where
  | node (label : α) (children : List (Rose α))
  deriving Repr

namespace Rose

variable {α : Type*}

mutual
/-- The labels, in the order the walk enters the nodes. -/
def labels : Rose α → List α
  | node a cs => a :: labelsForest cs

/-- The labels of a forest, tree after tree. -/
def labelsForest : List (Rose α) → List α
  | [] => []
  | t :: ts => labels t ++ labelsForest ts
end

mutual
/-- The bracket sequence of a tree: its label, its children's sequences, its
label again. -/
def dfs : Rose α → List α
  | node a cs => a :: dfsForest cs ++ [a]

/-- The bracket sequence of a forest: its trees' sequences, in order. -/
def dfsForest : List (Rose α) → List α
  | [] => []
  | t :: ts => dfs t ++ dfsForest ts
end

mutual
/-- A tree with every node that fails `keep` and has no child left taken away,
bottom-up: nothing when the root goes too. -/
def prune (keep : α → Bool) : Rose α → Option (Rose α)
  | node a cs =>
      let cs' := pruneForest keep cs
      if cs'.isEmpty && !keep a then none else some (node a cs')

/-- The pruned trees of a forest that are left. -/
def pruneForest (keep : α → Bool) : List (Rose α) → List (Rose α)
  | [] => []
  | t :: ts => (prune keep t).toList ++ pruneForest keep ts
end

@[simp] theorem labels_node (a : α) (cs : List (Rose α)) :
    labels (node a cs) = a :: labelsForest cs := by
  rw [labels]

@[simp] theorem labelsForest_nil : labelsForest ([] : List (Rose α)) = [] := by
  rw [labelsForest]

@[simp] theorem labelsForest_cons (t : Rose α) (ts : List (Rose α)) :
    labelsForest (t :: ts) = labels t ++ labelsForest ts := by
  rw [labelsForest]

@[simp] theorem dfs_node (a : α) (cs : List (Rose α)) :
    dfs (node a cs) = a :: dfsForest cs ++ [a] := by
  rw [dfs]

@[simp] theorem dfsForest_nil : dfsForest ([] : List (Rose α)) = [] := by
  rw [dfsForest]

@[simp] theorem dfsForest_cons (t : Rose α) (ts : List (Rose α)) :
    dfsForest (t :: ts) = dfs t ++ dfsForest ts := by
  rw [dfsForest]

@[simp] theorem pruneForest_nil (keep : α → Bool) : pruneForest keep ([] : List (Rose α)) = [] := by
  rw [pruneForest]

@[simp] theorem pruneForest_cons (keep : α → Bool) (t : Rose α) (ts : List (Rose α)) :
    pruneForest keep (t :: ts) = (prune keep t).toList ++ pruneForest keep ts := by
  rw [pruneForest]

theorem prune_node (keep : α → Bool) (a : α) (cs : List (Rose α)) :
    prune keep (node a cs) =
      if (pruneForest keep cs).isEmpty && !keep a then none else some (node a (pruneForest keep cs)) := by
  rw [prune]

theorem labelsForest_append (f g : List (Rose α)) :
    labelsForest (f ++ g) = labelsForest f ++ labelsForest g := by
  induction f with
  | nil => simp
  | cons t ts ih => simp [ih]

theorem dfsForest_append (f g : List (Rose α)) :
    dfsForest (f ++ g) = dfsForest f ++ dfsForest g := by
  induction f with
  | nil => simp
  | cons t ts ih => simp [ih]

@[simp] theorem dfsForest_singleton (t : Rose α) : dfsForest [t] = dfs t := by
  simp

/-- The root's label is the first letter of a tree's sequence. -/
theorem dfs_ne_nil (t : Rose α) : dfs t ≠ [] := by
  cases t
  simp

theorem dfsForest_eq_nil {f : List (Rose α)} : dfsForest f = [] ↔ f = [] := by
  cases f with
  | nil => simp
  | cons t ts => simp [dfs_ne_nil]

mutual
/-- A bracket sequence holds the labels of the tree and nothing else. -/
theorem mem_dfs {x : α} : ∀ t : Rose α, x ∈ dfs t ↔ x ∈ labels t
  | node a cs => by
      have ih := mem_dfsForest (x := x) cs
      simp only [dfs_node, labels_node, List.mem_append, List.mem_cons, List.not_mem_nil, or_false, ih]
      tauto

theorem mem_dfsForest {x : α} : ∀ f : List (Rose α), x ∈ dfsForest f ↔ x ∈ labelsForest f
  | [] => by simp
  | t :: ts => by
      simp only [dfsForest_cons, labelsForest_cons, List.mem_append, mem_dfs t, mem_dfsForest ts]
end

mutual
/-- Pruning keeps some of the labels, in their order. -/
theorem labels_prune_sublist (keep : α → Bool) :
    ∀ t : Rose α, (labelsForest (prune keep t).toList).Sublist (labels t)
  | node a cs => by
      have ih := labelsForest_pruneForest_sublist keep cs
      rw [prune_node]
      split
      · simp
      · simpa using ih.cons_cons a

theorem labelsForest_pruneForest_sublist (keep : α → Bool) :
    ∀ f : List (Rose α), (labelsForest (pruneForest keep f)).Sublist (labelsForest f)
  | [] => by simp
  | t :: ts => by
      rw [pruneForest_cons, labelsForest_append, labelsForest_cons]
      exact (labels_prune_sublist keep t).append (labelsForest_pruneForest_sublist keep ts)
end

/-- The number of nodes that pruning takes away. -/
def prunedCount (keep : α → Bool) (f : List (Rose α)) : ℕ :=
  (labelsForest f).length - (labelsForest (pruneForest keep f)).length

/-! ## Bracketed sequences -/

/-- A bracket sequence: empty, or a label, a bracket sequence, the same label,
then a bracket sequence. -/
inductive Bracketed : List α → Prop
  | nil : Bracketed []
  | wrap (a : α) {u v : List α} : Bracketed u → Bracketed v → Bracketed (a :: u ++ a :: v)

theorem bracketed_dfsForest : ∀ f : List (Rose α), Bracketed (dfsForest f)
  | [] => by simpa using Bracketed.nil
  | node a cs :: ts => by
      have h := Bracketed.wrap a (bracketed_dfsForest cs) (bracketed_dfsForest ts)
      simpa using h

theorem exists_dfsForest_of_bracketed {w : List α} (h : Bracketed w) : ∃ f, dfsForest f = w := by
  induction h with
  | nil => exact ⟨[], dfsForest_nil⟩
  | wrap a _ _ ihu ihv =>
      obtain ⟨fu, rfl⟩ := ihu
      obtain ⟨fv, rfl⟩ := ihv
      exact ⟨node a fu :: fv, by simp⟩

/-- The bracketed sequences are the bracket sequences of forests. -/
theorem bracketed_iff_exists_dfsForest {w : List α} : Bracketed w ↔ ∃ f, dfsForest f = w :=
  ⟨exists_dfsForest_of_bracketed, fun ⟨f, hf⟩ => hf ▸ bracketed_dfsForest f⟩

/-- A pair `a a` put anywhere into a bracketed sequence leaves it bracketed:
it is a new leaf. -/
theorem Bracketed.insert_pair (a : α) {w : List α} (h : Bracketed w) :
    ∀ {x y : List α}, w = x ++ y → Bracketed (x ++ a :: a :: y) := by
  induction h with
  | nil =>
      intro x y hxy
      obtain ⟨rfl, rfl⟩ := List.append_eq_nil_iff.mp hxy.symm
      exact .wrap a .nil .nil
  | @wrap b u v hu hv ihu ihv =>
      intro x y hxy
      cases x with
      | nil =>
          -- the leaf goes in front of the whole sequence
          subst hxy
          exact .wrap a .nil (.wrap b hu hv)
      | cons c x =>
          simp only [List.cons_append, List.cons.injEq] at hxy
          obtain ⟨rfl, hxy⟩ := hxy
          rcases List.append_eq_append_iff.mp hxy.symm with ⟨u', rfl, rfl⟩ | ⟨c', rfl, hcv⟩
          · -- inside the first child sequence
            have := Bracketed.wrap b (ihu (x := x) (y := u') rfl) hv
            simpa using this
          · cases c' with
            | nil =>
                -- right before the closing label
                simp only [List.nil_append] at hcv
                subst hcv
                have := Bracketed.wrap b (ihu (x := u) (y := []) (by simp)) hv
                simpa using this
            | cons d c' =>
                -- inside the sequence after the closing label
                simp only [List.cons_append, List.cons.injEq] at hcv
                obtain ⟨rfl, rfl⟩ := hcv
                have := Bracketed.wrap b hu (ihv (x := c') (y := y) rfl)
                simpa using this

end Rose
