import HapDB.Db.InheritanceTree

/-!
# The inheritance tree is checked and pruned exactly, when numbers do not repeat

Both passes of `BuildInheritanceTree` over a stored sequence read a number
equal to the last element of the tree as the closing of that node.  When the
stored forest has pairwise distinct numbers, none of them the input's own, a
number is never equal to the last element when the walk enters it: what lies
on top is the input's own number, the parent's number or the closing number of
the previous sibling.  The check then brings the tree back to its length
without popping below it (`verifyInheritanceTree_dfsForest_append`), and the
purge builds the forest pruned bottom-up
(`foldl_purgeStep_dfsForest`).

Whatever the numbers, a sequence that the check accepts is bracketed
(`bracketed_of_verifyInheritanceTree`): each pop closes the node on top, and a
pop next to its push is a new leaf (`Rose.Bracketed.insert_pair`).  A stored
sequence that is not bracketed is therefore always reported as corrupt.

The numbers are not always distinct: a file whose stored forest holds its own
number as a root, such as the single leaf `[10, 10]` of file `10`, has that
root taken for its own closing, and the check pops below its start
(`own_number_in_stored_tree_is_corrupt`).
-/

namespace HapDB

open Rose

/-- The head of a reversed list put in front: from the list or from the rest. -/
theorem head?_reverse_append {x : UInt64} {l s : List UInt64}
    (h : (l.reverse ++ s).head? = some x) : x ∈ l ∨ s.head? = some x := by
  rw [List.head?_append, List.head?_reverse] at h
  cases hl : l.getLast? with
  | none => simp_all
  | some y =>
      simp only [hl, Option.some_or, Option.some.injEq] at h
      subst h
      exact .inl (List.mem_of_getLast? hl)

/-- The head of a non-empty reversed list put in front is its last element. -/
theorem mem_of_head?_reverse_append {x : UInt64} {l s : List UInt64} (hl : l ≠ [])
    (h : (l.reverse ++ s).head? = some x) : x ∈ l := by
  rw [List.head?_append_of_ne_nil _ (List.reverse_ne_nil_iff.mpr hl), List.head?_reverse] at h
  exact List.mem_of_getLast? h

/-! ## The check -/

section Verify

variable (size : ℕ)

mutual
/-- A tree with distinct numbers, not on top of the tree built so far: its
sequence is pushed and popped back to where it started. -/
theorem verifyInheritanceTree_dfs_append :
    ∀ (t : Rose UInt64) (tree rest : List UInt64), size ≤ tree.length → (labels t).Nodup →
      (∀ x ∈ labels t, tree.head? ≠ some x) →
      verifyInheritanceTree size tree (dfs t ++ rest) = verifyInheritanceTree size tree rest
  | node a cs, tree, rest, hsize, hnodup, htop => by
      rw [labels_node, List.nodup_cons] at hnodup
      have hchildren : ∀ x ∈ labelsForest cs, (a :: tree).head? ≠ some x := by
        intro x hx hax
        exact hnodup.1 (Option.some_injective _ hax ▸ hx)
      -- the walk enters `a`: it is pushed
      have hpush : tree.head? ≠ some a := htop a List.mem_cons_self
      have hstep := verifyInheritanceTree_dfsForest_append cs (a :: tree) (a :: rest)
        (by simp; omega) hnodup.2 hchildren
      simp only [dfs_node, List.cons_append, List.append_assoc, List.nil_append]
      rw [verifyInheritanceTree, if_neg hpush, hstep]
      -- the walk leaves `a`: it is on top and popped
      simp [verifyInheritanceTree, Nat.not_lt.mpr hsize]

/-- A forest with distinct numbers, none on top of the tree built so far. -/
theorem verifyInheritanceTree_dfsForest_append :
    ∀ (f : List (Rose UInt64)) (tree rest : List UInt64), size ≤ tree.length →
      (labelsForest f).Nodup → (∀ x ∈ labelsForest f, tree.head? ≠ some x) →
      verifyInheritanceTree size tree (dfsForest f ++ rest) = verifyInheritanceTree size tree rest
  | [], _, _, _, _, _ => by simp
  | t :: ts, tree, rest, hsize, hnodup, htop => by
      rw [labelsForest_cons, List.nodup_append] at hnodup
      rw [dfsForest_cons, List.append_assoc,
        verifyInheritanceTree_dfs_append t tree _ hsize hnodup.1 (fun x hx => htop x (by simp [hx])),
        verifyInheritanceTree_dfsForest_append ts tree rest hsize hnodup.2.1
          (fun x hx => htop x (by simp [hx]))]
end

end Verify

/-- A run of the check from the tree `opened ++ base` that ends at the length of
`base` closes what `opened` holds: the opened numbers, oldest first, then the
numbers read, are bracketed.  The induction is on the numbers read; a pop
closes the node on top, which `Rose.Bracketed.insert_pair` turns into a leaf. -/
theorem bracketed_of_verifyInheritanceTree (base : List UInt64) :
    ∀ (w opened : List UInt64),
      (verifyInheritanceTree base.length (opened ++ base) w).length = base.length →
      Bracketed (opened.reverse ++ w)
  | [], opened, h => by
      rw [verifyInheritanceTree, List.length_append] at h
      have : opened = [] := List.eq_nil_of_length_eq_zero (by omega)
      subst this
      exact .nil
  | fn :: rest, opened, h => by
      rw [verifyInheritanceTree] at h
      split_ifs at h with htop hbelow
      · -- a pop that goes below `base` ends the run short
        exact absurd h (by omega)
      · -- a pop: `fn` closes the number opened last
        cases opened with
        | nil =>
            simp only [List.nil_append] at hbelow htop
            cases base with
            | nil => simp at htop
            | cons b bs => simp at hbelow
        | cons o opened =>
            simp only [List.cons_append, List.head?_cons, Option.some.injEq] at htop
            subst htop
            have ih := bracketed_of_verifyInheritanceTree base rest opened (by simpa using h)
            simpa using Bracketed.insert_pair o ih rfl
      · -- a push: `fn` is opened
        have ih := bracketed_of_verifyInheritanceTree base rest (fn :: opened) (by simpa using h)
        simpa using ih

/-- A sequence the check accepts is bracketed. -/
theorem bracketed_of_verify_accepts {tree w : List UInt64}
    (h : (verifyInheritanceTree tree.length tree w).length = tree.length) : Bracketed w := by
  simpa using bracketed_of_verifyInheritanceTree tree w [] (by simpa using h)

/-! ## The purge -/

section Purge

variable (dependenceMap : List UInt64)

/-- A number that is not on top is pushed. -/
theorem purgeStep_of_head?_ne (tree : List UInt64) (count : ℕ) {fn : UInt64}
    (h : tree.head? ≠ some fn) : purgeStep dependenceMap (tree, count) fn = (fn :: tree, count) := by
  simp [purgeStep, h]

mutual
/-- The purge of a tree with distinct numbers, not on top of the tree built so
far: it pushes the pruned tree and counts what pruning took away. -/
theorem foldl_purgeStep_dfs :
    ∀ (t : Rose UInt64) (tree : List UInt64) (count : ℕ), (labels t).Nodup →
      (∀ x ∈ labels t, tree.head? ≠ some x) →
      (dfs t).foldl (purgeStep dependenceMap) (tree, count) =
        ((dfsForest (prune dependenceMap.contains t).toList).reverse ++ tree,
          count + prunedCount dependenceMap.contains [t])
  | node a cs, tree, count, hnodup, htop => by
      rw [labels_node, List.nodup_cons] at hnodup
      have hchildren : ∀ x ∈ labelsForest cs, (a :: tree).head? ≠ some x := by
        intro x hx hax
        exact hnodup.1 (Option.some_injective _ hax ▸ hx)
      have ih := foldl_purgeStep_dfsForest cs (a :: tree) count hnodup.2 hchildren
      have hsub := labelsForest_pruneForest_sublist dependenceMap.contains cs
      rw [dfs_node, List.foldl_append, List.foldl_cons, List.foldl_nil, List.foldl_cons,
        purgeStep_of_head?_ne dependenceMap tree count (htop a List.mem_cons_self), ih]
      cases hpcs : pruneForest dependenceMap.contains cs with
      | nil =>
          -- no child is left: `a` is on top when the walk leaves it
          by_cases hkeep : a ∈ dependenceMap
          · simp [purgeStep, hkeep, prunedCount, prune_node, hpcs]
          · simp [purgeStep, hkeep, prunedCount, prune_node, hpcs]
            omega
      | cons p ps =>
          -- the last child left is on top, and `a` closes over it
          have hlast : ((dfsForest (p :: ps)).reverse ++ a :: tree).head? ≠ some a := by
            intro h
            have ha := mem_of_head?_reverse_append (dfsForest_eq_nil.not.mpr (List.cons_ne_nil p ps)) h
            rw [mem_dfsForest, ← hpcs] at ha
            exact hnodup.1 (hsub.subset ha)
          rw [purgeStep_of_head?_ne dependenceMap _ _ hlast]
          simp [prunedCount, prune_node, hpcs]

/-- The purge of a forest with distinct numbers, none on top of the tree built
so far. -/
theorem foldl_purgeStep_dfsForest :
    ∀ (f : List (Rose UInt64)) (tree : List UInt64) (count : ℕ), (labelsForest f).Nodup →
      (∀ x ∈ labelsForest f, tree.head? ≠ some x) →
      (dfsForest f).foldl (purgeStep dependenceMap) (tree, count) =
        ((dfsForest (pruneForest dependenceMap.contains f)).reverse ++ tree,
          count + prunedCount dependenceMap.contains f)
  | [], tree, count, _, _ => by simp [prunedCount]
  | t :: ts, tree, count, hnodup, htop => by
      rw [labelsForest_cons, List.nodup_append] at hnodup
      have ht := foldl_purgeStep_dfs t tree count hnodup.1 (fun x hx => htop x (by simp [hx]))
      -- what the tree leaves on top is its root, which the rest of the forest does not hold
      have htop' : ∀ x ∈ labelsForest ts,
          ((dfsForest (prune dependenceMap.contains t).toList).reverse ++ tree).head? ≠ some x := by
        intro x hx h
        rcases head?_reverse_append h with hmem | hmem
        · rw [mem_dfsForest] at hmem
          exact hnodup.2.2 x ((labels_prune_sublist _ t).subset (by simpa using hmem)) x hx rfl
        · exact htop x (by simp [hx]) hmem
      have hts := foldl_purgeStep_dfsForest ts _ (count + prunedCount dependenceMap.contains [t])
        hnodup.2.1 htop'
      have hlt := (labels_prune_sublist dependenceMap.contains t).length_le
      have hlts := (labelsForest_pruneForest_sublist dependenceMap.contains ts).length_le
      rw [dfsForest_cons, List.foldl_append, ht, hts, pruneForest_cons, dfsForest_append]
      simp only [List.reverse_append, List.append_assoc, prunedCount, labelsForest_cons,
        labelsForest_append, labelsForest_nil, List.append_nil, pruneForest_cons, pruneForest_nil,
        List.length_append, Prod.mk.injEq, true_and] at hlt ⊢
      omega
end

end Purge

/-! ## One input -/

section Input

variable (getTableProperties : FileMetaData → Except Status (List UInt64))
  (dependenceMap : List UInt64)

/-- One input whose stored sequence can be read: corrupt when the check does
not come back to the length it started from, otherwise the purged merge
between two copies of the file's number. -/
theorem addInheritanceInput_of_ok (tree : List UInt64) (count : ℕ) (f : FileMetaData)
    {stored : List UInt64} (hprops : getTableProperties f = .ok stored) :
    addInheritanceInput getTableProperties dependenceMap (tree, count) f =
      if (verifyInheritanceTree (f.fd.getNumber :: tree).length (f.fd.getNumber :: tree)
          stored).length ≠ (f.fd.getNumber :: tree).length then
        .error (Status.Corruption "BuildInheritanceTree: bad inheritance_tree, file_number "
          (toString f.fd.getNumber))
      else
        .ok (f.fd.getNumber ::
            (stored.foldl (purgeStep dependenceMap) (f.fd.getNumber :: tree, count)).1,
          (stored.foldl (purgeStep dependenceMap) (f.fd.getNumber :: tree, count)).2) := by
  simp only [addInheritanceInput, hprops, Except.bind_ok]
  split_ifs <;> rfl

/-- An input whose stored forest has distinct numbers, none its own, goes in
as a root over its pruned forest. -/
theorem addInheritanceInput_of_forest (tree : List UInt64) (count : ℕ) (f : FileMetaData)
    {forest : List (Rose UInt64)} (hprops : getTableProperties f = .ok (dfsForest forest))
    (hnodup : (labelsForest forest).Nodup) (hown : f.fd.getNumber ∉ labelsForest forest) :
    addInheritanceInput getTableProperties dependenceMap (tree, count) f =
      .ok ((dfs (node f.fd.getNumber (pruneForest dependenceMap.contains forest))).reverse ++ tree,
        count + prunedCount dependenceMap.contains forest) := by
  -- the input's own number is on top, and the forest does not hold it
  have htop : ∀ x ∈ labelsForest forest, (f.fd.getNumber :: tree).head? ≠ some x := by
    intro x hx h
    exact hown (Option.some_injective _ h ▸ hx)
  have hverify := verifyInheritanceTree_dfsForest_append _ forest (f.fd.getNumber :: tree) []
    le_rfl hnodup htop
  have hpurge := foldl_purgeStep_dfsForest dependenceMap forest (f.fd.getNumber :: tree) count
    hnodup htop
  rw [List.append_nil, verifyInheritanceTree] at hverify
  rw [addInheritanceInput_of_ok getTableProperties dependenceMap tree count f hprops, hverify,
    if_neg (not_not.mpr rfl), hpurge]
  simp

/-- An input whose stored sequence is not bracketed is reported as corrupt. -/
theorem addInheritanceInput_of_not_bracketed (tree : List UInt64) (count : ℕ) (f : FileMetaData)
    {stored : List UInt64} (hprops : getTableProperties f = .ok stored) (hbad : ¬ Bracketed stored) :
    addInheritanceInput getTableProperties dependenceMap (tree, count) f =
      .error (Status.Corruption "BuildInheritanceTree: bad inheritance_tree, file_number "
        (toString f.fd.getNumber)) := by
  rw [addInheritanceInput_of_ok getTableProperties dependenceMap tree count f hprops,
    if_pos fun h => hbad (bracketed_of_verify_accepts h)]

/-! ## Every input -/

/-- The inputs, each a root over its stored forest pruned, in input order. -/
def prunedInheritanceForest (forestOf : FileMetaData → List (Rose UInt64)) (files : List FileMetaData) :
    List (Rose UInt64) :=
  files.map fun f => node f.fd.getNumber (pruneForest dependenceMap.contains (forestOf f))

/-- The run over inputs whose stored forests have distinct numbers, none their
own: each input is put in after the others, by induction over the inputs. -/
theorem foldlM_addInheritanceInput_of_forests (forestOf : FileMetaData → List (Rose UInt64)) :
    ∀ (files : List FileMetaData) (tree : List UInt64) (count : ℕ),
      (∀ f ∈ files, getTableProperties f = .ok (dfsForest (forestOf f)) ∧
        (labelsForest (forestOf f)).Nodup ∧ f.fd.getNumber ∉ labelsForest (forestOf f)) →
      files.foldlM (addInheritanceInput getTableProperties dependenceMap) (tree, count) =
        .ok ((dfsForest (prunedInheritanceForest dependenceMap forestOf files)).reverse ++ tree,
          count + (files.map fun f => prunedCount dependenceMap.contains (forestOf f)).sum)
  | [], tree, count, _ => by simp [prunedInheritanceForest, pure, Except.pure]
  | f :: fs, tree, count, h => by
      obtain ⟨hprops, hnodup, hown⟩ := h f List.mem_cons_self
      rw [List.foldlM_cons,
        addInheritanceInput_of_forest getTableProperties dependenceMap tree count f hprops hnodup hown]
      have ih := foldlM_addInheritanceInput_of_forests forestOf fs
        ((dfs (node f.fd.getNumber (pruneForest dependenceMap.contains (forestOf f)))).reverse ++ tree)
        (count + prunedCount dependenceMap.contains (forestOf f))
        (fun g hg => h g (List.mem_cons_of_mem _ hg))
      simp only [Except.bind_ok, ih]
      simp [prunedInheritanceForest, Nat.add_assoc]

/-- The run over inputs whose stored sequences can be read, one of which is not
bracketed: it stops at a corrupt input, this one or an earlier one. -/
theorem foldlM_addInheritanceInput_corrupt (stored : FileMetaData → List UInt64) :
    ∀ (files : List FileMetaData) (tree : List UInt64) (count : ℕ),
      (∀ f ∈ files, getTableProperties f = .ok (stored f)) →
      (∃ f ∈ files, ¬ Bracketed (stored f)) →
      ∃ s, files.foldlM (addInheritanceInput getTableProperties dependenceMap) (tree, count) =
        .error s ∧ s.code = .kCorruption
  | [], _, _, _, ⟨_, hf, _⟩ => absurd hf List.not_mem_nil
  | f :: fs, tree, count, hprops, hbad => by
      rw [List.foldlM_cons,
        addInheritanceInput_of_ok getTableProperties dependenceMap tree count f (hprops f List.mem_cons_self)]
      split
      · -- the check of this input fails
        exact ⟨_, rfl, rfl⟩
      · -- this input is bracketed, so one of the later ones is not
        rename_i haccept
        have hthis := bracketed_of_verify_accepts (not_not.mp haccept)
        obtain ⟨g, hg, hgbad⟩ := hbad
        have hlater : ∃ g ∈ fs, ¬ Bracketed (stored g) := by
          rcases List.mem_cons.mp hg with rfl | hg
          · exact absurd hthis hgbad
          · exact ⟨g, hg, hgbad⟩
        exact foldlM_addInheritanceInput_corrupt stored fs _ _
          (fun g hg => hprops g (List.mem_cons_of_mem _ hg)) hlater

end Input

/-! ## The set of a tree -/

/-- `std::sort` leaves the numbers in order. -/
theorem mergeSort_pairwise_le (tree : List UInt64) : (tree.mergeSort (· ≤ ·)).Pairwise (· ≤ ·) := by
  have := @List.pairwise_mergeSort _ (fun a b : UInt64 => decide (a ≤ b))
    (fun a b c hab hbc => by simp only [decide_eq_true_eq] at *; exact UInt64.le_trans hab hbc)
    (fun a b => by simpa using UInt64.le_total a b) tree
  simpa using this

/-- `InheritanceTreeToSet` is increasing: `std::unique` of a sorted list drops
exactly the repeats. -/
theorem InheritanceTreeToSet_pairwise (tree : List UInt64) :
    (InheritanceTreeToSet tree).Pairwise (· < ·) := by
  rw [InheritanceTreeToSet, (mergeSort_pairwise_le tree).destutter_eq_dedup]
  have hle := (mergeSort_pairwise_le tree).sublist (List.dedup_sublist _)
  exact (hle.and (List.nodup_dedup _)).imp fun h => UInt64.lt_of_le_of_ne h.1 h.2

/-- `InheritanceTreeToSet` holds the numbers of the tree. -/
theorem mem_InheritanceTreeToSet {n : UInt64} {tree : List UInt64} :
    n ∈ InheritanceTreeToSet tree ↔ n ∈ tree := by
  rw [InheritanceTreeToSet, (mergeSort_pairwise_le tree).destutter_eq_dedup, List.mem_dedup,
    List.mem_mergeSort]

/-! ## The whole build -/

theorem inheritance_tree_pruned_exactly (inputs : List CompactionInputFiles)
    (dependenceMap : List UInt64) (getTableProperties : FileMetaData → Except Status (List UInt64))
    (stored : FileMetaData → List UInt64)
    (hprops : ∀ f ∈ inputs.flatMap (·.files), getTableProperties f = .ok (stored f)) :
    ((∃ f ∈ inputs.flatMap (·.files), ¬ Bracketed (stored f)) →
        ∃ s, BuildInheritanceTree inputs dependenceMap getTableProperties = .error s ∧
          s.code = .kCorruption) ∧
      ∀ forestOf : FileMetaData → List (Rose UInt64),
        (∀ f ∈ inputs.flatMap (·.files), dfsForest (forestOf f) = stored f ∧
          (labelsForest (forestOf f)).Nodup ∧ f.fd.getNumber ∉ labelsForest (forestOf f)) →
        BuildInheritanceTree inputs dependenceMap getTableProperties =
            .ok (dfsForest (prunedInheritanceForest dependenceMap forestOf (inputs.flatMap (·.files))),
              ((inputs.flatMap (·.files)).map fun f =>
                prunedCount dependenceMap.contains (forestOf f)).sum) ∧
          (InheritanceTreeToSet (dfsForest (prunedInheritanceForest dependenceMap forestOf
            (inputs.flatMap (·.files))))).Pairwise (· < ·) ∧
          ∀ n, n ∈ InheritanceTreeToSet (dfsForest (prunedInheritanceForest dependenceMap forestOf
              (inputs.flatMap (·.files)))) ↔
            n ∈ labelsForest (prunedInheritanceForest dependenceMap forestOf (inputs.flatMap (·.files))) := by
  refine ⟨fun hbad => ?_, fun forestOf hforest => ⟨?_, InheritanceTreeToSet_pairwise _, fun n => ?_⟩⟩
  · -- a stored sequence that is not bracketed stops the run
    obtain ⟨s, hs, hcode⟩ := foldlM_addInheritanceInput_corrupt getTableProperties dependenceMap
      stored _ [] 0 hprops hbad
    exact ⟨s, by rw [BuildInheritanceTree, hs]; rfl, hcode⟩
  · -- every input goes in as a root over its pruned forest
    have hrun := foldlM_addInheritanceInput_of_forests getTableProperties dependenceMap forestOf _ [] 0
      fun f hf => ⟨(hprops f hf).trans (by rw [(hforest f hf).1]), (hforest f hf).2⟩
    simp [BuildInheritanceTree, hrun, pure, Except.pure]
  · rw [mem_InheritanceTreeToSet, mem_dfsForest]

/-- The garbage collection of the source's comment: inputs `10`, `9` and `11`,
stored as `[3,1,1,2,2,3,7,4,4,5,5,6,6,7]`, `[8,8]` and `[]`. -/
def gcExampleInputs : List CompactionInputFiles :=
  [⟨[{ fd := FileDescriptor.make3 10 0 0 }, { fd := FileDescriptor.make3 9 0 0 },
    { fd := FileDescriptor.make3 11 0 0 }]⟩]

/-- The stored `inheritance_tree` of each input of `gcExampleInputs`. -/
def gcExampleStored (f : FileMetaData) : List UInt64 :=
  if f.fd.getNumber = 10 then [3, 1, 1, 2, 2, 3, 7, 4, 4, 5, 5, 6, 6, 7]
  else if f.fd.getNumber = 9 then [8, 8] else []

/-- The forests the stored sequences of `gcExampleInputs` are written from. -/
def gcExampleForest (f : FileMetaData) : List (Rose UInt64) :=
  if f.fd.getNumber = 10 then [node 3 [node 1 [], node 2 []], node 7 [node 4 [], node 5 [], node 6 []]]
  else if f.fd.getNumber = 9 then [node 8 []] else []

theorem gc_example_inheritance_tree :
    BuildInheritanceTree gcExampleInputs [5, 6, 8, 9, 10, 11] (fun f => .ok (gcExampleStored f)) =
      .ok ([10, 7, 5, 5, 6, 6, 7, 10, 9, 8, 8, 9, 11, 11], 4) := by
  have h := (inheritance_tree_pruned_exactly gcExampleInputs [5, 6, 8, 9, 10, 11]
    (fun f => .ok (gcExampleStored f)) gcExampleStored (fun _ _ => rfl)).2 gcExampleForest
    (by decide)
  rw [h.1]
  decide

/-- A file whose stored forest is a leaf with its own number is reported as
corrupt; a stored forest with a number under the same number is read as two
siblings, and the purge takes away nodes that have a child left. -/
theorem own_number_in_stored_tree_is_corrupt :
    dfsForest [node (10 : UInt64) []] = [10, 10] ∧
      BuildInheritanceTree [⟨[{ fd := FileDescriptor.make3 10 0 0 }]⟩] [] (fun _ => .ok [10, 10]) =
        .error (Status.Corruption "BuildInheritanceTree: bad inheritance_tree, file_number " "10") ∧
      dfsForest [node (2 : UInt64) [node 2 [node 3 []]]] = [2, 2, 3, 3, 2, 2] ∧
      dfsForest (pruneForest ([3] : List UInt64).contains [node 2 [node 2 [node 3 []]]]) =
        [2, 2, 3, 3, 2, 2] ∧
      BuildInheritanceTree [⟨[{ fd := FileDescriptor.make3 1 0 0 }]⟩] [3]
        (fun _ => .ok [2, 2, 3, 3, 2, 2]) = .ok ([1, 3, 3, 1], 2) := by
  decide +kernel

end HapDB
