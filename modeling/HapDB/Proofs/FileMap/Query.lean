import HapDB.Db.FileMap

/-!
# Queries of the file map stop, and answer what they should

`QueryFileNumber` and `QueryFileMeta` walk from the node of `fn` to the first
child that is visible in the reader's version `v` and contains the key, for as
long as there is one.  Nothing in the loop bounds the walk; what does is the
precondition `AddDerivedNode` documents: a child is newer than its parent.  The
walk only enters visible nodes, whose version numbers are at most `v`, and
those numbers grow along every edge, so the walk is over within `v` steps.

* `EdgesAscend`: every edge of the map goes to a newer node.  The empty map has
  it, `AddNode` keeps it, and `AddDerivedNode` keeps it when the child is newer
  than the parent (`edgesAscend_AddNode`, `edgesAscend_AddDerivedNode`), so
  every sequence of calls that respects the precondition keeps it
  (`edgesAscend_runCalls`).
* `chase_queryStep_isSome`: on such a map, fuel above `v` is enough for the walk.
* `Resolves`: what an answer is — a visible node reached along visible edges,
  containing the key, with no visible child that contains it.  Every answer
  of the walk is one (`resolves_of_queryNode`), with or without the
  precondition.
* `QueryFails`: when the answer is Corruption instead.

The two queries share their loop (`queryNode`) and differ only in the field
of the node they return.
-/

namespace HapDB

namespace FileMap

/-! ## Edges go to newer nodes -/

/-- Every edge of the map goes from a node to a newer one. -/
def EdgesAscend (fm : FileMap) : Prop :=
  ∀ p pn, fm.nodes p = some pn → ∀ c ∈ pn.children, ∀ cn, fm.nodes c = some cn →
    pn.versionNum < cn.versionNum

/-- The version number the child of `AddDerivedNode(p, c, v)` has once the
call has run: that of the node it already has, or `v` for the node the call
creates. -/
def childVersion (fm : FileMap) (file : FileMetaData) (v : UInt64) : UInt64 :=
  match fm.nodes file.fd.getNumber with
  | some cn => cn.versionNum
  | none => v

/-- The precondition `AddDerivedNode` documents: the child is newer than its
parent. -/
def ChildNewer (fm : FileMap) (p : UInt64) (file : FileMetaData) (v : UInt64) : Prop :=
  ∀ pn, fm.nodes p = some pn → pn.versionNum < childVersion fm file v

theorem edgesAscend_empty : EdgesAscend empty := by
  intro p pn hp
  simp [empty] at hp

theorem edgesAscend_insertNode {fm : FileMap} (hasc : EdgesAscend fm) {fileNumber : UInt64}
    {node : MapNode} (hnew : node.children = []) (hfree : fm.nodes fileNumber = none) :
    EdgesAscend (fm.insertNode fileNumber node hnew) := by
  intro p pn hp c hc cn hcn
  -- the new node has no children, and no old edge ends at its number
  by_cases hpf : p = fileNumber
  · subst hpf
    simp only [insertNode, Function.update_self, Option.some.injEq] at hp
    simp [← hp, hnew] at hc
  · simp only [insertNode, Function.update_of_ne hpf] at hp
    have hcf : c ≠ fileNumber := by
      rintro rfl
      simpa [hfree] using fm.children_mem p pn hp c hc
    simp only [insertNode, Function.update_of_ne hcf] at hcn
    exact hasc p pn hp c hc cn hcn

/-- A node after `appendChild`: the node before, with the same version number,
and with one more child if it is the parent's. -/
theorem appendChild_nodes_eq_some {fm : FileMap} {parent child : UInt64}
    {hchild : (fm.nodes child).isSome} {fn : UInt64} {n' : MapNode}
    (h : (fm.appendChild parent child hchild).nodes fn = some n') :
    ∃ n, fm.nodes fn = some n ∧ n'.versionNum = n.versionNum ∧
      ∀ c ∈ n'.children, c ∈ n.children ∨ (fn = parent ∧ c = child) := by
  simp only [appendChild] at h
  split at h
  · rename_i hfn
    obtain ⟨n, hn, rfl⟩ := Option.map_eq_some_iff.mp h
    refine ⟨n, hn, rfl, fun c hc => ?_⟩
    rcases List.mem_append.mp hc with hc | hc
    · exact Or.inl hc
    · exact Or.inr ⟨hfn, List.mem_singleton.mp hc⟩
  · exact ⟨n', h, rfl, fun c hc => Or.inl hc⟩

theorem edgesAscend_appendChild {fm : FileMap} (hasc : EdgesAscend fm) {parent child : UInt64}
    (hchild : (fm.nodes child).isSome)
    (hnewer : ∀ pn cn, fm.nodes parent = some pn → fm.nodes child = some cn →
      pn.versionNum < cn.versionNum) :
    EdgesAscend (fm.appendChild parent child hchild) := by
  intro p pn hp c hc cn hcn
  obtain ⟨pn₀, hp₀, hpv, hpc⟩ := appendChild_nodes_eq_some hp
  obtain ⟨cn₀, hc₀, hcv, -⟩ := appendChild_nodes_eq_some hcn
  rw [hpv, hcv]
  -- an old edge, or the new one
  rcases hpc c hc with hold | ⟨rfl, rfl⟩
  · exact hasc p pn₀ hp₀ c hold cn₀ hc₀
  · exact hnewer pn₀ cn₀ hp₀ hc₀

theorem edgesAscend_AddNode {fm : FileMap} (hasc : EdgesAscend fm) (fmeta : FileMetaPtr)
    (file : FileMetaData) (v : UInt64) : EdgesAscend (fm.AddNode fmeta file v).2 := by
  dsimp only [AddNode]
  split
  · exact hasc
  · exact edgesAscend_insertNode hasc rfl (Option.not_isSome_iff_eq_none.mp ‹_›)

/-- `withNode` leaves every node that is already there. -/
theorem withNode_nodes_of_isSome {fm : FileMap} {fn : UInt64} (hfn : (fm.nodes fn).isSome)
    (c : FileMetaPtr) (file : FileMetaData) (v : UInt64) :
    (fm.withNode c file v).nodes fn = fm.nodes fn := by
  unfold withNode
  split
  · rfl
  · rename_i hfree
    have hne : fn ≠ file.fd.getNumber := by
      rintro rfl
      exact hfree hfn
    simp [insertNode, Function.update_of_ne hne]

/-- The child's node after `withNode` carries `childVersion`. -/
theorem withNode_child_version {fm : FileMap} {c : FileMetaPtr} {file : FileMetaData}
    {v : UInt64} {cn : MapNode} (h : (fm.withNode c file v).nodes file.fd.getNumber = some cn) :
    cn.versionNum = childVersion fm file v := by
  unfold withNode at h
  unfold childVersion
  split at h
  · rename_i hsome
    obtain ⟨cn₀, hcn₀⟩ := Option.isSome_iff_exists.mp hsome
    rw [hcn₀] at h ⊢
    rw [Option.some.injEq] at h
    rw [h]
  · rename_i hfree
    rw [Option.not_isSome_iff_eq_none.mp hfree]
    simp only [insertNode, Function.update_self, Option.some.injEq] at h
    rw [← h]
    rfl

theorem edgesAscend_AddDerivedNode {fm : FileMap} (hasc : EdgesAscend fm) {p : UInt64}
    {c : FileMetaPtr} {file : FileMetaData} {v : UInt64} (hnewer : ChildNewer fm p file v) :
    EdgesAscend (fm.AddDerivedNode p c file v).2 := by
  unfold AddDerivedNode
  split
  · exact hasc
  · rename_i hparent
    have hp : (fm.nodes p).isSome := Option.isSome_iff_ne_none.mpr (by simpa using hparent)
    have hwith : EdgesAscend (fm.withNode c file v) := by
      unfold withNode
      split
      · exact hasc
      · exact edgesAscend_insertNode hasc rfl (Option.not_isSome_iff_eq_none.mp ‹_›)
    refine edgesAscend_appendChild hwith (withNode_isSome fm c file v) fun pn cn hpn hcn => ?_
    rw [withNode_nodes_of_isSome hp] at hpn
    rw [withNode_child_version hcn]
    exact hnewer pn hpn

/-! ## Sequences of calls -/

/-- A call on the file map: `AddNode`, or `AddDerivedNode` from a parent's file
number; each with the object its pointer names. -/
inductive Call where
  | addNode (fmeta : FileMetaPtr) (file : FileMetaData) (versionNum : UInt64)
  | addDerivedNode (pFilenum : UInt64) (c : FileMetaPtr) (file : FileMetaData) (versionNum : UInt64)

namespace Call

/-- The map after the call, whichever status it returns. -/
def run : Call → FileMap → FileMap
  | addNode fmeta file v, fm => (fm.AddNode fmeta file v).2
  | addDerivedNode p c file v, fm => (fm.AddDerivedNode p c file v).2

/-- The precondition of the call on the map it is made on. -/
def Respects : Call → FileMap → Prop
  | addNode .., _ => True
  | addDerivedNode p _ file v, fm => ChildNewer fm p file v

theorem edgesAscend_run {fm : FileMap} (hasc : EdgesAscend fm) :
    ∀ call : Call, call.Respects fm → EdgesAscend (call.run fm)
  | addNode fmeta file v, _ => edgesAscend_AddNode hasc fmeta file v
  | addDerivedNode _ _ _ _, hnewer => edgesAscend_AddDerivedNode hasc hnewer

end Call

/-- The map after a sequence of calls. -/
def runCalls (calls : List Call) (fm : FileMap) : FileMap :=
  calls.foldl (fun fm call => call.run fm) fm

/-- Every call of the sequence respects its precondition on the map it is made
on. -/
def RespectsAll : List Call → FileMap → Prop
  | [], _ => True
  | call :: calls, fm => call.Respects fm ∧ RespectsAll calls (call.run fm)

theorem edgesAscend_runCalls (calls : List Call) {fm : FileMap} (hasc : EdgesAscend fm)
    (hcalls : RespectsAll calls fm) : EdgesAscend (runCalls calls fm) := by
  induction calls generalizing fm with
  | nil => exact hasc
  | cons call calls ih =>
      obtain ⟨hcall, hrest⟩ := hcalls
      exact ih (Call.edgesAscend_run hasc call hcall) hrest

/-! ## The walk -/

variable {fm : FileMap} {uKey : Bytes} {cmp : Comparator} {v : UInt64}

/-- A link of the walk: from a visible node to one of its children that is
visible and contains the key. -/
theorem queryStep_eq_some {a b : UInt64} (h : fm.queryStep uKey cmp v a = some b) :
    ∃ an bn, fm.nodes a = some an ∧ an.Accessible v = true ∧ b ∈ an.children ∧
      fm.nodes b = some bn ∧ bn.Accessible v = true ∧ bn.Contain uKey cmp = true := by
  unfold queryStep at h
  split at h
  · contradiction
  · rename_i an han
    split at h
    · rename_i hinner
      have hmem := List.mem_of_find?_eq_some h
      have hsat := List.find?_some h
      split at hsat
      · rename_i bn hbn
        simp only [Bool.and_eq_true] at hsat
        simp only [Bool.and_eq_true, Bool.not_eq_true'] at hinner
        exact ⟨an, bn, han, hinner.2, hmem, hbn, hsat.1, hsat.2⟩
      · contradiction
    · contradiction

/-- Where the walk stops at a visible node, no visible child contains the key. -/
theorem queryStep_eq_none {a : UInt64} {an : MapNode} (ha : fm.nodes a = some an)
    (hacc : an.Accessible v = true) (h : fm.queryStep uKey cmp v a = none) :
    ∀ c ∈ an.children, ∀ cn, fm.nodes c = some cn → cn.Accessible v = true →
      cn.Contain uKey cmp = false := by
  intro c hc cn hcn hcacc
  simp only [queryStep, ha] at h
  -- a leaf has no child to check; an inner node found none
  have hinner : (!an.IsLeaf && an.Accessible v) = true := by
    simp only [MapNode.IsLeaf, hacc, Bool.and_true, Bool.not_eq_true', List.isEmpty_eq_false_iff]
    exact List.ne_nil_of_mem hc
  rw [if_pos hinner, List.find?_eq_none] at h
  have hfail := h c hc
  rw [hcn] at hfail
  simpa [hcacc] using hfail

/-- How far a node's version number is below `v`; every link lowers it. -/
def walkRank (fm : FileMap) (v : UInt64) (fn : UInt64) : ℕ :=
  match fm.nodes fn with
  | some n => v.toNat - n.versionNum.toNat
  | none => 0

theorem walkRank_le (fn : UInt64) : walkRank fm v fn ≤ v.toNat := by
  unfold walkRank
  split <;> omega

theorem walkRank_lt (hasc : EdgesAscend fm) {a b : UInt64}
    (h : fm.queryStep uKey cmp v a = some b) : walkRank fm v b < walkRank fm v a := by
  obtain ⟨an, bn, ha, -, hmem, hb, hbacc, -⟩ := queryStep_eq_some h
  have hlt : an.versionNum.toNat < bn.versionNum.toNat :=
    UInt64.lt_iff_toNat_lt.mp (hasc a an ha b hmem bn hb)
  have hle : bn.versionNum.toNat ≤ v.toNat := by
    simpa [MapNode.Accessible, UInt64.le_iff_toNat_le] using hbacc
  simp only [walkRank, ha, hb]
  omega

/-- On a map whose edges go to newer nodes, the walk in version `v` stops
within `v + 1` rounds. -/
theorem chase_queryStep_isSome (hasc : EdgesAscend fm) (fn : UInt64) {fuel : ℕ}
    (hfuel : v.toNat < fuel) : (Chase.chase (fm.queryStep uKey cmp v) fuel fn).isSome :=
  Chase.chase_isSome_of_rank (walkRank fm v) (fun _ _ h => walkRank_lt hasc h)
    (lt_of_le_of_lt (walkRank_le fn) hfuel)

/-- An edge a query in version `v` may follow: both ends visible in `v`. -/
def VisibleEdge (fm : FileMap) (v : UInt64) (p c : UInt64) : Prop :=
  ∃ pn cn, fm.nodes p = some pn ∧ fm.nodes c = some cn ∧ c ∈ pn.children ∧
    pn.Accessible v = true ∧ cn.Accessible v = true

/-- The walk stays on nodes of the map, and on visible ones if it starts on
one. -/
theorem stop_node {fn r : UInt64} {fnNode : MapNode} (hfn : fm.nodes fn = some fnNode)
    (hreach : Relation.ReflTransGen (Chase.Link (fm.queryStep uKey cmp v)) fn r) :
    ∃ rn, fm.nodes r = some rn ∧ rn.Accessible v = fnNode.Accessible v := by
  induction hreach with
  | refl => exact ⟨fnNode, hfn, rfl⟩
  | tail _ hlink ih =>
      obtain ⟨bn, hb, hbacc⟩ := ih
      obtain ⟨an, cn, ha, hacc, -, hc, hcacc, -⟩ := queryStep_eq_some hlink
      rw [ha, Option.some.injEq] at hb
      subst hb
      exact ⟨cn, hc, hcacc.trans (hacc.symm.trans hbacc)⟩

/-! ## Answers -/

/-- What an answer `n` of a query for `uKey` from `fn` in version `v`
satisfies: a node reached from `fn` along visible edges, visible itself and
containing the key, none of whose visible children contains it. -/
structure Resolves (fm : FileMap) (v : UInt64) (uKey : Bytes) (cmp : Comparator) (fn : UInt64)
    (n : MapNode) : Prop where
  reach : ∃ r, fm.nodes r = some n ∧ Relation.ReflTransGen (VisibleEdge fm v) fn r
  contain : n.Contain uKey cmp = true
  accessible : n.Accessible v = true
  last : ∀ c ∈ n.children, ∀ cn, fm.nodes c = some cn → cn.Accessible v = true →
    cn.Contain uKey cmp = false

/-- When a query answers Corruption: `fn` has no node, or its node is not
visible in `v`, or the node the walk stops at does not contain the key. -/
def QueryFails (fm : FileMap) (fuel : ℕ) (fn : UInt64) (uKey : Bytes) (cmp : Comparator)
    (v : UInt64) : Prop :=
  fm.nodes fn = none ∨ (∃ n, fm.nodes fn = some n ∧ n.Accessible v = false) ∨
    ∃ r rn, Chase.chase (fm.queryStep uKey cmp v) fuel fn = some r ∧ fm.nodes r = some rn ∧
      rn.Contain uKey cmp = false

/-- The answer of a walk that stopped at `r`. -/
theorem queryNode_of_chase {fuel : ℕ} {fn r : UInt64} {fnNode rn : MapNode}
    (hfn : fm.nodes fn = some fnNode)
    (hchase : Chase.chase (fm.queryStep uKey cmp v) fuel fn = some r) (hr : fm.nodes r = some rn) :
    fm.queryNode fuel fn uKey cmp v =
      some (if !rn.Contain uKey cmp || !rn.Accessible v then
          .error (Status.Corruption "Resultant file does not contain seeking key")
        else .ok rn) := by
  simp only [queryNode, hfn, hchase, Option.map_some, hr]

/-- Every answer of the walk resolves the key, whatever the map. -/
theorem resolves_of_queryNode {fuel : ℕ} {fn : UInt64} {n : MapNode}
    (h : fm.queryNode fuel fn uKey cmp v = some (.ok n)) : Resolves fm v uKey cmp fn n := by
  unfold queryNode at h
  split at h
  · simp at h
  · rename_i fnNode hfn
    obtain ⟨r, hchase, hres⟩ := Option.map_eq_some_iff.mp h
    have hreach := Chase.chase_reaches hchase
    obtain ⟨rn, hr, -⟩ := stop_node hfn hreach
    simp only [hr] at hres
    -- the final check passed, so `rn` is the answer
    split at hres
    · simp at hres
    · rename_i hcheck
      rw [Except.ok.injEq] at hres
      subst hres
      simp only [Bool.or_eq_true, Bool.not_eq_true', not_or, Bool.not_eq_false] at hcheck
      have hvisible : Relation.ReflTransGen (VisibleEdge fm v) fn r := by
        refine Relation.ReflTransGen.mono (fun a b hlink => ?_) fn r hreach
        obtain ⟨an, bn, ha, hacc, hmem, hb, hbacc, -⟩ := queryStep_eq_some hlink
        exact ⟨an, bn, ha, hb, hmem, hacc, hbacc⟩
      exact ⟨⟨r, hr, hvisible⟩, hcheck.1, hcheck.2,
        queryStep_eq_none hr hcheck.2 (Chase.chase_stops hchase)⟩

/-- On a map whose edges go to newer nodes, with fuel above `v`, the walk
answers, and answers Corruption exactly when `QueryFails`. -/
theorem queryNode_spec (hasc : EdgesAscend fm) (fn : UInt64) {fuel : ℕ} (hfuel : v.toNat < fuel) :
    ∃ res, fm.queryNode fuel fn uKey cmp v = some res ∧
      ((∃ n, res = .ok n ∧ Resolves fm v uKey cmp fn n ∧ ¬QueryFails fm fuel fn uKey cmp v) ∨
        ∃ msg, res = .error (Status.Corruption msg) ∧ QueryFails fm fuel fn uKey cmp v) := by
  cases hfn : fm.nodes fn with
  | none =>
      exact ⟨.error (Status.Corruption "Queried file number does not exist"),
        by simp [queryNode, hfn], Or.inr ⟨_, rfl, Or.inl hfn⟩⟩
  | some fnNode =>
      have hstops : (Chase.chase (fm.queryStep uKey cmp v) fuel fn).isSome :=
        chase_queryStep_isSome hasc fn hfuel
      obtain ⟨r, hchase⟩ := Option.isSome_iff_exists.mp hstops
      obtain ⟨rn, hr, hacc⟩ := stop_node hfn (Chase.chase_reaches hchase)
      have hfails : QueryFails fm fuel fn uKey cmp v ↔
          rn.Contain uKey cmp = false ∨ rn.Accessible v = false := by
        constructor
        · rintro (hnone | ⟨n, hn, hnacc⟩ | ⟨r', rn', hc', hr', hcont⟩)
          · simp [hfn] at hnone
          · rw [hfn, Option.some.injEq] at hn
            subst hn
            exact Or.inr (hacc.trans hnacc)
          · rw [hchase, Option.some.injEq] at hc'
            subst hc'
            rw [hr, Option.some.injEq] at hr'
            subst hr'
            exact Or.inl hcont
        · rintro (hcont | hnacc)
          · exact Or.inr (Or.inr ⟨r, rn, hchase, hr, hcont⟩)
          · exact Or.inr (Or.inl ⟨fnNode, hfn, hacc.symm.trans hnacc⟩)
      refine ⟨_, queryNode_of_chase hfn hchase hr, ?_⟩
      split
      · rename_i hcheck
        simp only [Bool.or_eq_true, Bool.not_eq_true'] at hcheck
        exact Or.inr ⟨_, rfl, hfails.mpr hcheck⟩
      · rename_i hcheck
        have hok : fm.queryNode fuel fn uKey cmp v = some (.ok rn) := by
          rw [queryNode_of_chase hfn hchase hr, if_neg hcheck]
        have hres := resolves_of_queryNode hok
        exact Or.inl ⟨rn, rfl, hres, fun hf => hcheck (by simpa using hfails.mp hf)⟩

/-- What both queries answer for `uKey` from `fn` in version `v`: the same
node, which resolves the key, or Corruption exactly when `QueryFails`. -/
def QueryAnswers (fm : FileMap) (fuel : ℕ) (fn : UInt64) (uKey : Bytes) (cmp : Comparator)
    (v : UInt64) : Prop :=
  ∃ res : Except Status MapNode,
    fm.QueryFileNumber fuel fn uKey cmp v = some (res.map (·.fd.getNumber)) ∧
    fm.QueryFileMeta fuel fn uKey cmp v = some (res.map (·.fileMeta)) ∧
    ((∃ n, res = .ok n ∧ Resolves fm v uKey cmp fn n ∧ ¬QueryFails fm fuel fn uKey cmp v) ∨
      ∃ msg, res = .error (Status.Corruption msg) ∧ QueryFails fm fuel fn uKey cmp v)

/-- For every sequence of `AddNode` and `AddDerivedNode` calls from the empty
map in which every child is newer than its parent, every later query in a
version `v` stops within `v + 1` rounds, and both queries answer as
`QueryAnswers` says. -/
theorem query_terminates_and_resolves (calls : List Call) (hcalls : RespectsAll calls empty)
    (fn : UInt64) (uKey : Bytes) (cmp : Comparator) (v : UInt64) {fuel : ℕ}
    (hfuel : v.toNat < fuel) : QueryAnswers (runCalls calls empty) fuel fn uKey cmp v := by
  have hasc := edgesAscend_runCalls calls edgesAscend_empty hcalls
  obtain ⟨res, hres, hspec⟩ := @queryNode_spec _ uKey cmp v hasc fn fuel hfuel
  exact ⟨res, by simp [QueryFileNumber, hres], by simp [QueryFileMeta, hres], hspec⟩

/-- Blob `11`, written by a flush. -/
def blob11 : FileMetaData :=
  { fd := FileDescriptor.make 11 0 100 1 1, smallest := ⟨[97, 1, 1, 0, 0, 0, 0, 0, 0]⟩
    largest := ⟨[98, 1, 1, 0, 0, 0, 0, 0, 0]⟩ }

/-- Blob `12`, the output of a collection of `11`. -/
def blob12 : FileMetaData := { blob11 with fd := FileDescriptor.make 12 0 100 1 1 }

/-- `11` added by version 2, and its collection into `12` by version 3. -/
def oneCollection : List Call := [.addNode ⟨1⟩ blob11 2, .addDerivedNode 11 ⟨2⟩ blob12 3]

theorem query_after_one_collection :
    RespectsAll oneCollection empty ∧
      QueryAnswers (runCalls oneCollection empty) 4 11 [97] bytewiseCompare 3 := by
  have hcalls : RespectsAll oneCollection empty := by
    refine ⟨trivial, fun pn hpn => ?_, trivial⟩
    have hnode : ((Call.addNode ⟨1⟩ blob11 2).run empty).nodes 11 =
        some (MapNode.make ⟨1⟩ blob11 2) := by
      decide +kernel
    rw [hnode, Option.some.injEq] at hpn
    subst hpn
    decide +kernel
  exact ⟨hcalls, query_terminates_and_resolves oneCollection hcalls 11 [97] bytewiseCompare 3
    (by decide)⟩

end FileMap

end HapDB
