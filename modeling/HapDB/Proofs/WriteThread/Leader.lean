import HapDB.Proofs.WriteThread.Stack
import Mathlib.Data.List.Perm.Basic

/-!
# The leader's walk and the splice

`EnterAsBatchGroupLeader` walks up the stack from the leader to the newest
writer it saw.  A writer that can share the leader's batch joins the group; one
that cannot is unlinked and put on a side list, which the leader splices back
on top of its group when the walk is done.

## Strategy

The walk is described by three lists, `WalkInv`: the group `G` from the
leader up, the side list `R` from its first writer up, and the writers `U`
still to visit, from the lowest up.  `G` and `R` are each a chain of
`link_older` pointers ending in null, `U` is a chain sitting on the end of
`G`, and the `link_newer` pointers lead from the current writer through `U`.
One round (`walkStep_include`, `walkStep_exclude`) moves the lowest writer of
`U` to the end of `G` or of `R`, and the run lemma `walkGroup_inv` carries the
invariant to the end of the walk, where `U` is empty.

After the splice the stack is `G ++ R`.  When the compare-exchange succeeds,
`newest_writer_` is the top of `R` and every writer that was on the stack is on
it once (`EnterAsBatchGroupLeader_stack`).  When it fails spuriously, the head
the leader reads back is the newest writer it saw, which is on the stack, and
the fallback walk from it looks for the writer above it: it walks off the
bottom of `G ++ R` (`findAbove_top_eq_none`) and the next round reads through
a null pointer (`EnterAsBatchGroupLeader_spurious_eq_none`).
-/

namespace HapDB

namespace WriteThread

section Step

variable (lw : Writer) (groupId maxSize : ℕ) (g : GroupWalk) {u : ℕ}

/-- A writer that can share the batch joins the group. -/
theorem walkStep_include (hnext : (g.wt.writers g.w).linkNewer = some u)
    (hex : excluded lw (g.wt.writers u) g.size maxSize = false) :
    walkStep lw groupId maxSize g = some { g with
      w := u, we := u, size := g.size + (g.wt.writers u).batchSize
      group := { g.group with lastWriter := u, size := g.group.size + 1 }
      wt := g.wt.modify u fun x => { x with writeGroup := some groupId } } := by
  simp [walkStep, hnext, hex]

/-- A writer that cannot share the batch is unlinked, and its neighbours are
linked to each other, and it goes on the end of the side list: each link it
sets is the last one written to its place. -/
theorem walkStep_exclude (hnext : (g.wt.writers g.w).linkNewer = some u)
    (hold : (g.wt.writers u).linkOlder = some g.we)
    (hex : excluded lw (g.wt.writers u) g.size maxSize = true) :
    ∃ g', walkStep lw groupId maxSize g = some g' ∧ g'.w = u ∧ g'.we = g.we ∧
      g'.rb = (if g.re = none then some u else g.rb) ∧ g'.re = some u ∧
      g'.size = g.size ∧ g'.group = g.group ∧ g'.wt.newestWriter = g.wt.newestWriter ∧
      ∀ x, g'.wt.writers x = { g.wt.writers x with
        linkOlder := if x = u then g.re
          else if (g.wt.writers u).linkNewer = some x then some g.we
          else (g.wt.writers x).linkOlder
        linkNewer := if g.re = some x then some u
          else if x = g.we then (g.wt.writers u).linkNewer
          else (g.wt.writers x).linkNewer } := by
  rcases hre : g.re with _ | re <;> rcases hn : (g.wt.writers u).linkNewer with _ | n <;>
    simp [walkStep, hnext, hold, hex, hre, hn]
  -- each place holds the last value written to it
  all_goals
    intro x
    simp only [modify, Function.update_apply]
    split_ifs <;> subst_vars <;> simp_all


end Step

/-- A writer apart from its links and its group: what it asks for, and its
state.  The leader's walk changes nothing else. -/
def Writer.request (w : Writer) : Writer :=
  { w with linkOlder := none, linkNewer := none, writeGroup := none }

@[simp] theorem Writer.sync_request (w : Writer) : w.request.sync = w.sync := rfl

@[simp] theorem Writer.state_request (w : Writer) : w.request.state = w.state := rfl

/-- Where the leader's walk has got to: the group `G` from the leader up, the
side list `R` from its first writer up, and the writers `U` still to visit,
from the lowest up.  `w₀` are the writers when the walk began. -/
structure WalkInv (lw : Writer) (groupId leader newest : ℕ) (w₀ : ℕ → Writer) (g : GroupWalk)
    (G R U : List ℕ) : Prop where
  group : G.IsChain g.wt.Below
  group_head : G.head? = some leader
  group_last : G.getLast? = some g.we
  leader_bottom : (g.wt.writers leader).linkOlder = none
  rest : R.IsChain g.wt.Below
  rest_head : R.head? = g.rb
  rest_last : R.getLast? = g.re
  rest_bottom : ∀ a ∈ R.head?, (g.wt.writers a).linkOlder = none
  rest_newer : R.IsChain g.wt.Above
  up : (g.we :: U).IsChain g.wt.Below
  newer : (g.w :: U).IsChain g.wt.Above
  newer_top : (g.wt.writers ((g.w :: U).getLast (List.cons_ne_nil _ _))).linkNewer = none
  top : (g.w :: U).getLast (List.cons_ne_nil _ _) = newest
  current : g.w = g.we ∨ g.re = some g.w
  nodup : (G ++ R ++ U).Nodup
  in_group : ∀ x ∈ G, (g.wt.writers x).writeGroup = some groupId
  group_leader : g.group.leader = leader
  group_last_writer : g.group.lastWriter = g.we
  group_size : g.group.size = G.length
  frame : ∀ x, (g.wt.writers x).request = (w₀ x).request
  sync_group : ∀ x ∈ G, x ≠ leader → ((w₀ x).sync && !lw.sync) = false
  newest_writer : g.wt.newestWriter = some newest

section Inv

variable {lw : Writer} {groupId maxSize leader newest : ℕ} {w₀ : ℕ → Writer} {g : GroupWalk}
  {G R U : List ℕ} {u : ℕ}

theorem WalkInv.next_eq (hinv : WalkInv lw groupId leader newest w₀ g G R (u :: U)) :
    (g.wt.writers g.w).linkNewer = some u :=
  (List.isChain_cons_cons.mp hinv.newer).1

theorem WalkInv.older_eq (hinv : WalkInv lw groupId leader newest w₀ g G R (u :: U)) :
    (g.wt.writers u).linkOlder = some g.we :=
  (List.isChain_cons_cons.mp hinv.up).1

/-- The writer after the one being visited is the next one to visit, or none. -/
theorem WalkInv.newer_eq (hinv : WalkInv lw groupId leader newest w₀ g G R (u :: U)) :
    (g.wt.writers u).linkNewer = U.head? := by
  cases U with
  | nil => simpa using hinv.newer_top
  | cons v U => exact (List.isChain_cons_cons.mp (List.isChain_cons_cons.mp hinv.newer).2).1

/-- The writer being visited is in no other list, and the lists are
disjoint. -/
theorem nodup_visit (h : (G ++ R ++ u :: U).Nodup) :
    u ∉ G ∧ u ∉ R ∧ u ∉ U ∧ (∀ a ∈ G, a ∉ U) ∧ (∀ a ∈ R, a ∉ U) ∧ (∀ a ∈ G, a ∉ R) ∧
      U.Nodup := by
  simp only [List.nodup_append, List.nodup_cons, List.mem_append, List.mem_cons] at h
  grind

/-- Every writer of the three lists is in one of them once. -/
theorem WalkInv.perm_include : (G ++ [u] ++ R ++ U).Perm (G ++ R ++ u :: U) := by
  simpa using List.perm_middle.symm.append_left G

theorem WalkInv.perm_exclude : (G ++ (R ++ [u]) ++ U).Perm (G ++ R ++ u :: U) := by
  simp

/-- A writer that shares the batch moves from the writers to visit to the end
of the group. -/
theorem WalkInv.include (hinv : WalkInv lw groupId leader newest w₀ g G R (u :: U))
    (hex : excluded lw (g.wt.writers u) g.size maxSize = false) :
    WalkInv lw groupId leader newest w₀ { g with
      w := u, we := u, size := g.size + (g.wt.writers u).batchSize
      group := { g.group with lastWriter := u, size := g.group.size + 1 }
      wt := g.wt.modify u fun x => { x with writeGroup := some groupId } } (G ++ [u]) R U := by
  -- only the new member's group changes
  set wt' := g.wt.modify u fun x => { x with writeGroup := some groupId } with hwt'
  have hbelow : wt'.Below = g.wt.Below := below_modify fun _ => rfl
  have habove : wt'.Above = g.wt.Above := above_modify fun _ => rfl
  have holder : ∀ x, (wt'.writers x).linkOlder = (g.wt.writers x).linkOlder :=
    field_modify _ _ _ fun _ => rfl
  have hnewer : ∀ x, (wt'.writers x).linkNewer = (g.wt.writers x).linkNewer :=
    field_modify _ _ _ fun _ => rfl
  have hrequest : ∀ x, (wt'.writers x).request = (g.wt.writers x).request :=
    field_modify _ _ _ fun _ => rfl
  obtain ⟨huG, -, -, -, -, -, -⟩ := nodup_visit hinv.nodup
  have hGne : G ≠ [] := by
    have hhead := hinv.group_head
    rintro rfl
    simp at hhead
  constructor
  · refine List.isChain_append.mpr ⟨hbelow ▸ hinv.group, List.isChain_singleton u, ?_⟩
    intro a ha b hb
    rw [hinv.group_last, Option.mem_def, Option.some.injEq] at ha
    simp only [List.head?_cons, Option.mem_def, Option.some.injEq] at hb
    subst ha hb
    exact hbelow ▸ hinv.older_eq
  · rw [List.head?_append_of_ne_nil _ hGne, hinv.group_head]
  · simp
  · exact (holder leader).trans hinv.leader_bottom
  · exact hbelow ▸ hinv.rest
  · exact hinv.rest_head
  · exact hinv.rest_last
  · exact fun a ha => (holder a).trans (hinv.rest_bottom a ha)
  · exact habove ▸ hinv.rest_newer
  · exact hbelow ▸ hinv.up.tail
  · exact habove ▸ hinv.newer.tail
  · exact (hnewer _).trans (by simpa using hinv.newer_top)
  · simpa using hinv.top
  · exact .inl rfl
  · exact WalkInv.perm_include.nodup_iff.mpr hinv.nodup
  · intro x hx
    rcases List.mem_append.mp hx with hx | hx
    · rw [hwt', writers_modify_of_ne _ _ (ne_of_mem_of_not_mem hx huG)]
      exact hinv.in_group x hx
    · rw [List.mem_singleton.mp hx, hwt', writers_modify_self]
  · exact hinv.group_leader
  · rfl
  · simp [hinv.group_size]
  · exact fun x => (hrequest x).trans (hinv.frame x)
  · intro x hx hxl
    rcases List.mem_append.mp hx with hx | hx
    · exact hinv.sync_group x hx hxl
    · rw [List.mem_singleton.mp hx, ← Writer.sync_request, ← hinv.frame u, Writer.sync_request]
      simp only [excluded, Bool.or_eq_false_iff] at hex
      exact hex.1.1.1.1.1
  · exact hinv.newest_writer

/-- A writer that cannot share the batch moves from the writers to visit to
the end of the side list. -/
theorem WalkInv.exclude (hinv : WalkInv lw groupId leader newest w₀ g G R (u :: U))
    (hex : excluded lw (g.wt.writers u) g.size maxSize = true) :
    ∃ g', walkStep lw groupId maxSize g = some g' ∧
      WalkInv lw groupId leader newest w₀ g' G (R ++ [u]) U := by
  obtain ⟨g', hstep, hw, hwe, hrb, hre, -, hgroup, hnewest, hwriters⟩ :=
    walkStep_exclude lw groupId maxSize g hinv.next_eq hinv.older_eq hex
  refine ⟨g', hstep, ?_⟩
  obtain ⟨huG, huR, huU, hGU, hRU, -, hUnodup⟩ := nodup_visit hinv.nodup
  have hn : (g.wt.writers u).linkNewer = U.head? := hinv.newer_eq
  -- the links the step leaves: every older link but those of `u` and the
  -- writer above it, every newer link but those of the group's end and the
  -- side list's end
  have hkeep : ∀ b, b ≠ u → b ∉ U →
      (g'.wt.writers b).linkOlder = (g.wt.writers b).linkOlder := by
    intro b hbu hbU
    have hhead : U.head? ≠ some b := fun h => hbU (List.mem_of_mem_head? h)
    rw [hwriters b, if_neg hbu, hn, if_neg hhead]
  have hwe_mem : g.we ∈ G := List.mem_of_getLast? hinv.group_last
  have hkeepNewer : ∀ a ∈ u :: U, (g'.wt.writers a).linkNewer = (g.wt.writers a).linkNewer := by
    intro a ha
    have haR : g.re ≠ some a := fun h => by
      have har : a ∈ R := List.mem_of_getLast? (hinv.rest_last.trans h)
      rcases List.mem_cons.mp ha with rfl | ha
      · exact huR har
      · exact hRU a har ha
    have haw : a ≠ g.we := by
      rintro rfl
      rcases List.mem_cons.mp ha with h | ha
      · exact huG (h ▸ hwe_mem)
      · exact hGU _ hwe_mem ha
    rw [hwriters a, if_neg haR, if_neg haw]
  have hrequest : ∀ x, (g'.wt.writers x).request = (g.wt.writers x).request := fun x => by
    rw [hwriters x]
    rfl
  have hG : ∀ b ∈ G, (g'.wt.writers b).linkOlder = (g.wt.writers b).linkOlder :=
    fun b hb => hkeep b (ne_of_mem_of_not_mem hb huG) (hGU b hb)
  have hR : ∀ b ∈ R, (g'.wt.writers b).linkOlder = (g.wt.writers b).linkOlder :=
    fun b hb => hkeep b (ne_of_mem_of_not_mem hb huR) (hRU b hb)
  have holder_u : (g'.wt.writers u).linkOlder = R.getLast? := by
    rw [hwriters u, if_pos rfl, hinv.rest_last]
  constructor
  · exact isChain_below_of_linkOlder (fun b hb => hG b (List.mem_of_mem_tail hb)) hinv.group
  · exact hinv.group_head
  · rw [hwe]
    exact hinv.group_last
  · exact (hG leader (List.mem_of_mem_head? hinv.group_head)).trans hinv.leader_bottom
  · refine List.isChain_append.mpr
      ⟨isChain_below_of_linkOlder (fun b hb => hR b (List.mem_of_mem_tail hb)) hinv.rest,
        List.isChain_singleton u, ?_⟩
    intro a ha b hb
    simp only [List.head?_cons, Option.mem_def, Option.some.injEq] at hb
    subst hb
    exact holder_u.trans ha
  · rw [hrb, ← hinv.rest_last]
    cases R with
    | nil => rfl
    | cons r R => simpa using hinv.rest_head
  · rw [hre]
    simp
  · intro a ha
    cases R with
    | nil =>
        simp only [List.nil_append, List.head?_cons, Option.mem_def, Option.some.injEq] at ha
        subst ha
        exact holder_u
    | cons r R =>
        simp only [List.cons_append, List.head?_cons, Option.mem_def, Option.some.injEq] at ha
        subst ha
        exact (hR r List.mem_cons_self).trans (hinv.rest_bottom r rfl)
  · -- the side list's old end now points at `u`
    refine List.isChain_append.mpr ⟨isChain_above_of_linkNewer (fun a ha => ?_) hinv.rest_newer,
      List.isChain_singleton u, ?_⟩
    · have haR : a ∈ R := List.dropLast_subset _ ha
      have hre_ne : g.re ≠ some a := by
        rw [← hinv.rest_last]
        intro hlast
        have hsplit := List.dropLast_append_getLast? a hlast
        have hnodupR : (R.dropLast ++ [a]).Nodup := by
          rw [hsplit]
          exact (List.nodup_append.mp (List.nodup_append.mp hinv.nodup).1).2.1
        exact (List.nodup_append.mp hnodupR).2.2 a ha a List.mem_cons_self rfl
      have hwe_ne : a ≠ g.we := fun h =>
        (List.nodup_append.mp (List.nodup_append.mp hinv.nodup).1).2.2 _ hwe_mem a haR h.symm
      rw [hwriters a, if_neg hre_ne, if_neg hwe_ne]
    · intro a ha b hb
      simp only [List.head?_cons, Option.mem_def, Option.some.injEq] at hb
      subst hb
      show (g'.wt.writers a).linkNewer = some u
      rw [hwriters a, if_pos (hinv.rest_last.symm.trans ha)]
  · rw [hwe]
    cases U with
    | nil => exact List.isChain_singleton _
    | cons v U =>
        -- `v` now sits on the group's end; the rest of the chain is as it was
        have hvu : v ≠ u := fun h => huU (h ▸ List.mem_cons_self)
        have hrest : (v :: U).IsChain g.wt.Below := (List.isChain_cons_cons.mp hinv.up).2.tail
        refine List.isChain_cons_cons.mpr ⟨?_, isChain_below_of_linkOlder ?_ hrest⟩
        · show (g'.wt.writers v).linkOlder = some g.we
          rw [hwriters v, if_neg hvu, hn, List.head?_cons, if_pos rfl]
        · intro b hb
          have hbv : b ≠ v := fun h => (List.nodup_cons.mp hUnodup).1 (h ▸ hb)
          have hbu : b ≠ u := fun h => huU (h ▸ List.mem_cons_of_mem v hb)
          rw [hwriters b, if_neg hbu, hn, List.head?_cons, if_neg (fun h => hbv (Option.some.inj h).symm)]
  · rw [hw]
    exact isChain_above_of_linkNewer (fun a ha => hkeepNewer a (List.dropLast_subset _ ha))
      hinv.newer.tail
  · rw [hw, hkeepNewer _ (List.getLast_mem _)]
    simpa using hinv.newer_top
  · rw [hw]
    simpa using hinv.top
  · exact .inr (hre.trans (congrArg some hw.symm))
  · exact WalkInv.perm_exclude.nodup_iff.mpr hinv.nodup
  · exact fun x hx => (by rw [hwriters x]; exact hinv.in_group x hx)
  · rw [hgroup]
    exact hinv.group_leader
  · rw [hgroup, hwe]
    exact hinv.group_last_writer
  · rw [hgroup]
    exact hinv.group_size
  · exact fun x => (hrequest x).trans (hinv.frame x)
  · exact hinv.sync_group
  · exact hnewest.trans hinv.newest_writer

/-- One round of the walk: the lowest writer still to visit goes to the group
or to the side list. -/
theorem WalkInv.step (maxSize : ℕ) (hinv : WalkInv lw groupId leader newest w₀ g G R (u :: U)) :
    ∃ g' G' R', walkStep lw groupId maxSize g = some g' ∧
      WalkInv lw groupId leader newest w₀ g' G' R' U ∧ (G' ++ R' ++ U).Perm (G ++ R ++ u :: U) := by
  cases hex : excluded lw (g.wt.writers u) g.size maxSize with
  | false =>
      exact ⟨_, _, _, walkStep_include lw groupId maxSize g hinv.next_eq hex, hinv.include hex,
        WalkInv.perm_include⟩
  | true =>
      obtain ⟨g', hstep, hinv'⟩ := hinv.exclude hex
      exact ⟨g', G, R ++ [u], hstep, hinv', WalkInv.perm_exclude⟩

/-- The writer the walk is at has been visited. -/
theorem WalkInv.current_mem (hinv : WalkInv lw groupId leader newest w₀ g G R U) :
    g.w ∈ G ++ R := by
  rcases hinv.current with h | h
  · exact List.mem_append_left R (h ▸ List.mem_of_getLast? hinv.group_last)
  · exact List.mem_append_right G (List.mem_of_getLast? (hinv.rest_last.trans h))

end Inv

/-- The run lemma: with more fuel than writers to visit, the walk visits them
all and ends at the newest writer it saw. -/
theorem walkGroup_inv (lw : Writer) (groupId maxSize leader newest : ℕ) (w₀ : ℕ → Writer) :
    ∀ (fuel : ℕ) (g : GroupWalk) (G R U : List ℕ),
      WalkInv lw groupId leader newest w₀ g G R U → U.length < fuel →
      ∃ g' G' R', walkGroup lw groupId maxSize newest fuel g = some g' ∧
        WalkInv lw groupId leader newest w₀ g' G' R' [] ∧ (G' ++ R').Perm (G ++ R ++ U) := by
  intro fuel
  induction fuel with
  | zero => intro _ _ _ _ _ hfuel; omega
  | succ fuel ih =>
      intro g G R U hinv hfuel
      cases U with
      | nil =>
          -- the walk is at the newest writer
          have hdone : g.w = newest := by simpa using hinv.top
          exact ⟨g, G, R, by simp [walkGroup, hdone], hinv, by simp⟩
      | cons u U =>
          -- the newest writer is still to visit, so the walk goes on
          have hnewest : newest ∈ u :: U := by
            rw [← hinv.top, List.getLast_cons (List.cons_ne_nil u U)]
            exact List.getLast_mem _
          have hne : g.w ≠ newest :=
            (List.nodup_append.mp hinv.nodup).2.2 _ hinv.current_mem _ hnewest
          obtain ⟨g₁, G₁, R₁, hstep, hinv₁, hperm₁⟩ := hinv.step maxSize
          obtain ⟨g', G', R', hrun, hinv', hperm'⟩ :=
            ih g₁ G₁ R₁ U hinv₁ (by simp at hfuel; omega)
          refine ⟨g', G', R', ?_, hinv', hperm'.trans hperm₁⟩
          rw [walkGroup, if_neg hne, hstep, Option.bind_some]
          exact hrun


/-! ## The splice -/

/-- The splice sets one `link_older`, that of the side list's first writer. -/
theorem linkOlder_appendSideList (wt : WriteThread) (we rb re x : ℕ) :
    ((appendSideList wt we rb re).writers x).linkOlder =
      if x = rb then some we else (wt.writers x).linkOlder := by
  simp only [appendSideList, modify, Function.update_apply]
  split_ifs <;> simp_all

/-- The splice changes only links. -/
theorem field_appendSideList {β : Type*} (p : Writer → β)
    (holder : ∀ w o, p { w with linkOlder := o } = p w)
    (hnewer : ∀ w n, p { w with linkNewer := n } = p w) (wt : WriteThread) (we rb re x : ℕ) :
    p ((appendSideList wt we rb re).writers x) = p (wt.writers x) := by
  simp only [appendSideList]
  rw [field_modify p _ _ (fun w => hnewer w _), field_modify p _ _ (fun w => hnewer w _),
    field_modify p _ _ (fun w => holder w _)]

@[simp] theorem newestWriter_appendSideList (wt : WriteThread) (we rb re : ℕ) :
    (appendSideList wt we rb re).newestWriter = wt.newestWriter := rfl

section Done

variable {lw : Writer} {groupId leader newest : ℕ} {w₀ : ℕ → Writer} {g : GroupWalk}
  {G R : List ℕ}

theorem WalkInv.w_eq (hinv : WalkInv lw groupId leader newest w₀ g G R []) : g.w = newest := by
  simpa using hinv.top

/-- A walk that set no writer aside leaves the group as the stack. -/
theorem WalkInv.stack_group (hinv : WalkInv lw groupId leader newest w₀ g G R [])
    (hrb : g.rb = none) : Stack g.wt G ∧ R = [] := by
  have hR : R = [] := List.head?_eq_none_iff.mp (hinv.rest_head.trans hrb)
  have hre : g.re = none := by rw [← hinv.rest_last, hR, List.getLast?_nil]
  have hwe : g.w = g.we := hinv.current.resolve_right (by simp [hre])
  refine ⟨⟨hinv.group, ?_, ?_, ?_⟩, hR⟩
  · intro a ha
    rw [hinv.group_head, Option.mem_def, Option.some.injEq] at ha
    exact ha ▸ hinv.leader_bottom
  · rw [hinv.newest_writer, hinv.group_last, ← hwe, hinv.w_eq]
  · simpa [hR] using hinv.nodup

/-- After the splice the side list sits on the group's end, and with
`newest_writer_` moved to the side list's top, the stack is the group and then
the side list. -/
theorem WalkInv.stack_splice (hinv : WalkInv lw groupId leader newest w₀ g G R [])
    {rb re : ℕ} (hrb : g.rb = some rb) (hre : g.re = some re) :
    Stack { appendSideList g.wt g.we rb re with newestWriter := some re } (G ++ R) := by
  have hnodup : (G ++ R).Nodup := by simpa using hinv.nodup
  have hrbR : rb ∈ R := List.mem_of_mem_head? (hinv.rest_head.trans hrb)
  -- every older link but that of `rb` is as it was
  have hkeep : ∀ b, b ≠ rb → ((appendSideList g.wt g.we rb re).writers b).linkOlder =
      (g.wt.writers b).linkOlder := fun b hb => by rw [linkOlder_appendSideList, if_neg hb]
  have hG : ∀ b ∈ G, b ≠ rb := fun b hb h =>
    (List.nodup_append.mp hnodup).2.2 b hb rb hrbR h
  have hRtail : ∀ b ∈ R.tail, b ≠ rb := by
    intro b hb h
    cases R with
    | nil => simp at hb
    | cons r R =>
        have hr : r = rb := by simpa using hinv.rest_head.trans hrb
        exact (List.nodup_cons.mp (List.nodup_append.mp hnodup).2.1).1 (hr ▸ h ▸ hb)
  refine ⟨List.isChain_append.mpr ⟨?_, ?_, ?_⟩, ?_, ?_, hnodup⟩
  · exact isChain_below_of_linkOlder (fun b hb => hkeep b (hG b (List.mem_of_mem_tail hb)))
      hinv.group
  · exact isChain_below_of_linkOlder (fun b hb => hkeep b (hRtail b hb)) hinv.rest
  · intro a ha b hb
    rw [hinv.group_last, Option.mem_def, Option.some.injEq] at ha
    rw [hinv.rest_head, hrb, Option.mem_def, Option.some.injEq] at hb
    subst ha hb
    show ((appendSideList g.wt g.we rb re).writers rb).linkOlder = some g.we
    rw [linkOlder_appendSideList, if_pos rfl]
  · intro a ha
    have hGne : G ≠ [] := fun h => by simpa [h] using hinv.group_head
    rw [List.head?_append_of_ne_nil _ hGne, hinv.group_head, Option.mem_def, Option.some.injEq] at ha
    subst ha
    show ((appendSideList g.wt g.we rb re).writers leader).linkOlder = none
    rw [hkeep leader (hG leader (List.mem_of_mem_head? hinv.group_head))]
    exact hinv.leader_bottom
  · show some re = (G ++ R).getLast?
    rw [List.getLast?_append, hinv.rest_last, hre]
    rfl

end Done

/-! ## `EnterAsBatchGroupLeader` -/

section Enter

variable {wt : WriteThread} {leader : ℕ} {ws : List ℕ}

/-- The walk of `EnterAsBatchGroupLeader` over a stack whose writers have no
`link_newer` yet visits every writer of the stack. -/
theorem walk_of_stack (hs : Stack wt (leader :: ws))
    (hfresh : ∀ a ∈ leader :: ws, (wt.writers a).linkNewer = none) (groupId maxSize size : ℕ)
    {fuel : ℕ} (hfuel : ws.length < fuel) {newest : ℕ} (hnewest : wt.newestWriter = some newest) :
    ∃ g G R, walkGroup (wt.writers leader) groupId maxSize newest fuel
        ⟨leader, leader, none, none, size, ⟨leader, leader, 1⟩,
          CreateMissingNewerLinks (wt.modify leader fun x => { x with writeGroup := some groupId })
            fuel newest⟩ = some g ∧
      WalkInv (wt.writers leader) groupId leader newest wt.writers g G R [] ∧
      (G ++ R).Perm (leader :: ws) := by
  set wt₀ := wt.modify leader fun x => { x with writeGroup := some groupId } with hwt₀
  have holder₀ : ∀ x, (wt₀.writers x).linkOlder = (wt.writers x).linkOlder :=
    field_modify _ _ _ fun _ => rfl
  have hnewer₀ : ∀ x, (wt₀.writers x).linkNewer = (wt.writers x).linkNewer :=
    field_modify _ _ _ fun _ => rfl
  have hrequest₀ : ∀ x, (wt₀.writers x).request = (wt.writers x).request :=
    field_modify _ _ _ fun _ => rfl
  have htop : (leader :: ws).getLast? = some newest := hs.top ▸ hnewest
  have hlast : (leader :: ws).getLast (List.cons_ne_nil _ _) = newest :=
    Option.some.inj ((List.getLast?_eq_some_getLast (List.cons_ne_nil leader ws)).symm.trans htop)
  have hnewest_not : newest ∉ (leader :: ws).dropLast := by
    have hL := List.dropLast_append_getLast? newest htop
    have hnodup : ((leader :: ws).dropLast ++ [newest]).Nodup := by rw [hL]; exact hs.nodup
    exact fun h => (List.nodup_append.mp hnodup).2.2 newest h newest List.mem_cons_self rfl
  obtain ⟨habove, hframe, honly, hnewest₁⟩ := CreateMissingNewerLinks_chain fuel wt₀ (leader :: ws)
    newest (isChain_below_of_linkOlder (fun b _ => holder₀ b) hs.chain)
    (fun a ha => (holder₀ a).trans (hs.bottom a ha)) hs.nodup
    (fun a ha => (hnewer₀ a).trans (hfresh a (List.dropLast_sublist _ |>.subset ha)))
    htop (by simp; omega)
  set wt₁ := CreateMissingNewerLinks wt₀ fuel newest
  -- laying the newer links changes no other field
  have hfield : ∀ {β : Type} (p : Writer → β), (∀ w n, p { w with linkNewer := n } = p w) →
      ∀ x, p (wt₁.writers x) = p (wt₀.writers x) := fun p hp x => by rw [honly x, hp]
  have holder₁ : ∀ x, (wt₁.writers x).linkOlder = (wt.writers x).linkOlder :=
    fun x => (hfield _ (fun _ _ => rfl) x).trans (holder₀ x)
  have hinit : WalkInv (wt.writers leader) groupId leader newest wt.writers
      ⟨leader, leader, none, none, size, ⟨leader, leader, 1⟩, wt₁⟩ [leader] [] ws := by
    constructor
    · exact List.isChain_singleton leader
    · rfl
    · rfl
    · exact (holder₁ leader).trans (hs.bottom leader rfl)
    · exact List.isChain_nil
    · rfl
    · rfl
    · simp
    · exact List.isChain_nil
    · exact isChain_below_of_linkOlder (fun b _ => holder₁ b) hs.chain
    · exact habove
    · show (wt₁.writers ((leader :: ws).getLast _)).linkNewer = none
      rw [hlast, hframe newest hnewest_not, hnewer₀]
      exact hfresh newest (List.mem_of_getLast? htop)
    · exact hlast
    · exact .inl rfl
    · simpa using hs.nodup
    · intro x hx
      rw [List.mem_singleton.mp hx]
      show (wt₁.writers leader).writeGroup = some groupId
      rw [hfield Writer.writeGroup (fun _ _ => rfl), hwt₀, writers_modify_self]
    · rfl
    · rfl
    · rfl
    · exact fun x => (hfield Writer.request (fun _ _ => rfl) x).trans (hrequest₀ x)
    · exact fun x hx hxl => absurd (List.mem_singleton.mp hx) hxl
    · exact hnewest₁.trans hnewest
  obtain ⟨g, G, R, hwalk, hinv, hperm⟩ :=
    walkGroup_inv _ groupId maxSize leader newest _ fuel _ _ _ _ hinit hfuel
  exact ⟨g, G, R, hwalk, hinv, by simpa using hperm⟩

theorem newestWriter_of_stack (hs : Stack wt (leader :: ws)) :
    ∃ newest, wt.newestWriter = some newest :=
  ⟨_, hs.top.trans (List.getLast?_eq_some_getLast (List.cons_ne_nil leader ws))⟩

/-- A walk that set a writer aside has a side list with both ends. -/
theorem WalkInv.ends {lw : Writer} {groupId newest : ℕ} {w₀ : ℕ → Writer} {g : GroupWalk}
    {G R : List ℕ} (hinv : WalkInv lw groupId leader newest w₀ g G R []) {y : ℕ} (hy : y ∈ R) :
    ∃ rb re, g.rb = some rb ∧ g.re = some re := by
  have hR : R ≠ [] := List.ne_nil_of_mem hy
  exact ⟨_, _, hinv.rest_head.symm.trans (List.head?_eq_some_head hR),
    hinv.rest_last.symm.trans (List.getLast?_eq_some_getLast hR)⟩

/-- Without a spurious failure and with no writer joining meanwhile,
`EnterAsBatchGroupLeader` returns the walk's batch size and group, and the
queue as the walk left it when no writer was set aside, or with the side list
spliced on the group's end and made the top when one was. -/
theorem enter_of_stack (hs : Stack wt (leader :: ws))
    (hfresh : ∀ a ∈ leader :: ws, (wt.writers a).linkNewer = none) (groupId : ℕ) {fuel : ℕ}
    (hfuel : ws.length < fuel) :
    ∃ g G R newest, WalkInv (wt.writers leader) groupId leader newest wt.writers g G R [] ∧
      (G ++ R).Perm (leader :: ws) ∧
      ((g.rb = none ∧
          EnterAsBatchGroupLeader wt leader groupId [] false fuel = some (g.size, g.group, g.wt)) ∨
        ∃ rb re, g.rb = some rb ∧ g.re = some re ∧
          EnterAsBatchGroupLeader wt leader groupId [] false fuel =
            some (g.size, g.group, { appendSideList g.wt g.we rb re with newestWriter := some re })) := by
  obtain ⟨newest, hnewest⟩ := newestWriter_of_stack hs
  obtain ⟨g, G, R, hwalk, hinv, hperm⟩ := walk_of_stack hs hfresh groupId _ _ hfuel hnewest
  refine ⟨g, G, R, newest, hinv, hperm, ?_⟩
  simp only [EnterAsBatchGroupLeader, newestWriter_modify, hnewest, Option.bind_eq_bind,
    Option.bind_some]
  rw [hwalk, Option.bind_some, List.foldl_nil]
  cases hrb : g.rb with
  | none => exact .inl ⟨rfl, by simp⟩
  | some rb =>
      have hrbR : rb ∈ R := List.mem_of_mem_head? (hinv.rest_head.trans hrb)
      obtain ⟨-, re, -, hre⟩ := hinv.ends hrbR
      -- the compare-exchange finds the head it saw and moves it to the side list's top
      have hcas : g.wt.newestWriter = some g.w := by rw [hinv.newest_writer, hinv.w_eq]
      exact .inr ⟨rb, re, rfl, hre, by simp [hre, hcas]⟩

/-- Without a spurious failure and with no writer joining meanwhile, the leader
takes its group from the bottom of the stack and leaves every writer that was
on the stack on it once: the group, and above it the writers it set aside. -/
theorem EnterAsBatchGroupLeader_stack (hs : Stack wt (leader :: ws))
    (hfresh : ∀ a ∈ leader :: ws, (wt.writers a).linkNewer = none) (groupId : ℕ) {fuel : ℕ}
    (hfuel : ws.length < fuel) :
    ∃ size group wt' G R,
      EnterAsBatchGroupLeader wt leader groupId [] false fuel = some (size, group, wt') ∧
      Stack wt' (G ++ R) ∧ (G ++ R).Perm (leader :: ws) ∧ G.head? = some leader ∧
      G.getLast? = some group.lastWriter ∧ group.leader = leader ∧ group.size = G.length ∧
      ∀ x ∈ G, (wt'.writers x).writeGroup = some groupId := by
  obtain ⟨g, G, R, newest, hinv, hperm, ⟨hrb, henter⟩ | ⟨rb, re, hrb, hre, henter⟩⟩ :=
    enter_of_stack hs hfresh groupId hfuel
  all_goals
    have hlast : G.getLast? = some g.group.lastWriter := by
      rw [hinv.group_last, hinv.group_last_writer]
  · -- nothing was set aside: the stack is the group
    obtain ⟨hstack, hR⟩ := hinv.stack_group hrb
    exact ⟨g.size, g.group, g.wt, G, R, henter, by simpa [hR] using hstack, hperm,
      hinv.group_head, hlast, hinv.group_leader, hinv.group_size, hinv.in_group⟩
  · refine ⟨g.size, g.group, _, G, R, henter, hinv.stack_splice hrb hre, hperm,
      hinv.group_head, hlast, hinv.group_leader, hinv.group_size, fun x hx => ?_⟩
    show ((appendSideList g.wt g.we rb re).writers x).writeGroup = some groupId
    rw [field_appendSideList Writer.writeGroup (fun _ _ => rfl) (fun _ _ => rfl)]
    exact hinv.in_group x hx

/-- A sync write waiting behind a non-sync leader is set aside, and when the
compare-exchange of the splice then fails spuriously, with no writer joining
meanwhile, the fallback walk from the head the leader reads back walks off the
bottom of the stack: the leader reads through a null pointer. -/
theorem EnterAsBatchGroupLeader_spurious_eq_none (hs : Stack wt (leader :: ws))
    (hfresh : ∀ a ∈ leader :: ws, (wt.writers a).linkNewer = none) (groupId : ℕ) {fuel : ℕ}
    (hfuel : ws.length < fuel) {y : ℕ} (hy : y ∈ ws) (hsync : (wt.writers y).sync = true)
    (hlead : (wt.writers leader).sync = false) :
    EnterAsBatchGroupLeader wt leader groupId [] true fuel = none := by
  obtain ⟨newest, hnewest⟩ := newestWriter_of_stack hs
  obtain ⟨g, G, R, hwalk, hinv, hperm⟩ := walk_of_stack hs hfresh groupId _ _ hfuel hnewest
  -- the sync writer is not in the group, so it was set aside
  have hyR : y ∈ R := by
    rcases List.mem_append.mp (hperm.symm.subset (List.mem_cons_of_mem leader hy)) with hyG | hyR
    · have hyl : y ≠ leader := fun h => (List.nodup_cons.mp hs.nodup).1 (h ▸ hy)
      have hjoin := hinv.sync_group y hyG hyl
      simp [hsync, hlead] at hjoin
    · exact hyR
  obtain ⟨rb, re, hrb, hre⟩ := hinv.ends hyR
  have hmem : newest ∈ G ++ R := hinv.w_eq ▸ hinv.current_mem
  have hfind : findAbove (appendSideList g.wt g.we rb re) newest fuel newest = none := by
    rw [← findAbove_congr (show ({ appendSideList g.wt g.we rb re with newestWriter := some re } :
      WriteThread).writers = (appendSideList g.wt g.we rb re).writers from rfl)]
    exact findAbove_eq_none_of_mem (hinv.stack_splice hrb hre) hmem fuel
  simp only [EnterAsBatchGroupLeader, newestWriter_modify, hnewest, Option.bind_eq_bind,
    Option.bind_some]
  rw [hwalk, Option.bind_some, List.foldl_nil]
  simp [hrb, hre, hinv.newest_writer, hfind]

end Enter

/-- Writer `1`, a plain write, and then writer `2`, a sync write, join an
empty queue. -/
def syncBehindLeader : WriteThread :=
  joinAll ⟨fun a => if a = 2 then { sync := true } else {}, none⟩ [1, 2]

/-- Writer `1` leads; the sync write of writer `2` is set aside, and when the
splice's compare-exchange fails spuriously the leader reads through a null
pointer, while the same entry without the spurious failure completes. -/
theorem spurious_splice_failure_reads_null :
    (syncBehindLeader.writers 1).state = .groupLeader ∧
      (syncBehindLeader.writers 2).state = .init ∧
      EnterAsBatchGroupLeader syncBehindLeader 1 0 [] true 2 = none ∧
      (EnterAsBatchGroupLeader syncBehindLeader 1 0 [] false 2).isSome := by
  have hs : Stack syncBehindLeader [1, 2] := stack_joinAll (stack_nil _) (by decide)
  refine ⟨by decide, by decide, ?_, by decide⟩
  exact EnterAsBatchGroupLeader_spurious_eq_none hs (by decide) 0 (by decide)
    (List.mem_singleton_self 2) (by decide) (by decide)

end WriteThread

end HapDB
