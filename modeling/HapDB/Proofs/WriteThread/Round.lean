import HapDB.Proofs.WriteThread.Leader

/-!
# A round of group commit

A leader enters (`EnterAsBatchGroupLeader`), writes its group's batch and
exits (`ExitAsBatchGroupLeader`).  On the exit it empties the stack if its
group is all of it; otherwise it hands leadership to the writer above the
group's end, which is the first writer it set aside, and cuts that writer's
link to the group.  Then it walks down its group and completes every follower.

`round_hands_out_every_writer`: over a round with no spurious failure and no
writer joining, every writer that was on the stack is handed out once.  It is
a follower of the group and completed, the leader itself, or still on the
stack.  The stack is then the side list, whose first writer is the one new
leader, and the others keep the state they had.

* `completeFollowers_chain`: the exit's last loop completes exactly the group
  but the leader;
* `CreateMissingNewerLinks_of_linked`: the exit's call finds the newer links
  the splice laid and stops at once.
-/

namespace HapDB

namespace WriteThread

/-- The splice points the group's end at the side list and ends the side list. -/
theorem linkNewer_appendSideList (wt : WriteThread) (we rb re x : ℕ) :
    ((appendSideList wt we rb re).writers x).linkNewer =
      if x = we then some rb else if x = re then none else (wt.writers x).linkNewer := by
  simp only [appendSideList, modify, Function.update_apply]
  split_ifs <;> simp_all

/-- `CreateMissingNewerLinks(head)` stops at once where the writer below the
head already has a newer link. -/
theorem CreateMissingNewerLinks_of_linked {wt : WriteThread} {head p : ℕ}
    (hp : (wt.writers head).linkOlder = some p) (hlinked : (wt.writers p).linkNewer.isSome)
    (fuel : ℕ) : CreateMissingNewerLinks wt (fuel + 1) head = wt := by
  simp [CreateMissingNewerLinks, hp, hlinked]

/-- The loop of `ExitAsBatchGroupLeader` from the group's last writer down to
its leader completes every writer of the group but the leader and changes
nothing else. -/
theorem completeFollowers_chain (leader : ℕ) :
    ∀ (fuel : ℕ) (wt : WriteThread) (G : List ℕ) (last : ℕ), G.IsChain wt.Below →
      G.head? = some leader → G.getLast? = some last → G.Nodup → G.length ≤ fuel →
      ∃ wt', completeFollowers wt leader fuel last = some wt' ∧
        wt'.newestWriter = wt.newestWriter ∧
        ∀ x, wt'.writers x =
          if x ∈ G ∧ x ≠ leader then { wt.writers x with state := .completed } else wt.writers x := by
  intro fuel
  induction fuel with
  | zero =>
      intro wt G last _ _ hlast _ hfuel
      simp [List.length_eq_zero_iff.mp (Nat.le_zero.mp hfuel)] at hlast
  | succ fuel ih =>
      intro wt G last hchain hhead hlast hnodup hfuel
      have hG := List.dropLast_append_getLast? last hlast
      by_cases hleader : last = leader
      · -- the group is the leader alone
        subst hleader
        have hsingle : G.dropLast = [] := by
          by_contra hne
          have hmem : last ∈ G.dropLast := by
            have hd : G.dropLast.head? = some last := (head?_dropLast hne).trans hhead
            exact List.mem_of_mem_head? hd
          rw [← hG] at hnodup
          exact (List.nodup_append.mp hnodup).2.2 last hmem last List.mem_cons_self rfl
        refine ⟨wt, by simp [completeFollowers], rfl, fun x => ?_⟩
        have hGx : ¬(x ∈ G ∧ x ≠ last) := by
          rw [← hG, hsingle]
          simp
        rw [if_neg hGx]
      · -- the writer below `last` is the rest of the group's top
        obtain ⟨next, hnext⟩ : ∃ next, G.dropLast.getLast? = some next := by
          cases hd : G.dropLast.getLast? with
          | some next => exact ⟨next, rfl⟩
          | none =>
              rw [List.getLast?_eq_none_iff.mp hd, List.nil_append] at hG
              rw [← hG] at hhead
              exact absurd (Option.some.inj hhead) hleader
        have hbelow : (wt.writers last).linkOlder = some next := rel_of_getLast? hchain hnext hlast
        have hlast_not : last ∉ G.dropLast := by
          have hnodup' := hnodup
          rw [← hG] at hnodup'
          exact fun h => (List.nodup_append.mp hnodup').2.2 last h last List.mem_cons_self rfl
        set wt₁ := wt.SetState last .completed with hwt₁
        have hbelow₁ : wt₁.Below = wt.Below := below_modify fun _ => rfl
        have hdrop : G.dropLast ≠ [] := fun h => by simp [h] at hnext
        obtain ⟨wt', hrun, htop, hwriters⟩ := ih wt₁ G.dropLast next (hbelow₁ ▸ hchain.dropLast)
          ((head?_dropLast hdrop).trans hhead)
          hnext (hnodup.sublist (List.dropLast_sublist G)) (by simp; omega)
        refine ⟨wt', ?_, htop, fun x => ?_⟩
        · rw [completeFollowers, if_neg hleader]
          simp only [hbelow, Option.bind_eq_bind, Option.bind_some]
          exact hrun
        · rw [hwriters x]
          by_cases hx : x = last
          · subst hx
            have hmem : x ∈ G ∧ x ≠ leader := ⟨List.mem_of_getLast? hlast, hleader⟩
            simp [hlast_not, hmem, hwt₁, SetState]
          · have hmem : x ∈ G.dropLast ↔ x ∈ G := by
              rw [← hG]
              simp [hx]
            simp [hmem, hwt₁, SetState, hx]

/-- What a round leaves: the followers of the group completed, and the side
list on the stack, its first writer the new leader and the others in the state
`w₀` gives them. -/
structure RoundDone (w₀ : ℕ → Writer) (wt : WriteThread) (leader : ℕ) (G R : List ℕ) : Prop where
  stack : Stack wt R
  followers : ∀ x ∈ G, x ≠ leader → (wt.writers x).state = .completed
  next_leader : ∀ r ∈ R.head?, (wt.writers r).state = .groupLeader
  waiting : ∀ x ∈ R.tail, (wt.writers x).state = (w₀ x).state

section Exit

variable {lw : Writer} {groupId leader newest : ℕ} {w₀ : ℕ → Writer} {g : GroupWalk}
  {G R : List ℕ}

theorem WalkInv.group_nodup (hinv : WalkInv lw groupId leader newest w₀ g G R []) : G.Nodup :=
  (List.nodup_append.mp (by simpa using hinv.nodup)).1

/-- The exit of a leader that set no writer aside: its group is the whole
stack, so it empties the stack and completes its followers. -/
theorem WalkInv.exit_group (hinv : WalkInv lw groupId leader newest w₀ g G R [])
    (hrb : g.rb = none) {fuel : ℕ} (hfuel : G.length ≤ fuel) :
    ∃ wt'', ExitAsBatchGroupLeader g.wt g.group fuel = some wt'' ∧
      RoundDone w₀ wt'' leader G R := by
  obtain ⟨hstack, hR⟩ := hinv.stack_group hrb
  have hre : g.re = none := by rw [← hinv.rest_last, hR, List.getLast?_nil]
  have hhead : g.wt.newestWriter = some g.group.lastWriter := by
    rw [hinv.newest_writer, hinv.group_last_writer, ← hinv.w_eq,
      hinv.current.resolve_right (by simp [hre])]
  obtain ⟨wt'', hrun, htop, hwriters⟩ := completeFollowers_chain leader fuel
    { g.wt with newestWriter := none } G g.group.lastWriter hstack.chain hinv.group_head
    (hinv.group_last.trans (congrArg some hinv.group_last_writer.symm)) hinv.group_nodup hfuel
  refine ⟨wt'', ?_, ⟨?_, fun x hx hxl => ?_, by simp [hR], by simp [hR]⟩⟩
  · simp only [ExitAsBatchGroupLeader, hhead, if_pos, Option.bind_eq_bind, Option.bind_some]
    rw [hinv.group_leader]
    exact hrun
  · rw [hR]
    exact ⟨List.isChain_nil, by simp, htop, List.nodup_nil⟩
  · rw [hwriters x, if_pos ⟨hx, hxl⟩]

/-- The exit of a leader that set writers aside: the first of them, above the
group's end, becomes the next leader and the bottom of the stack, and the
followers are completed. -/
theorem WalkInv.exit_splice (hinv : WalkInv lw groupId leader newest w₀ g G R [])
    {rb re : ℕ} (hrb : g.rb = some rb) (hre : g.re = some re) {fuel : ℕ}
    (hfuel : G.length + R.length ≤ fuel) :
    ∃ wt'', ExitAsBatchGroupLeader { appendSideList g.wt g.we rb re with newestWriter := some re }
        g.group fuel = some wt'' ∧ RoundDone w₀ wt'' leader G R := by
  set wt' : WriteThread := { appendSideList g.wt g.we rb re with newestWriter := some re } with hwt'
  have hs : Stack wt' (G ++ R) := hinv.stack_splice hrb hre
  have hrb_head : R.head? = some rb := hinv.rest_head.trans hrb
  have hrbR : rb ∈ R := List.mem_of_mem_head? hrb_head
  have hlastR : R.getLast? = some re := hinv.rest_last.trans hre
  have hweG : g.we ∈ G := List.mem_of_getLast? hinv.group_last
  have hdisj : ∀ a ∈ G, a ∉ R := fun a ha hr => (List.nodup_append.mp hs.nodup).2.2 a ha a hr rfl
  have hnodupR : R.Nodup := (List.nodup_append.mp hs.nodup).2.1
  -- from the group's end up through the side list, both links are laid
  have hchainB : (g.we :: R).IsChain wt'.Below := by
    have hsplit : G.dropLast ++ (g.we :: R) = G ++ R := by
      rw [← List.dropLast_append_getLast? g.we hinv.group_last]
      simp
    exact hs.chain.suffix (hsplit ▸ List.suffix_append _ _)
  have hchainA : (g.we :: R).IsChain wt'.Above := by
    cases R with
    | nil => simp at hrbR
    | cons r R =>
        have hr : r = rb := by simpa using hrb_head
        subst hr
        refine List.isChain_cons_cons.mpr ⟨?_, isChain_above_of_linkNewer (fun a ha => ?_)
          hinv.rest_newer⟩
        · show ((appendSideList g.wt g.we r re).writers g.we).linkNewer = some r
          rw [linkNewer_appendSideList, if_pos rfl]
        · have haR : a ∈ r :: R := List.dropLast_subset _ ha
          have hawe : a ≠ g.we := fun h => hdisj _ hweG (h ▸ haR)
          have hare : a ≠ re := by
            rintro rfl
            have hsplit := List.dropLast_append_getLast? a hlastR
            rw [← hsplit] at hnodupR
            exact (List.nodup_append.mp hnodupR).2.2 a ha a List.mem_cons_self rfl
          show ((appendSideList g.wt g.we r re).writers a).linkNewer = _
          rw [linkNewer_appendSideList, if_neg hawe, if_neg hare]
  have hlast : (g.we :: R).getLast? = some re := by
    rw [List.getLast?_cons, hlastR]
    rfl
  obtain ⟨p, hp⟩ : ∃ p, (g.we :: R).dropLast.getLast? = some p := by
    cases R with
    | nil => simp at hrbR
    | cons r R => exact ⟨_, List.getLast?_eq_some_getLast (by simp)⟩
  -- so the exit's `CreateMissingNewerLinks` stops at once
  have hcreate : ∀ fuel', CreateMissingNewerLinks wt' (fuel' + 1) re = wt' := fun fuel' =>
    CreateMissingNewerLinks_of_linked (rel_of_getLast? hchainB hp hlast)
      (by rw [rel_of_getLast? hchainA hp hlast]; rfl) fuel'
  have hnext : (wt'.writers g.group.lastWriter).linkNewer = some rb := by
    rw [hinv.group_last_writer]
    show ((appendSideList g.wt g.we rb re).writers g.we).linkNewer = some rb
    rw [linkNewer_appendSideList, if_pos rfl]
  have hhead_ne : re ≠ g.group.lastWriter := by
    rw [hinv.group_last_writer]
    exact fun h => hdisj _ hweG (h ▸ List.mem_of_getLast? hlastR)
  set wt₄ := (wt'.modify rb fun x => { x with linkOlder := none }).SetState rb .groupLeader
    with hwt₄
  have holder₄ : ∀ x, (wt₄.writers x).linkOlder =
      if x = rb then none else (wt'.writers x).linkOlder := fun x => by
    by_cases hx : x = rb <;> simp [hwt₄, SetState, hx]
  have hkeep₄ : ∀ x, x ≠ rb → wt₄.writers x = wt'.writers x := fun x hx => by
    simp [hwt₄, SetState, hx]
  have hG₄ : G.IsChain wt₄.Below := isChain_below_of_linkOlder
    (fun b hb => by
      have hbG := List.mem_of_mem_tail hb
      rw [holder₄, if_neg (fun h : b = rb => hdisj b hbG (h ▸ hrbR))])
    hs.chain.left_of_append
  obtain ⟨fuel', rfl⟩ : ∃ f, fuel = f + 1 :=
    ⟨fuel - 1, by have := List.length_pos_of_mem hrbR; omega⟩
  obtain ⟨wt'', hrun, htop, hwriters⟩ := completeFollowers_chain leader (fuel' + 1) wt₄ G
    g.group.lastWriter hG₄ hinv.group_head
    (hinv.group_last.trans (congrArg some hinv.group_last_writer.symm)) hinv.group_nodup
    (by omega)
  -- outside the group the followers' loop changes nothing
  have hout : ∀ x ∉ G, wt''.writers x = wt₄.writers x := fun x hx => by
    rw [hwriters x, if_neg (fun h => hx h.1)]
  refine ⟨wt'', ?_, ⟨⟨?_, ?_, ?_, ?_⟩, fun x hx hxl => ?_, fun r hr => ?_, fun x hx => ?_⟩⟩
  · simp only [ExitAsBatchGroupLeader, hwt', if_neg hhead_ne, Option.bind_eq_bind,
      Option.bind_some]
    rw [← hwt', hcreate, hnext, Option.bind_some, hinv.group_leader]
    exact hrun
  · -- the side list, cut from the group, is the stack
    refine isChain_below_of_linkOlder (fun b hb => ?_) (hs.chain.right_of_append)
    have hbR := List.mem_of_mem_tail hb
    have hbrb : b ≠ rb := by
      rintro rfl
      cases R with
      | nil => simp at hb
      | cons r R =>
          have hr : r = b := by simpa using hrb_head
          subst hr
          exact (List.nodup_cons.mp hnodupR).1 hb
    rw [hout b (fun h => hdisj b h hbR), holder₄, if_neg hbrb]
  · intro a ha
    rw [hrb_head, Option.mem_def, Option.some.injEq] at ha
    subst ha
    rw [hout rb (fun h => hdisj rb h hrbR), holder₄, if_pos rfl]
  · rw [htop]
    exact hlastR.symm
  · exact hnodupR
  · rw [hwriters x, if_pos ⟨hx, hxl⟩]
  · rw [hrb_head, Option.mem_def, Option.some.injEq] at hr
    subst hr
    rw [hout rb (fun h => hdisj rb h hrbR)]
    simp [hwt₄, SetState]
  · have hxR := List.mem_of_mem_tail hx
    have hxrb : x ≠ rb := by
      rintro rfl
      cases R with
      | nil => simp at hx
      | cons r R =>
          have hr : r = x := by simpa using hrb_head
          subst hr
          exact (List.nodup_cons.mp hnodupR).1 hx
    rw [hout x (fun h => hdisj x h hxR), hkeep₄ x hxrb]
    show ((appendSideList g.wt g.we rb re).writers x).state = (w₀ x).state
    rw [field_appendSideList Writer.state (fun _ _ => rfl) (fun _ _ => rfl), ← Writer.state_request,
      hinv.frame x, Writer.state_request]

end Exit

/-- A round of group commit with no spurious failure and no writer joining
hands out every writer of the stack once: the group's followers are completed,
and the writers set aside stay on the stack, the first of them the one new
leader and the others as they were. -/
theorem round_hands_out_every_writer {wt : WriteThread} {leader : ℕ} {ws : List ℕ}
    (hs : Stack wt (leader :: ws)) (hfresh : ∀ a ∈ leader :: ws, (wt.writers a).linkNewer = none)
    (groupId : ℕ) {fuel : ℕ} (hfuel : ws.length < fuel) :
    ∃ size group wt' wt'' G R,
      EnterAsBatchGroupLeader wt leader groupId [] false fuel = some (size, group, wt') ∧
      ExitAsBatchGroupLeader wt' group fuel = some wt'' ∧
      (G ++ R).Perm (leader :: ws) ∧ G.head? = some leader ∧ RoundDone wt.writers wt'' leader G R := by
  obtain ⟨g, G, R, newest, hinv, hperm, ⟨hrb, henter⟩ | ⟨rb, re, hrb, hre, henter⟩⟩ :=
    enter_of_stack hs hfresh groupId hfuel
  all_goals
    have hlen : G.length + R.length ≤ fuel := by
      have hcount := hperm.length_eq
      simp only [List.length_append, List.length_cons] at hcount
      omega
  · obtain ⟨wt'', hexit, hdone⟩ := hinv.exit_group hrb (show G.length ≤ fuel by omega)
    exact ⟨_, _, _, wt'', G, R, henter, hexit, hperm, hinv.group_head, hdone⟩
  · obtain ⟨wt'', hexit, hdone⟩ := hinv.exit_splice hrb hre hlen
    exact ⟨_, _, _, wt'', G, R, henter, hexit, hperm, hinv.group_head, hdone⟩

/-- The round of writer `1` over the queue where the sync write of writer `2`
waits behind it: writer `2` is set aside and becomes the next leader. -/
theorem round_hands_out_every_writer_sync_behind :
    Stack syncBehindLeader [1, 2] ∧
      (∀ a ∈ [1, 2], (syncBehindLeader.writers a).linkNewer = none) ∧
      ∃ size group wt' wt'' G R,
        EnterAsBatchGroupLeader syncBehindLeader 1 0 [] false 2 = some (size, group, wt') ∧
        ExitAsBatchGroupLeader wt' group 2 = some wt'' ∧
        (G ++ R).Perm [1, 2] ∧ G.head? = some 1 ∧
        RoundDone syncBehindLeader.writers wt'' 1 G R := by
  have hs : Stack syncBehindLeader [1, 2] := stack_joinAll (stack_nil _) (by decide)
  have hfresh : ∀ a ∈ [1, 2], (syncBehindLeader.writers a).linkNewer = none := by decide
  exact ⟨hs, hfresh, round_hands_out_every_writer hs hfresh 0 (by decide)⟩

end WriteThread

end HapDB
