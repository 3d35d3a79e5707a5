import HapDB.Db.WriteThread
import Mathlib.Data.List.Chain
import Mathlib.Data.List.Nodup

/-!
# The stack of writers

`newest_writer_` and the `link_older` pointers form a stack.  Its invariant is
`Stack wt L`: following `link_older` down from `newest_writer_` visits exactly
the writers of `L`, from the last to the first, and stops at the first, whose
`link_older` is null.  `L` is listed from the oldest writer, the group leader,
up.

* `stack_JoinBatchGroup` and the run lemma `stack_joinAll`: a writer that
  joins goes on top, and the first to join an empty queue is its leader;
* `CreateMissingNewerLinks_chain`: a leader that lays the `link_newer`
  pointers down from the top of a stack whose writers have none makes them
  the inverse of `link_older`;
* `findAbove_eq_none_of_mem`: the fallback of the splice in
  `EnterAsBatchGroupLeader`, started at a writer of a stack and looking for the
  writer above it, never finds one and walks off the bottom.
-/

namespace HapDB

namespace WriteThread

/-- `b->link_older == a`: `a` is directly below `b`. -/
def Below (wt : WriteThread) (a b : ℕ) : Prop := (wt.writers b).linkOlder = some a

/-- `a->link_newer == b`: `b` is directly above `a`. -/
def Above (wt : WriteThread) (a b : ℕ) : Prop := (wt.writers a).linkNewer = some b

/-- The writers on the stack, from the oldest up: the oldest links to nothing,
each of the others to the one before it, and the last is `newest_writer_`. -/
structure Stack (wt : WriteThread) (L : List ℕ) : Prop where
  chain : L.IsChain wt.Below
  bottom : ∀ a ∈ L.head?, (wt.writers a).linkOlder = none
  top : wt.newestWriter = L.getLast?
  nodup : L.Nodup

/-- The empty queue holds an empty stack. -/
theorem stack_nil (writers : ℕ → Writer) : Stack ⟨writers, none⟩ [] :=
  ⟨List.isChain_nil, by simp, rfl, List.nodup_nil⟩

/-! ## Frame rules -/

/-- A chain of `link_older` links reads the links of all its writers but the
first. -/
theorem isChain_below_of_linkOlder {wt wt' : WriteThread} {L : List ℕ}
    (h : ∀ b ∈ L.tail, (wt'.writers b).linkOlder = (wt.writers b).linkOlder)
    (hL : L.IsChain wt.Below) : L.IsChain wt'.Below :=
  hL.imp_of_mem_tail_imp fun _ b _ hb hab => (h b hb).trans hab

/-- A chain holds for a relation that agrees with its own at every element but
the last. -/
theorem isChain_of_dropLast {α : Type*} {r s : α → α → Prop} :
    ∀ {L : List α}, L.IsChain r → (∀ a ∈ L.dropLast, ∀ b, r a b → s a b) → L.IsChain s
  | [], _, _ => .nil
  | [a], _, _ => .singleton a
  | a :: b :: L, h, hrs => by
      rw [List.isChain_cons_cons] at h ⊢
      exact ⟨hrs a (by simp) b h.1, isChain_of_dropLast h.2 fun x hx => hrs x (by simp [hx])⟩

/-- A chain of `link_newer` links reads the links of all its writers but the
last. -/
theorem isChain_above_of_linkNewer {wt wt' : WriteThread} {L : List ℕ}
    (h : ∀ a ∈ L.dropLast, (wt'.writers a).linkNewer = (wt.writers a).linkNewer)
    (hL : L.IsChain wt.Above) : L.IsChain wt'.Above :=
  isChain_of_dropLast hL fun a ha _ hab => (h a ha).trans hab

/-- A stack reads the links of its writers and `newest_writer_`. -/
theorem Stack.of_linkOlder {wt wt' : WriteThread} {L : List ℕ} (hs : Stack wt L)
    (h : ∀ b ∈ L, (wt'.writers b).linkOlder = (wt.writers b).linkOlder)
    (htop : wt'.newestWriter = wt.newestWriter) : Stack wt' L where
  chain := isChain_below_of_linkOlder (fun b hb => h b (List.mem_of_mem_tail hb)) hs.chain
  bottom a ha := (h a (List.mem_of_mem_head? ha)).trans (hs.bottom a ha)
  top := htop.trans hs.top
  nodup := hs.nodup

/-- A change of one writer that keeps a field keeps it for every writer. -/
theorem field_modify {β : Type*} (p : Writer → β) (wt : WriteThread) (a : ℕ) {f : Writer → Writer}
    (hf : ∀ w, p (f w) = p w) (x : ℕ) : p ((wt.modify a f).writers x) = p (wt.writers x) := by
  by_cases hx : x = a
  · subst hx
    simp [hf]
  · simp [hx]

theorem below_modify {wt : WriteThread} {a : ℕ} {f : Writer → Writer}
    (hf : ∀ w, (f w).linkOlder = w.linkOlder) : (wt.modify a f).Below = wt.Below := by
  funext c b
  simp only [Below, field_modify Writer.linkOlder wt a hf b]

theorem above_modify {wt : WriteThread} {a : ℕ} {f : Writer → Writer}
    (hf : ∀ w, (f w).linkNewer = w.linkNewer) : (wt.modify a f).Above = wt.Above := by
  funext b c
  simp only [Above, field_modify Writer.linkNewer wt a hf b]

theorem stack_SetState {wt : WriteThread} {L : List ℕ} (hs : Stack wt L) (w : ℕ) (s : State) :
    Stack (wt.SetState w s) L :=
  hs.of_linkOlder (fun b _ => by by_cases hb : b = w <;> simp [SetState, hb]) rfl

/-! ## Joining -/

theorem LinkOne_fst (wt : WriteThread) (w : ℕ) : (LinkOne wt w).1 = wt.newestWriter.isNone := rfl

@[simp] theorem newestWriter_LinkOne (wt : WriteThread) (w : ℕ) :
    (LinkOne wt w).2.newestWriter = some w := rfl

theorem writers_LinkOne_of_ne (wt : WriteThread) {w x : ℕ} (h : x ≠ w) :
    (LinkOne wt w).2.writers x = wt.writers x := by
  simp [LinkOne, h]

/-- `LinkOne` puts the writer on top of the stack. -/
theorem stack_LinkOne {wt : WriteThread} {L : List ℕ} (hs : Stack wt L) {w : ℕ} (hw : w ∉ L) :
    Stack (LinkOne wt w).2 (L ++ [w]) := by
  have hlink : ((LinkOne wt w).2.writers w).linkOlder = L.getLast? := by
    simp [LinkOne, hs.top]
  have hrest : ∀ b ∈ L, ((LinkOne wt w).2.writers b).linkOlder = (wt.writers b).linkOlder :=
    fun b hb => by rw [writers_LinkOne_of_ne wt (ne_of_mem_of_not_mem hb hw)]
  have hnodup : (L ++ [w]).Nodup := List.nodup_append.mpr ⟨hs.nodup, List.nodup_singleton w,
    fun a ha b hb => List.mem_singleton.mp hb ▸ ne_of_mem_of_not_mem ha hw⟩
  refine ⟨?_, ?_, by simp, hnodup⟩
  · refine List.isChain_append.mpr ⟨?_, List.isChain_singleton w, ?_⟩
    · exact isChain_below_of_linkOlder (fun b hb => hrest b (List.mem_of_mem_tail hb)) hs.chain
    · intro a ha b hb
      simp only [List.head?_cons, Option.mem_def, Option.some.injEq] at hb
      subst hb
      exact hlink.trans ha
  · intro a ha
    cases L with
    | nil =>
        simp only [List.nil_append, List.head?_cons, Option.mem_def, Option.some.injEq] at ha
        subst ha
        simpa using hlink
    | cons b L =>
        simp only [List.cons_append, List.head?_cons, Option.mem_def, Option.some.injEq] at ha
        subst ha
        exact (hrest b List.mem_cons_self).trans (hs.bottom b rfl)

/-- `JoinBatchGroup` puts the writer on top of the stack. -/
theorem stack_JoinBatchGroup {wt : WriteThread} {L : List ℕ} (hs : Stack wt L) {w : ℕ}
    (hw : w ∉ L) : Stack (JoinBatchGroup wt w) (L ++ [w]) := by
  have hlinked := stack_LinkOne hs hw
  unfold JoinBatchGroup
  rcases hl : LinkOne wt w with ⟨linkedAsLeader, wt'⟩
  rw [hl] at hlinked
  dsimp only
  split
  · exact stack_SetState hlinked w _
  · exact hlinked

/-- The writers `ws` join one after another. -/
def joinAll (wt : WriteThread) (ws : List ℕ) : WriteThread := ws.foldl JoinBatchGroup wt

/-- The run lemma: writers that join one after another are stacked in the
order they joined. -/
theorem stack_joinAll {wt : WriteThread} {L : List ℕ} (hs : Stack wt L) {ws : List ℕ}
    (hnodup : (L ++ ws).Nodup) : Stack (joinAll wt ws) (L ++ ws) := by
  induction ws generalizing wt L with
  | nil => simpa [joinAll] using hs
  | cons w ws ih =>
      have hw : w ∉ L := fun hmem => (List.nodup_append.mp hnodup).2.2 w hmem w
        List.mem_cons_self rfl
      have hrun := ih (stack_JoinBatchGroup hs hw) (by simpa using hnodup)
      simpa [joinAll] using hrun

theorem JoinBatchGroup_eq (wt : WriteThread) (w : ℕ) :
    JoinBatchGroup wt w =
      if wt.newestWriter.isNone then (LinkOne wt w).2.SetState w .groupLeader else (LinkOne wt w).2 :=
  rfl

/-- Joining sets only the joining writer's `link_older` and state, so what a
writer's other fields say is kept through any run of joins. -/
theorem field_joinAll {β : Type*} (p : Writer → β)
    (hlink : ∀ w o, p { w with linkOlder := o } = p w) (hstate : ∀ w s, p { w with state := s } = p w)
    (wt : WriteThread) (ws : List ℕ) (x : ℕ) : p ((joinAll wt ws).writers x) = p (wt.writers x) := by
  induction ws generalizing wt with
  | nil => rfl
  | cons w ws ih =>
      have hstep : p ((JoinBatchGroup wt w).writers x) = p (wt.writers x) := by
        rw [JoinBatchGroup_eq]
        by_cases hx : x = w
        · subst hx
          have hlinked : (LinkOne wt x).2.writers x = { wt.writers x with linkOlder := wt.newestWriter } := by
            simp [LinkOne]
          split
          · rw [SetState, writers_modify_self, hstate, hlinked, hlink]
          · rw [hlinked, hlink]
        · split <;> simp [LinkOne, SetState, hx]
      rw [joinAll, List.foldl_cons, ← joinAll, ih, hstep]

/-! ## The newer links -/

/-- The bottom of a chain is the bottom of the chain without its top. -/
theorem head?_dropLast {α : Type*} : ∀ {L : List α}, L.dropLast ≠ [] → L.dropLast.head? = L.head?
  | [], h | [_], h => absurd rfl h
  | _ :: _ :: _, _ => rfl

theorem mem_head?_of_mem_head?_dropLast {L : List ℕ} {a : ℕ} (h : a ∈ L.dropLast.head?) :
    a ∈ L.head? := by
  rwa [← head?_dropLast (fun hnil => by simp [hnil] at h)]

/-- The link from the element before the last of a chain to the last. -/
theorem rel_of_getLast? {α : Type*} {r : α → α → Prop} {L : List α} (hL : L.IsChain r) {a b : α}
    (ha : L.dropLast.getLast? = some a) (hb : L.getLast? = some b) : r a b := by
  rw [← List.dropLast_append_getLast? b hb] at hL
  exact (List.isChain_append.mp hL).2.2 a ha b rfl

/-- `CreateMissingNewerLinks(head)`, from the top of a chain whose writers
below the top have no `link_newer`, points each of them at the writer above
it and changes nothing else. -/
theorem CreateMissingNewerLinks_chain :
    ∀ (fuel : ℕ) (wt : WriteThread) (L : List ℕ) (head : ℕ), L.IsChain wt.Below →
      (∀ a ∈ L.head?, (wt.writers a).linkOlder = none) → L.Nodup →
      (∀ a ∈ L.dropLast, (wt.writers a).linkNewer = none) → L.getLast? = some head →
      L.length ≤ fuel →
      L.IsChain (CreateMissingNewerLinks wt fuel head).Above ∧
        (∀ x ∉ L.dropLast, (CreateMissingNewerLinks wt fuel head).writers x = wt.writers x) ∧
        (∀ x, (CreateMissingNewerLinks wt fuel head).writers x =
          { wt.writers x with linkNewer := ((CreateMissingNewerLinks wt fuel head).writers x).linkNewer }) ∧
        (CreateMissingNewerLinks wt fuel head).newestWriter = wt.newestWriter := by
  intro fuel
  induction fuel with
  | zero =>
      intro wt L head _ _ _ _ hhead hfuel
      simp [List.length_eq_zero_iff.mp (Nat.le_zero.mp hfuel)] at hhead
  | succ fuel ih =>
      intro wt L head hchain hbottom hnodup hnewer hhead hfuel
      have hL := List.dropLast_append_getLast? head hhead
      cases hnext : L.dropLast.getLast? with
      | none =>
          -- the top is the bottom: nothing to link
          have hnil : L.dropLast = [] := List.getLast?_eq_none_iff.mp hnext
          have hsingle : L = [head] := by rw [← hL, hnil, List.nil_append]
          have hstop : (wt.writers head).linkOlder = none := hbottom head (by simp [hsingle])
          simp [CreateMissingNewerLinks, hstop, hsingle]
      | some next =>
          have hbelow : (wt.writers head).linkOlder = some next := rel_of_getLast? hchain hnext hhead
          have hmem : next ∈ L.dropLast := List.mem_of_getLast? hnext
          have hfree : (wt.writers next).linkNewer = none := hnewer next hmem
          have hnodup' : (L.dropLast ++ [head]).Nodup := by rw [hL]; exact hnodup
          have hne : head ≠ next := fun h => (List.nodup_append.mp hnodup').2.2 next hmem head
            List.mem_cons_self h.symm
          set wt₁ := wt.modify next fun x => { x with linkNewer := some head } with hwt₁
          have hstep : CreateMissingNewerLinks wt (fuel + 1) head =
              CreateMissingNewerLinks wt₁ fuel next := by
            simp [CreateMissingNewerLinks, hbelow, hfree, hwt₁]
          have holder₁ : ∀ x, (wt₁.writers x).linkOlder = (wt.writers x).linkOlder := fun x => by
            by_cases hx : x = next <;> simp [hwt₁, hx]
          -- the writer below the top is the top of the rest
          have hL' := List.dropLast_append_getLast? next hnext
          have hnodup₁ : L.dropLast.Nodup := hnodup.sublist (List.dropLast_sublist L)
          have hnext_not : next ∉ L.dropLast.dropLast := by
            rw [← hL'] at hnodup₁
            exact fun h => (List.nodup_append.mp hnodup₁).2.2 next h next List.mem_cons_self rfl
          obtain ⟨hchain', hframe', honly', htop'⟩ := ih wt₁ L.dropLast next
            (isChain_below_of_linkOlder (fun b _ => holder₁ b) hchain.dropLast)
            (fun a ha => (holder₁ a).trans (hbottom a (mem_head?_of_mem_head?_dropLast ha)))
            hnodup₁
            (fun a ha => by
              have hane : a ≠ next := ne_of_mem_of_not_mem ha hnext_not
              simpa [hwt₁, hane] using hnewer a (List.dropLast_sublist _ |>.subset ha))
            hnext (by simp; omega)
          rw [hstep]
          refine ⟨?_, fun x hx => ?_, fun x => ?_, htop'⟩
          · rw [← hL]
            refine List.isChain_append.mpr ⟨hchain', List.isChain_singleton head, ?_⟩
            intro a ha b hb
            rw [hnext, Option.mem_def, Option.some.injEq] at ha
            simp only [List.head?_cons, Option.mem_def, Option.some.injEq] at hb
            subst ha hb
            show ((CreateMissingNewerLinks wt₁ fuel next).writers next).linkNewer = some head
            rw [hframe' next hnext_not]
            simp [hwt₁]
          · have hxne : x ≠ next := fun h => hx (h ▸ hmem)
            rw [hframe' x (fun h => hx (List.dropLast_sublist _ |>.subset h)), hwt₁,
              writers_modify_of_ne _ _ hxne]
          · rw [honly' x]
            by_cases hx : x = next <;> simp [hwt₁, hx]

/-! ## The fallback walk of the splice -/

/-- The fallback walk, from the top of a chain whose bottom links to nothing,
looking for the writer linked to a `target` that is not in the chain below the
top: no writer it passes is, and it walks off the bottom. -/
theorem findAbove_eq_none (wt : WriteThread) (target : ℕ) :
    ∀ (fuel : ℕ) (L : List ℕ) (x : ℕ), L.IsChain wt.Below →
      (∀ a ∈ L.head?, (wt.writers a).linkOlder = none) → L.getLast? = some x →
      target ∉ L.dropLast → findAbove wt target fuel x = none
  | 0, _, _, _, _, _, _ => rfl
  | fuel + 1, L, x, hchain, hbottom, hx, htarget => by
      cases hnext : L.dropLast.getLast? with
      | none =>
          -- `x` is the bottom
          have hL := List.dropLast_append_getLast? x hx
          rw [List.getLast?_eq_none_iff.mp hnext, List.nil_append] at hL
          have hstop : (wt.writers x).linkOlder = none := hbottom x (by simp [← hL])
          simp [findAbove, hstop]
      | some y =>
          have hbelow : (wt.writers x).linkOlder = some y := rel_of_getLast? hchain hnext hx
          have hy : y ≠ target := fun h => htarget (h ▸ List.mem_of_getLast? hnext)
          rw [findAbove, if_neg (by simpa [hbelow] using hy), hbelow, Option.bind_some]
          exact findAbove_eq_none wt target fuel L.dropLast y hchain.dropLast
            (fun a ha => hbottom a (mem_head?_of_mem_head?_dropLast ha)) hnext
            (fun h => htarget (List.dropLast_sublist _ |>.subset h))

/-- Started at a writer of the stack and looking for the writer above it, the
fallback walk walks off the bottom. -/
theorem findAbove_eq_none_of_mem {wt : WriteThread} {L : List ℕ} (hs : Stack wt L) {x : ℕ}
    (hx : x ∈ L) (fuel : ℕ) : findAbove wt x fuel x = none := by
  -- the stack up to `x` is a chain with `x` on top
  obtain ⟨s, t, rfl⟩ := List.append_of_mem hx
  have hsplit : s ++ x :: t = (s ++ [x]) ++ t := by simp
  rw [hsplit] at hs
  have hnodup : (s ++ [x]).Nodup := hs.nodup.sublist (List.sublist_append_left _ _)
  refine findAbove_eq_none wt x fuel (s ++ [x]) x hs.chain.left_of_append
    (fun a ha => hs.bottom a ?_) (by simp) ?_
  · rw [List.head?_append_of_ne_nil _ (by simp)]
    exact ha
  · rw [List.dropLast_concat]
    exact fun h => (List.nodup_append.mp hnodup).2.2 x h x List.mem_cons_self rfl

/-- The fallback walk reads only the writers. -/
theorem findAbove_congr {wt wt' : WriteThread} (h : wt'.writers = wt.writers) (target : ℕ) :
    ∀ fuel x, findAbove wt' target fuel x = findAbove wt target fuel x := by
  intro fuel
  induction fuel with
  | zero => intro x; rfl
  | succ fuel ih =>
      intro x
      simp [findAbove, h, funext ih]

end WriteThread

end HapDB
