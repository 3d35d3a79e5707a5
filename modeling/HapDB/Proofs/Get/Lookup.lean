import HapDB.Proofs.Get.Outcome

/-!
# A lookup that reads one entry at a time

A table's `GetContext` and a memtable's `Saver` are both handed the entries of
their source from the lookup key on, one call per entry, until a call returns
false.  `LookupModel` says what the reference reads of such a state: the view
that tells the version an entry gives, the outcome so far, an invariant the
calls keep, and whether the lookup still looks.

`Reads s vs s'` says that the state `s'` has read the versions `vs` from `s`:
the view is the same, the outcome is `s`'s with `vs` folded in, and the lookup
is still looking or has its answer.  `Steps` is one call that reads at most one
version and returns true exactly while the lookup goes on.

`saveLoop_reads` is the run lemma: a loop over the entries whose calls each
step by the entry's version, and stop on an entry of another user key, reads
the versions of the source (`ReadView.versionsOf`).
-/

namespace HapDB

open GetOutcome

/-- What the reference reads of a lookup's state `σ`. -/
structure LookupModel (σ : Type) where
  op : GetMergeOperator
  view : σ → ReadView
  outcome : σ → GetOutcome
  inv : σ → Prop
  live : σ → Prop

namespace LookupModel

variable {σ : Type} (M : LookupModel σ)

/-- The state `s'` has read the versions `vs` from `s`. -/
structure Reads (s : σ) (vs : List KeyVersion) (s' : σ) : Prop where
  view : M.view s' = M.view s
  inv : M.inv s'
  outcome : M.outcome s' = vs.foldl (step M.op (M.view s).userKey) (M.outcome s)
  live_or_decided : M.live s' ∨ (M.outcome s').isDecided = true

/-- One call on a live state: it reads the version `v`, and returns true
exactly while the lookup goes on. -/
structure Steps (s : σ) (v : Option KeyVersion) (r : Bool × σ) : Prop
    extends M.Reads s v.toList r.2 where
  more : r.1 = true → M.live r.2
  done : r.1 = false → (M.outcome r.2).isDecided = true

/-- The loop of a table reader or of a memtable rep: `save` on each entry while
it returns true. -/
def saveLoop (save : σ → ParsedInternalKey → Bytes → Bool × σ) : σ → List (ParsedInternalKey × Bytes) → σ
  | s, [] => s
  | s, (parsedKey, value) :: rest =>
    match save s parsedKey value with
    | (true, s) => saveLoop save s rest
    | (false, s) => s

variable {M}

theorem Reads.refl {s : σ} (hi : M.inv s) (hl : M.live s) : M.Reads s [] s :=
  ⟨rfl, hi, rfl, Or.inl hl⟩

theorem Reads.trans {s₁ s₂ s₃ : σ} {vs ws : List KeyVersion} (h₁ : M.Reads s₁ vs s₂)
    (h₂ : M.Reads s₂ ws s₃) : M.Reads s₁ (vs ++ ws) s₃ := by
  refine ⟨h₂.view.trans h₁.view, h₂.inv, ?_, h₂.live_or_decided⟩
  rw [h₂.outcome, h₁.outcome, h₁.view, List.foldl_append]

/-- No version read after the answer changes it. -/
theorem Reads.append_of_isDecided {s s' : σ} {vs : List KeyVersion} (h : M.Reads s vs s')
    (hd : (M.outcome s').isDecided = true) (ws : List KeyVersion) : M.Reads s (vs ++ ws) s' := by
  refine ⟨h.view, h.inv, ?_, h.live_or_decided⟩
  rw [List.foldl_append, ← h.outcome, foldl_step_of_isDecided hd]

/-- A call from a state with the view and the outcome of `s` reads as one from `s`. -/
theorem Steps.congr_start {s s₁ : σ} {v : Option KeyVersion} {r : Bool × σ} (h : M.Steps s₁ v r)
    (hview : M.view s₁ = M.view s) (hout : M.outcome s₁ = M.outcome s) : M.Steps s v r := by
  refine ⟨⟨h.view.trans hview, h.inv, ?_, h.live_or_decided⟩, h.more, h.done⟩
  rw [h.outcome, hout, hview]

/-- A call that ends the lookup on a state whose outcome the version decides. -/
theorem Steps.of_decided {s s' : σ} {v : KeyVersion} (hview : M.view s' = M.view s) (hi : M.inv s')
    (hout : M.outcome s' = step M.op (M.view s).userKey (M.outcome s) v)
    (hd : (M.outcome s').isDecided = true) : M.Steps s (some v) (false, s') :=
  ⟨⟨hview, hi, hout, Or.inr hd⟩, fun h => absurd h Bool.false_ne_true, fun _ => hd⟩

/-- A call that goes on from a live state. -/
theorem Steps.of_live {s s' : σ} {v : Option KeyVersion} (hview : M.view s' = M.view s)
    (hi : M.inv s') (hout : M.outcome s' = v.toList.foldl (step M.op (M.view s).userKey) (M.outcome s))
    (hl : M.live s') : M.Steps s v (true, s') :=
  ⟨⟨hview, hi, hout, Or.inl hl⟩, fun _ => hl, fun h => absurd h (by simp)⟩

section Loop

variable (P : ParsedInternalKey × Bytes → Prop) (save : σ → ParsedInternalKey → Bytes → Bool × σ)
  (hstep : ∀ s e, M.inv s → M.live s → P e → (M.view s).ucmp e.1.userKey (M.view s).userKey = .eq →
    M.Steps s ((M.view s).versionOf e) (save s e.1 e.2))
  (hother : ∀ s (e : ParsedInternalKey × Bytes), (M.view s).ucmp e.1.userKey (M.view s).userKey ≠ .eq →
    save s e.1 e.2 = (false, s))
include hstep hother

/-- The loop reads the versions of the entries from the lookup key on, up to
the first entry of another user key. -/
theorem saveLoop_reads {s : σ} (hi : M.inv s) (hl : M.live s) (es : List (ParsedInternalKey × Bytes))
    (hes : ∀ e ∈ es, P e) : M.Reads s ((M.view s).versionsOf es) (saveLoop save s es) := by
  -- induction on the entries, generalizing the state one call moves
  induction es generalizing s with
  | nil => exact Reads.refl hi hl
  | cons e es ih =>
    by_cases hkey : (M.view s).ucmp e.1.userKey (M.view s).userKey = .eq
    · have hs := hstep s e hi hl (hes e List.mem_cons_self) hkey
      rw [ReadView.versionsOf_cons_of_eq es hkey]
      unfold saveLoop
      rcases hr : save s e.1 e.2 with ⟨more, s'⟩
      rw [hr] at hs
      cases more
      · -- the lookup has its answer: the rest of the source is not read
        exact hs.toReads.append_of_isDecided (hs.done rfl) _
      · have hrest := ih hs.inv (hs.more rfl) fun e he => hes e (List.mem_cons_of_mem _ he)
        rw [hs.view] at hrest
        exact hs.toReads.trans hrest
    · -- an entry of another user key ends the lookup in this source
      rw [ReadView.versionsOf_cons_of_ne es hkey]
      unfold saveLoop
      rw [hother s e hkey]
      exact Reads.refl hi hl

end Loop

end LookupModel

end HapDB
