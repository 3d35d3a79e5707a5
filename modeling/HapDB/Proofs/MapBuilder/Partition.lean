import HapDB.Db.MapBuilder
import HapDB.Lib.Cut
import HapDB.Proofs.RangeDel.Fragments

/-!
# `PartitionRangeWithDepend` cuts two lists of ranges into the pieces of their union, difference or intersection

Read as cuts between keys (`RangeWithDepend.cut`), every bound the sweep takes
ends the piece being built and starts the next one at the same cut
(`partitionStep_eq`), and `CompInclude` takes the bounds in the order of their
cuts (`partitionCompare_some`).  So the invariant of the sweep is about one
position `p`, the last bound taken: every bound taken is at most `p`, every
bound left at least `p`, the pieces closed so far are in order below `p` and
hold exactly the keys below `p` that the partition keeps, and the piece being
built starts at `p` with the dependence of the ranges the sweep is inside
(`SweepInv`).  Between `p` and the next bound `q` every key is inside the same
ranges (`filter_holds_between`), so closing the piece at `q` keeps the
invariant (`SweepInv.step`), and at the end nothing is left above `p`
(`PartitionRangeWithDepend_partitions`).

The result needs a non-empty list on one side: with both lists empty the first
round reads `ranges_b[0]` (`partition_of_empty_lists_reads_past_end`).
-/

namespace HapDB

open Cut

namespace RangeWithDepend

/-- The bound `point[i]` as a cut: a left bound lies after its key when it is
open, a right bound when it is closed. -/
def cut (r : RangeWithDepend) (i : Bool) : Cut Bytes := ⟨r.point i, i == r.includes i⟩

/-- The range holds the key `x`, by its flags. -/
def Covers (icomp : Comparator) (r : RangeWithDepend) (x : Bytes) : Prop :=
  (icomp r.point0 x = .lt ∨ (icomp r.point0 x = .eq ∧ r.include0 = true)) ∧
    (icomp x r.point1 = .lt ∨ (icomp x r.point1 = .eq ∧ r.include1 = true))

/-- The range holds the cut `y`. -/
def Holds (icomp : Comparator) (r : RangeWithDepend) (y : Cut Bytes) : Prop :=
  Cut.Mem icomp (r.cut false) (r.cut true) y

instance (icomp : Comparator) (r : RangeWithDepend) (y : Cut Bytes) : Decidable (r.Holds icomp y) :=
  inferInstanceAs (Decidable (Cut.Mem _ _ _ _))

@[simp] theorem cut_false (r : RangeWithDepend) : r.cut false = ⟨r.point0, !r.include0⟩ := by
  cases h : r.include0 <;> simp [cut, point, includes, h]

@[simp] theorem cut_true (r : RangeWithDepend) : r.cut true = ⟨r.point1, r.include1⟩ := by
  cases h : r.include1 <;> simp [cut, point, includes, h]

/-- A key is in a range by its flags exactly when the cut before it is. -/
theorem covers_iff_holds {icomp : Comparator} {r : RangeWithDepend} {x : Bytes} :
    r.Covers icomp x ↔ r.Holds icomp (Cut.before x) := by
  simp only [Covers, Holds, Cut.Mem, cut_false, cut_true, Cut.le_before_iff, Cut.before_lt_iff,
    Bool.not_eq_false']

end RangeWithDepend

open RangeWithDepend

/-! ## What the partition is meant to be -/

/-- Whether a partition of `type` keeps a key that `a` holds (`inA`) and `b`
holds (`inB`): the union, the difference and the intersection. -/
def PartitionType.Keeps : PartitionType → Prop → Prop → Prop
  | .kMerge, inA, inB => inA ∨ inB
  | .kDelete, inA, inB => inA ∧ ¬ inB
  | .kExtract, inA, inB => inA ∧ inB

/-- The dependence a kept key gets from those of the ranges holding it in `a`
and in `b`. -/
def PartitionType.dependenceOf : PartitionType → List MapSstElement.LinkTarget →
    List MapSstElement.LinkTarget → List MapSstElement.LinkTarget
  | .kMerge, da, db => da ++ db
  | .kDelete, da, _ => da
  | .kExtract, da, _ => da

instance PartitionType.decidableKeeps (type : PartitionType) (inA inB : Prop) [Decidable inA]
    [Decidable inB] : Decidable (type.Keeps inA inB) :=
  match type with
  | .kMerge => inferInstanceAs (Decidable (inA ∨ inB))
  | .kDelete => inferInstanceAs (Decidable (inA ∧ ¬ inB))
  | .kExtract => inferInstanceAs (Decidable (inA ∧ inB))

/-- The dependences of the ranges of `l` that hold `y`, in order. -/
def dependenceAt (icomp : Comparator) (l : List RangeWithDepend) (y : Cut Bytes) :
    List MapSstElement.LinkTarget :=
  (l.filter fun r => decide (r.Holds icomp y)).flatMap (·.dependence)

/-- The bounds of a list of ranges as cuts, left to right. -/
abbrev cutBounds (l : List RangeWithDepend) : List (Cut Bytes) :=
  Cut.bounds (·.cut false) (·.cut true) l

/-- Ranges in order, pairwise disjoint and each bounded the right way round. -/
abbrev SortedRanges (icomp : Comparator) (l : List RangeWithDepend) : Prop :=
  Cut.Sorted icomp (·.cut false) (·.cut true) l

/-! ## One round of the sweep -/

/-- `CompInclude` orders two bounds by their cuts, and at one cut a left bound
first. -/
theorem CompInclude_eq (c : Ordering) (ab ai bb bi : Bool) :
    CompInclude c ab ai bb bi = (c.then (compare (ab == ai) (bb == bi))).then (compare ab bb) := by
  cases c <;> cases ab <;> cases ai <;> cases bb <;> cases bi <;> rfl

theorem partitionCompare_some (icomp : Comparator) (a b : RangeWithDepend) (ab bb : Bool) :
    partitionCompare icomp (some a) (some b) ab bb =
      (Cut.compareBy icomp (a.cut ab) (b.cut bb)).then (compare ab bb) := by
  rw [partitionCompare, CompInclude_eq]
  rfl

namespace PartitionOutput

/-- The piece being built, when there is one, ends at the cut `q`. -/
def closeAt (icomp : Comparator) (isOpen : Bool) (q : Cut Bytes) (s : Option (Bool × ℕ))
    (o : PartitionOutput) : PartitionOutput :=
  if isOpen then o.putRight icomp q.key q.after s else o

/-- A new piece starts at the cut `q`, depending on the ranges `a` and `b` the
sweep is inside, when it is inside one. -/
def openAt (type : PartitionType) (a b : Option RangeWithDepend) (q : Cut Bytes)
    (s : Option (Bool × ℕ)) (o : PartitionOutput) : PartitionOutput :=
  if a.isSome || b.isSome then (o.putLeft q.key (!q.after) s).putDepend type a b else o

end PartitionOutput

open PartitionOutput

/-- The bound a round takes: that of `a` when it takes one of `a`. -/
def takenCut (ra rb : Option RangeWithDepend) (ab bb ac : Bool) : Option (Cut Bytes) :=
  if ac then ra.map (·.cut ab) else rb.map (·.cut bb)

/-- The comparison is only `eq` for two bounds of the same kind. -/
theorem partitionCompare_eq_eq {icomp : Comparator} {ra rb : Option RangeWithDepend} {ab bb : Bool}
    (h : partitionCompare icomp ra rb ab bb = .eq) : ab = bb ∧ ra.isSome ∧ rb.isSome := by
  match ra, rb with
  | some a, some b =>
      rw [partitionCompare_some, Ordering.then_eq_eq] at h
      refine ⟨?_, rfl, rfl⟩
      cases ab <;> cases bb <;> simp_all [compare]
  | some _, none => simp [partitionCompare] at h
  | none, _ => simp [partitionCompare] at h

/-- Every round the sweep makes, in the one form of the table: the bound `q`
it takes ends the piece being built, if any, and starts one depending on the
ranges the sweep is inside afterwards, if any. -/
theorem partitionStep_eq (icomp : Comparator) (type : PartitionType) (ai bi : ℕ)
    {ra rb : Option RangeWithDepend} {ab bb : Bool} (o : PartitionOutput)
    (hra : ab = true → ra.isSome) (hrb : bb = true → rb.isSome) (hnext : ra.isSome ∨ rb.isSome)
    {c : Ordering} (hc : partitionCompare icomp ra rb ab bb = c) :
    ∃ q s₁ s₂, takenCut ra rb ab bb (c != .gt) = some q ∧
      partitionStep icomp type ai bi ra rb ab bb (c != .gt) (c != .lt) o =
        some (openAt type (if ab != (c != .gt) then ra else none) (if bb != (c != .lt) then rb else none)
          q s₂ (closeAt icomp (ab || bb) q s₁ o)) := by
  -- the rounds the table lists, and the configurations no round meets
  rcases ra with _ | a <;> rcases rb with _ | b <;> cases ab <;> cases bb <;> cases c
  all_goals
    first
    -- a read past the end, or a comparison that cannot come out so
    | (exfalso; simp [partitionCompare] at hc hra hrb hnext; done)
    | exact absurd (partitionCompare_eq_eq hc).1 (by decide)
    -- a round of the table: the sources it passes are those of the code, or
    -- any when there is no piece to close or to open
    | (refine ⟨_, ?_, ?_, rfl, ?_⟩; rotate_right
       · simp [partitionStep, openAt, closeAt, point, includes]; rfl
       all_goals exact none)

/-! ## Where the sweep is -/

/-- The number of bounds of a list the sweep has taken, at the range `i` and
inside it or not. -/
def takenCount (i : ℕ) (inside : Bool) : ℕ := 2 * i + inside.toNat

theorem cutBounds_getElem?_takenCount (l : List RangeWithDepend) (i : ℕ) (inside : Bool) :
    (cutBounds l)[takenCount i inside]? = l[i]?.map (·.cut inside) := by
  cases inside
  · exact getElem?_bounds_two_mul l i
  · exact getElem?_bounds_two_mul_add_one l i

/-- A round that takes a bound of a list moves past it: `ai += (ab + ac) / 2;
ab = (ab + ac) % 2`. -/
theorem takenCount_advance (i : ℕ) (inside taken : Bool) :
    takenCount (if inside && taken then i + 1 else i) (inside != taken) =
      takenCount i inside + taken.toNat := by
  cases inside <;> cases taken <;> simp [takenCount, Nat.mul_add]

theorem isSome_of_takenCount {l : List RangeWithDepend} {i : ℕ} {inside : Bool}
    (h : takenCount i inside < 2 * l.length) : l[i]?.isSome := by
  have : i < l.length := by cases inside <;> simp [takenCount] at h <;> omega
  simp [this]

/-- A cut past the bounds of a list the sweep has taken and below those it has
left is in the range the sweep is inside, if any, and in no other. -/
theorem filter_holds_between {icomp : Comparator} [Std.TransCmp icomp] {l : List RangeWithDepend}
    {i : ℕ} {inside : Bool} {y : Cut Bytes} (hk : takenCount i inside ≤ 2 * l.length)
    (hle : ∀ b ∈ (cutBounds l).take (takenCount i inside), Le icomp b y)
    (hlt : ∀ b ∈ (cutBounds l).drop (takenCount i inside), Lt icomp y b) :
    l.filter (fun r => decide (r.Holds icomp y)) = (if inside then l[i]? else none).toList := by
  cases inside with
  | false =>
      simp only [takenCount, Bool.toNat_false, Nat.add_zero] at hle hlt
      exact filter_mem_eq_nil l i hle hlt
  | true =>
      have hi : i < l.length := by simp [takenCount] at hk; omega
      obtain ⟨r, hr⟩ : ∃ r, l[i]? = some r := ⟨l[i], List.getElem?_eq_getElem hi⟩
      simp only [takenCount, Bool.toNat_true] at hle hlt
      rw [if_pos rfl, hr]
      exact filter_mem_eq_singleton l i hr hle hlt

/-! ## The pieces -/

/-- What `put_depend` leaves as the dependence of a new piece: what the
partition gives a cut inside `a` and `b` when it keeps such cuts, and nothing
otherwise. -/
theorem dependOn_dependence (type : PartitionType) (a b : Option RangeWithDepend) :
    (dependOn type a b default).dependence =
      if type.Keeps (a.isSome = true) (b.isSome = true) then
        type.dependenceOf (a.toList.flatMap (·.dependence)) (b.toList.flatMap (·.dependence))
      else [] := by
  cases type <;> cases a <;> cases b <;>
    simp [dependOn, PartitionType.Keeps, PartitionType.dependenceOf] <;> rfl

/-- With a dependence on every range (on those of `b` too for `kMerge`), a new
piece depends on something exactly when the partition keeps its cuts. -/
theorem dependOn_dependence_eq_nil_iff {type : PartitionType} {a b : Option RangeWithDepend}
    (ha : ∀ r ∈ a, r.dependence ≠ []) (hb : type = .kMerge → ∀ r ∈ b, r.dependence ≠ []) :
    (dependOn type a b default).dependence = [] ↔ ¬ type.Keeps (a.isSome = true) (b.isSome = true) := by
  rw [dependOn_dependence]
  split_ifs with hkeep
  · simp only [hkeep, not_true_eq_false, iff_false]
    cases type <;> cases a <;> cases b <;>
      simp_all [PartitionType.Keeps, PartitionType.dependenceOf]
  · simp [hkeep]

variable (icomp : Comparator) (type : PartitionType) (A B : List RangeWithDepend)

/-- The pieces closed so far, last first: in order, each with something
between its bounds, at or below the last bound taken `p`, and holding exactly
the cuts below `p` that the partition keeps, with their dependence. -/
structure Closed (done : List RangeWithDepend) (p : Option (Cut Bytes)) : Prop where
  sorted : SortedRanges icomp done.reverse
  nonempty : ∀ r ∈ done, Lt icomp (r.cut false) (r.cut true)
  below : ∀ r ∈ done, ∃ q, p = some q ∧ Le icomp (r.cut true) q
  holds : ∀ y q, p = some q → Lt icomp y q →
    ((∃ r ∈ done, r.Holds icomp y) ↔
      type.Keeps (∃ r ∈ A, r.Holds icomp y) (∃ r ∈ B, r.Holds icomp y))
  dependence : ∀ y, ∀ r ∈ done, r.Holds icomp y →
    r.dependence = type.dependenceOf (dependenceAt icomp A y) (dependenceAt icomp B y)

variable {icomp type A B}

theorem Closed.nil : Closed icomp type A B [] none :=
  ⟨Sorted.nil, by simp, by simp, by simp, by simp⟩

section Closed

variable [Std.TransCmp icomp] {done : List RangeWithDepend} {p : Option (Cut Bytes)} {q : Cut Bytes}

/-- No piece closed so far holds a cut at or above `p`. -/
theorem Closed.not_holds (h : Closed icomp type A B done p) {y : Cut Bytes}
    (hy : ∀ p₀, p = some p₀ → Le icomp p₀ y) : ¬ ∃ r ∈ done, r.Holds icomp y := by
  rintro ⟨r, hr, hry⟩
  obtain ⟨p₀, hp, hhi⟩ := h.below r hr
  exact Mem.not_of_le (hhi.trans (hy p₀ hp)) hry

/-- The sweep moves from `p` to `q` over cuts the partition does not keep. -/
theorem Closed.extend (h : Closed icomp type A B done p) (hpq : ∀ p₀, p = some p₀ → Le icomp p₀ q)
    (hnot : ∀ y, (∀ p₀, p = some p₀ → Le icomp p₀ y) → Lt icomp y q →
      ¬ type.Keeps (∃ r ∈ A, r.Holds icomp y) (∃ r ∈ B, r.Holds icomp y)) :
    Closed icomp type A B done (some q) where
  sorted := h.sorted
  nonempty := h.nonempty
  below r hr := by
    obtain ⟨p₀, hp, hhi⟩ := h.below r hr
    exact ⟨q, rfl, hhi.trans (hpq p₀ hp)⟩
  holds y q' hq' hyq := by
    cases hq'
    by_cases hbelow : ∃ p₀, p = some p₀ ∧ Lt icomp y p₀
    · obtain ⟨p₀, hp, hyp⟩ := hbelow
      exact h.holds y p₀ hp hyp
    · -- at or above `p`: nothing is kept, and no closed piece reaches there
      have hy : ∀ p₀, p = some p₀ → Le icomp p₀ y := fun p₀ hp =>
        le_of_not_lt fun hyp => hbelow ⟨p₀, hp, hyp⟩
      exact iff_of_false (h.not_holds hy) (hnot y hy hyq)
  dependence := h.dependence

/-- The piece from `p` to `q` is closed over cuts the partition keeps, with
their dependence. -/
theorem Closed.push (h : Closed icomp type A B done p) {p₀ : Cut Bytes} (hp : p = some p₀)
    (piece : RangeWithDepend) (hlo : piece.cut false = p₀) (hhi : piece.cut true = q)
    (hlt : Lt icomp p₀ q)
    (hkeep : ∀ y, Le icomp p₀ y → Lt icomp y q →
      type.Keeps (∃ r ∈ A, r.Holds icomp y) (∃ r ∈ B, r.Holds icomp y))
    (hdep : ∀ y, Le icomp p₀ y → Lt icomp y q →
      piece.dependence = type.dependenceOf (dependenceAt icomp A y) (dependenceAt icomp B y)) :
    Closed icomp type A B (piece :: done) (some q) where
  sorted := by
    rw [List.reverse_cons, SortedRanges, sorted_append_singleton]
    refine ⟨h.sorted, by rw [hlo, hhi]; exact hlt.le, fun b hb => ?_⟩
    obtain ⟨r, hr, rfl | rfl⟩ := mem_bounds.mp hb <;> rw [List.mem_reverse] at hr <;>
      obtain ⟨p₁, hp₁, hhi₁⟩ := h.below r hr <;> cases hp.symm.trans hp₁ <;> rw [hlo]
    · exact (h.nonempty r hr).le.trans hhi₁
    · exact hhi₁
  nonempty r hr := by
    rcases List.mem_cons.mp hr with rfl | hr
    · rw [hlo, hhi]; exact hlt
    · exact h.nonempty r hr
  below r hr := by
    rcases List.mem_cons.mp hr with rfl | hr
    · exact ⟨q, rfl, by rw [hhi]; exact Le.refl q⟩
    · obtain ⟨p₁, hp₁, hhi₁⟩ := h.below r hr
      cases hp.symm.trans hp₁
      exact ⟨q, rfl, hhi₁.trans hlt.le⟩
  holds y q' hq' hyq := by
    cases hq'
    rcases (Cut.lt_or_le y p₀ : Lt icomp y p₀ ∨ Le icomp p₀ y) with hyp | hpy
    · -- below `p`: the new piece does not reach there
      have hnot : ¬ piece.Holds icomp y := fun hm => Mem.not_of_lt (hlo ▸ hyp) hm
      rw [← h.holds y p₀ hp hyp]
      simp only [List.mem_cons, exists_eq_or_imp, hnot, false_or]
    · -- between `p` and `q`: the new piece holds it, and the partition keeps it
      exact iff_of_true ⟨piece, List.mem_cons_self, hlo ▸ hpy, hhi ▸ hyq⟩ (hkeep y hpy hyq)
  dependence y r hr hry := by
    rcases List.mem_cons.mp hr with rfl | hr
    · exact hdep y (hlo ▸ hry.1) (hhi ▸ hry.2)
    · exact h.dependence y r hr hry

end Closed

/-! ## The output as the sweep builds it -/

theorem dependOn_cut_false (type : PartitionType) (a b : Option RangeWithDepend) (back : RangeWithDepend) :
    (dependOn type a b back).cut false = back.cut false := by
  cases type <;> cases a <;> cases b <;> rfl

theorem dependOn_dependence_of_nil {type : PartitionType} {a b : Option RangeWithDepend}
    {back : RangeWithDepend} (h : back.dependence = []) :
    (dependOn type a b back).dependence = (dependOn type a b default).dependence := by
  cases type <;> cases a <;> cases b <;> simp [dependOn, h] <;> rfl

/-- `put_right` at `q` on the piece being built: the piece is dropped when it
depends on nothing or nothing lies between its bounds, and is otherwise closed
at `q` with its dependence. -/
theorem putRight_output (icomp : Comparator) {o : PartitionOutput} {piece : RangeWithDepend}
    {done : List RangeWithDepend} (h : o.output = piece :: done) (q : Cut Bytes) (s : Option (Bool × ℕ)) :
    ((piece.dependence = [] ∨ (icomp q.key (piece.cut false).key = .eq ∧
        ((piece.cut false).after = true ∨ q.after = false))) ∧
      (o.putRight icomp q.key q.after s).output = done) ∨
    (¬ (piece.dependence = [] ∨ (icomp q.key (piece.cut false).key = .eq ∧
        ((piece.cut false).after = true ∨ q.after = false))) ∧
      ∃ piece', (o.putRight icomp q.key q.after s).output = piece' :: done ∧
        piece'.cut false = piece.cut false ∧ piece'.cut true = q ∧ piece'.dependence = piece.dependence) := by
  simp only [cut_false, Bool.not_eq_true']
  unfold putRight
  rw [h]
  dsimp only
  by_cases hdrop : piece.dependence = [] ∨
      (icomp q.key piece.point0 = .eq ∧ (piece.include0 = false ∨ q.after = false))
  · refine .inl ⟨hdrop, ?_⟩
    rw [if_pos (by simpa [Bool.not_eq_true'] using hdrop)]
  · refine .inr ⟨hdrop, ?_⟩
    rw [if_neg (by simpa [Bool.not_eq_true'] using hdrop)]
    exact ⟨_, rfl, rfl, by simp, rfl⟩

/-- The output as the sweep leaves it after a round: the pieces closed, and in
front of them, when the sweep is inside a range `a` of `ranges_a` or `b` of
`ranges_b`, the piece being built, which starts at the last bound taken `p`
and depends on `a` and `b`. -/
def Building (type : PartitionType) (a b : Option RangeWithDepend) (output done : List RangeWithDepend)
    (p : Option (Cut Bytes)) : Prop :=
  if (a.isSome || b.isSome) = true then
    ∃ piece, output = piece :: done ∧ p = some (piece.cut false) ∧
      piece.dependence = (dependOn type a b default).dependence
  else output = done

/-- `put_left` and `put_depend` at `q` start the piece the sweep builds. -/
theorem building_openAt (type : PartitionType) (a b : Option RangeWithDepend) (q : Cut Bytes)
    (s : Option (Bool × ℕ)) (o : PartitionOutput) :
    Building type a b (openAt type a b q s o).output o.output (some q) := by
  unfold Building openAt
  split_ifs
  · refine ⟨_, rfl, ?_, dependOn_dependence_of_nil rfl⟩
    rw [dependOn_cut_false]
    simp
  · rfl

/-- Closing the piece being built at the next bound `q` keeps the pieces
closed right, given that the cuts from `p` up to `q` are kept or not as the
ranges `a` and `b` the sweep is inside say, with their dependence. -/
theorem Closed.closeAt [Std.TransCmp icomp] {done : List RangeWithDepend} {p : Option (Cut Bytes)}
    {q : Cut Bytes} (hclosed : Closed icomp type A B done p) {a b : Option RangeWithDepend}
    {o : PartitionOutput} (hbuild : Building type a b o.output done p)
    (ha : ∀ r ∈ a, r.dependence ≠ []) (hb : type = .kMerge → ∀ r ∈ b, r.dependence ≠ [])
    (hpq : ∀ p₀, p = some p₀ → Le icomp p₀ q)
    (hspec : ∀ y, (∀ p₀, p = some p₀ → Le icomp p₀ y) → Lt icomp y q →
      (type.Keeps (∃ r ∈ A, r.Holds icomp y) (∃ r ∈ B, r.Holds icomp y) ↔
        type.Keeps (a.isSome = true) (b.isSome = true)) ∧
      type.dependenceOf (dependenceAt icomp A y) (dependenceAt icomp B y) =
        type.dependenceOf (a.toList.flatMap (·.dependence)) (b.toList.flatMap (·.dependence)))
    (s : Option (Bool × ℕ)) :
    Closed icomp type A B (closeAt icomp (a.isSome || b.isSome) q s o).output (some q) := by
  unfold Building at hbuild
  unfold PartitionOutput.closeAt
  split_ifs at hbuild ⊢ with hopen
  · obtain ⟨piece, hout, hp, hdep⟩ := hbuild
    -- from `p` the sweep is in `piece`
    have hfrom : ∀ y, Le icomp (piece.cut false) y → ∀ p₀, p = some p₀ → Le icomp p₀ y := by
      intro y hy p₀ h
      cases hp.symm.trans h
      exact hy
    rcases putRight_output icomp hout q s with
      ⟨hdrop, hres⟩ | ⟨hkeep, piece', hres, hlo, hhi, hdep'⟩
    · -- the piece is dropped: nothing in it is kept
      rw [hres]
      refine hclosed.extend hpq fun y hpy hyq hkeeps => ?_
      rcases hdrop with hnil | hdeg
      · rw [hdep, dependOn_dependence_eq_nil_iff ha hb] at hnil
        exact hnil ((hspec y hpy hyq).1.mp hkeeps)
      · have hle := hpy _ hp
        exact (lt_iff_not_degenerate (hle.trans hyq.le)).mp (hle.trans_lt hyq) hdeg
    · -- the piece is closed at `q`, and everything in it is kept
      rw [hres]
      have hkeeps : type.Keeps (a.isSome = true) (b.isSome = true) := by
        have hne : piece.dependence ≠ [] := fun h => hkeep (.inl h)
        rwa [hdep, Ne, dependOn_dependence_eq_nil_iff ha hb, not_not] at hne
      refine hclosed.push hp piece' hlo hhi ?_ (fun y hpy hyq => ?_) fun y hpy hyq => ?_
      · exact (lt_iff_not_degenerate (hpq _ hp)).mpr fun hdeg => hkeep (.inr hdeg)
      · exact (hspec y (hfrom y hpy) hyq).1.mpr hkeeps
      · rw [hdep', hdep, dependOn_dependence, if_pos hkeeps, (hspec y (hfrom y hpy) hyq).2]
  · -- no piece is being built: the sweep is outside both lists up to `q`
    rw [hbuild]
    refine hclosed.extend hpq fun y hpy hyq hkeeps => ?_
    have hout := (hspec y hpy hyq).1.mp hkeeps
    simp only [Bool.or_eq_true, not_or, Bool.not_eq_true] at hopen
    cases type <;> simp_all [PartitionType.Keeps]

/-! ## The invariant of the sweep -/

section Invariant

variable (icomp type A B)

/-- The sweep after some rounds, at the range `ai` of `ranges_a` (inside it
when `ab`) and `bi` of `ranges_b`, with `p` the last bound taken: the bounds
taken are at most `p`, those left at least `p`, and the output is the pieces
closed with the one being built in front. -/
structure SweepInv (ai : ℕ) (ab : Bool) (bi : ℕ) (bb : Bool) (o : PartitionOutput)
    (p : Option (Cut Bytes)) : Prop where
  countA : takenCount ai ab ≤ 2 * A.length
  countB : takenCount bi bb ≤ 2 * B.length
  takenA : ∀ c ∈ (cutBounds A).take (takenCount ai ab), ∃ p₀, p = some p₀ ∧ Le icomp c p₀
  takenB : ∀ c ∈ (cutBounds B).take (takenCount bi bb), ∃ p₀, p = some p₀ ∧ Le icomp c p₀
  leftA : ∀ p₀, p = some p₀ → ∀ c ∈ (cutBounds A).drop (takenCount ai ab), Le icomp p₀ c
  leftB : ∀ p₀, p = some p₀ → ∀ c ∈ (cutBounds B).drop (takenCount bi bb), Le icomp p₀ c
  output : ∃ done, Closed icomp type A B done p ∧
    Building type (if ab then A[ai]? else none) (if bb then B[bi]? else none) o.output done p

end Invariant

/-- Before the first round nothing is taken and nothing is output. -/
theorem SweepInv.start : SweepInv icomp type A B 0 false 0 false ⟨[], none⟩ none where
  countA := by simp [takenCount]
  countB := by simp [takenCount]
  takenA := by simp [takenCount]
  takenB := by simp [takenCount]
  leftA := by simp
  leftB := by simp
  output := ⟨[], Closed.nil, by simp [Building]⟩

/-! ## One round keeps the invariant -/

theorem le_of_then_ne_gt {icomp : Comparator} {x y : Cut Bytes} {o : Ordering}
    (h : (compareBy icomp x y).then o ≠ .gt) : Le icomp x y := by
  unfold Le
  cases hxy : compareBy icomp x y <;> simp_all

theorem le_of_then_ne_lt {icomp : Comparator} [Std.TransCmp icomp] {x y : Cut Bytes} {o : Ordering}
    (h : (compareBy icomp x y).then o ≠ .lt) : Le icomp y x := by
  unfold Le
  rw [← Std.OrientedCmp.isGE_iff_isLE]
  cases hxy : compareBy icomp x y <;> simp_all

/-- The bound a round takes is at most the next bound of each list, and it is
the next bound of each list it takes one of. -/
theorem takenCut_spec {icomp : Comparator} [Std.TransCmp icomp] {ra rb : Option RangeWithDepend}
    {ab bb : Bool} {c : Ordering} (hc : partitionCompare icomp ra rb ab bb = c) {q : Cut Bytes}
    (hq : takenCut ra rb ab bb (c != .gt) = some q) :
    (∀ a, ra = some a → Le icomp q (a.cut ab) ∧ ((c != .gt) = true → a.cut ab = q)) ∧
      (∀ b, rb = some b → Le icomp q (b.cut bb) ∧ ((c != .lt) = true → Le icomp (b.cut bb) q)) := by
  unfold takenCut at hq
  match ra, rb with
  | some a, some b =>
      rw [partitionCompare_some] at hc
      subst hc
      by_cases hgt : ((compareBy icomp (a.cut ab) (b.cut bb)).then (compare ab bb) != .gt) = true
      · -- the bound of `a`, and that of `b` too when they are at one cut
        rw [if_pos hgt, Option.map_some, Option.some.injEq] at hq
        subst hq
        refine ⟨fun a' ha' => ?_, fun b' hb' => ?_⟩
        · cases ha'
          exact ⟨Le.refl _, fun _ => rfl⟩
        · cases hb'
          exact ⟨le_of_then_ne_gt (bne_iff_ne.mp hgt), fun hlt => le_of_then_ne_lt (bne_iff_ne.mp hlt)⟩
      · -- the bound of `b` alone
        rw [if_neg hgt, Option.map_some, Option.some.injEq] at hq
        subst hq
        have hne : (compareBy icomp (a.cut ab) (b.cut bb)).then (compare ab bb) ≠ .lt := by
          rw [bne_iff_ne, not_not] at hgt
          simp [hgt]
        refine ⟨fun a' ha' => ?_, fun b' hb' => ?_⟩
        · cases ha'
          exact ⟨le_of_then_ne_lt hne, fun h => absurd h hgt⟩
        · cases hb'
          exact ⟨Le.refl _, fun _ => Le.refl _⟩
  | some a, none =>
      simp only [partitionCompare] at hc
      subst hc
      simp only [reduceCtorEq, bne_iff_ne, ne_eq, not_false_eq_true, if_true, Option.map_some,
        Option.some.injEq] at hq
      subst hq
      refine ⟨fun a' ha' => ?_, fun b' hb' => (by cases hb')⟩
      cases ha'
      exact ⟨Le.refl _, fun _ => rfl⟩
  | none, rb =>
      simp only [partitionCompare] at hc
      subst hc
      simp only [bne_self_eq_false, Bool.false_eq_true, if_false] at hq
      refine ⟨fun a' ha' => (by cases ha'), fun b' hb' => ?_⟩
      subst hb'
      simp only [Option.map_some, Option.some.injEq] at hq
      subst hq
      exact ⟨Le.refl _, fun _ => Le.refl _⟩

theorem isSome_of_inside {l : List RangeWithDepend} {i : ℕ} (h : takenCount i true ≤ 2 * l.length) :
    l[i]?.isSome :=
  isSome_of_takenCount (show takenCount i false < 2 * l.length by simp [takenCount] at h ⊢; omega)

/-- The range the sweep is inside, if any, is there when it is inside one. -/
theorem isSome_inside {l : List RangeWithDepend} {i : ℕ} {inside : Bool}
    (h : inside = true → l[i]?.isSome) : (if inside then l[i]? else none).isSome = inside := by
  cases inside
  · rfl
  · simpa using h rfl

theorem mem_of_mem_inside {l : List RangeWithDepend} {i : ℕ} {inside : Bool} {r : RangeWithDepend}
    (h : r ∈ (if inside then l[i]? else none)) : r ∈ l := by
  cases inside
  · cases h
  · exact List.mem_of_getElem? h

/-- The range the sweep is inside after a round is the one it was at. -/
theorem inside_after_round (l : List RangeWithDepend) (i : ℕ) (inside taken : Bool) :
    (if inside != taken then l[if inside && taken then i + 1 else i]? else none) =
      if inside != taken then l[i]? else none := by
  cases inside <;> cases taken <;> rfl

/-- The bounds a round has taken of a list are all it had taken, and the next
one if it takes it. -/
theorem takenCount_add_le {l : List RangeWithDepend} {i : ℕ} {inside taken : Bool}
    (hk : takenCount i inside ≤ 2 * l.length) (h : taken = true → l[i]?.isSome) :
    takenCount i inside + taken.toNat ≤ 2 * l.length := by
  cases taken
  · simpa using hk
  · have hi : i < l.length := by simpa using h rfl
    cases inside <;> simp [takenCount] <;> omega

/-- The bounds left of a list are at least any cut at most the next one. -/
theorem le_left {icomp : Comparator} [Std.TransCmp icomp] {l : List RangeWithDepend}
    (hs : SortedRanges icomp l) {i : ℕ} {inside : Bool} {q : Cut Bytes}
    (hq : ∀ r, l[i]? = some r → Le icomp q (r.cut inside)) :
    ∀ x ∈ (cutBounds l).drop (takenCount i inside), Le icomp q x := by
  have hnext := cutBounds_getElem?_takenCount l i inside
  cases hr : l[i]? with
  | none =>
      rw [hr, Option.map_none, List.getElem?_eq_none_iff] at hnext
      simp [List.drop_eq_nil_of_le hnext]
  | some r =>
      rw [hr, Option.map_some] at hnext
      exact fun x hx => (hq r hr).trans (hs.head_le hnext x hx)

/-- After a round, every bound taken of a list is at most the bound `q` it
took: those taken before were, and so is the one it takes now. -/
theorem taken_le {icomp : Comparator} [Std.TransCmp icomp] {bs : List (Cut Bytes)} {k : ℕ}
    {taken : Bool} {q : Cut Bytes} (hold : ∀ x ∈ bs.take k, Le icomp x q)
    (hnew : taken = true → ∀ x, bs[k]? = some x → Le icomp x q) :
    ∀ x ∈ bs.take (k + taken.toNat), Le icomp x q := by
  cases taken
  · simpa using hold
  · intro x hx
    rw [Bool.toNat_true, List.take_add_one, List.mem_append] at hx
    rcases hx with hx | hx
    · exact hold x hx
    · exact hnew rfl x (Option.mem_toList.mp hx)

theorem exists_holds_iff_of_filter {icomp : Comparator} {l : List RangeWithDepend} {y : Cut Bytes}
    {a : Option RangeWithDepend} (h : l.filter (fun r => decide (r.Holds icomp y)) = a.toList) :
    (∃ r ∈ l, r.Holds icomp y) ↔ a.isSome = true := by
  constructor
  · rintro ⟨r, hr, hy⟩
    have hmem : r ∈ a.toList := h ▸ List.mem_filter.mpr ⟨hr, by simpa using hy⟩
    cases a <;> simp_all
  · intro ha
    obtain ⟨r, rfl⟩ := Option.isSome_iff_exists.mp ha
    have hmem : r ∈ l.filter (fun r => decide (r.Holds icomp y)) := by simp [h]
    obtain ⟨hr, hy⟩ := List.mem_filter.mp hmem
    exact ⟨r, hr, by simpa using hy⟩

theorem isSome_of_ne_gt {icomp : Comparator} {ra rb : Option RangeWithDepend} {ab bb : Bool}
    (h : (partitionCompare icomp ra rb ab bb != .gt) = true) : ra.isSome := by
  cases ra
  · simp [partitionCompare] at h
  · rfl

theorem isSome_of_ne_lt {icomp : Comparator} {ra rb : Option RangeWithDepend} {ab bb : Bool}
    (h : (partitionCompare icomp ra rb ab bb != .lt) = true) (hnext : ra.isSome ∨ rb.isSome) :
    rb.isSome := by
  cases rb
  · cases ra
    · simp at hnext
    · simp [partitionCompare] at h
  · rfl

/-- One round of the sweep keeps its invariant, with the bound it takes as the
new position. -/
theorem SweepInv.step [Std.TransCmp icomp] (hsA : SortedRanges icomp A) (hsB : SortedRanges icomp B)
    (hdA : ∀ r ∈ A, r.dependence ≠ []) (hdB : type = .kMerge → ∀ r ∈ B, r.dependence ≠ [])
    {ai bi : ℕ} {ab bb : Bool} {o : PartitionOutput} {p : Option (Cut Bytes)}
    (hinv : SweepInv icomp type A B ai ab bi bb o p)
    (hnext : takenCount ai ab < 2 * A.length ∨ takenCount bi bb < 2 * B.length)
    {c : Ordering} (hc : partitionCompare icomp A[ai]? B[bi]? ab bb = c) :
    ∃ q o', partitionStep icomp type ai bi A[ai]? B[bi]? ab bb (c != .gt) (c != .lt) o = some o' ∧
      SweepInv icomp type A B (if ab && (c != .gt) then ai + 1 else ai) (ab != (c != .gt))
        (if bb && (c != .lt) then bi + 1 else bi) (bb != (c != .lt)) o' (some q) := by
  obtain ⟨hcA, hcB, htA, htB, hlA, hlB, done, hclosed, hbuild⟩ := hinv
  -- the ranges the round reads are there when it reads them
  have hra : ab = true → A[ai]?.isSome := fun h => isSome_of_inside (h ▸ hcA)
  have hrb : bb = true → B[bi]?.isSome := fun h => isSome_of_inside (h ▸ hcB)
  have hnext' : A[ai]?.isSome ∨ B[bi]?.isSome := hnext.imp isSome_of_takenCount isSome_of_takenCount
  obtain ⟨q, s₁, s₂, hq, hstep⟩ := partitionStep_eq icomp type ai bi o hra hrb hnext' hc
  obtain ⟨hqA, hqB⟩ := takenCut_spec hc hq
  refine ⟨q, _, hstep, ?_⟩
  -- `q` is at most every bound left, and at least every bound taken
  have hleftA := le_left hsA fun a ha => (hqA a ha).1
  have hleftB := le_left hsB fun b hb => (hqB b hb).1
  have hpq : ∀ p₀, p = some p₀ → Le icomp p₀ q := by
    intro p₀ hp
    unfold takenCut at hq
    split at hq
    · rw [← cutBounds_getElem?_takenCount] at hq
      exact hlA p₀ hp q (mem_drop_of_getElem? hq)
    · rw [← cutBounds_getElem?_takenCount] at hq
      exact hlB p₀ hp q (mem_drop_of_getElem? hq)
  have hbefore : ∀ (bs : List (Cut Bytes)) (k : ℕ), (∀ x ∈ bs.take k, ∃ p₀, p = some p₀ ∧ Le icomp x p₀) →
      ∀ x ∈ bs.take k, Le icomp x q := fun bs k h x hx =>
    let ⟨p₀, hp, hx⟩ := h x hx
    hx.trans (hpq p₀ hp)
  -- every cut from `p` up to `q` is inside the ranges the sweep is inside
  have hfilter : ∀ y, (∀ p₀, p = some p₀ → Le icomp p₀ y) → Lt icomp y q →
      A.filter (fun r => decide (r.Holds icomp y)) = (if ab then A[ai]? else none).toList ∧
        B.filter (fun r => decide (r.Holds icomp y)) = (if bb then B[bi]? else none).toList := by
    intro y hpy hyq
    have hle : ∀ (bs : List (Cut Bytes)) (k : ℕ), (∀ x ∈ bs.take k, ∃ p₀, p = some p₀ ∧ Le icomp x p₀) →
        ∀ x ∈ bs.take k, Le icomp x y := fun bs k h x hx =>
      let ⟨p₀, hp, hx⟩ := h x hx
      hx.trans (hpy p₀ hp)
    exact ⟨filter_holds_between hcA (hle _ _ htA) fun x hx => hyq.trans_le (hleftA x hx),
      filter_holds_between hcB (hle _ _ htB) fun x hx => hyq.trans_le (hleftB x hx)⟩
  have hac : (c != .gt) = true → A[ai]?.isSome := fun h => isSome_of_ne_gt (by rwa [hc])
  have hbc : (c != .lt) = true → B[bi]?.isSome := fun h => isSome_of_ne_lt (by rwa [hc]) hnext'
  refine ⟨?_, ?_, ?_, ?_, ?_, ?_, (closeAt icomp (ab || bb) q s₁ o).output, ?_, ?_⟩
  · rw [takenCount_advance]
    exact takenCount_add_le hcA hac
  · rw [takenCount_advance]
    exact takenCount_add_le hcB hbc
  · rw [takenCount_advance]
    refine fun x hx => ⟨q, rfl, taken_le (hbefore _ _ htA) (fun ht x hx => ?_) x hx⟩
    -- the bound of `a` taken now is `q`
    rw [cutBounds_getElem?_takenCount, Option.map_eq_some_iff] at hx
    obtain ⟨a, ha, rfl⟩ := hx
    rw [(hqA a ha).2 ht]
    exact Le.refl q
  · rw [takenCount_advance]
    refine fun x hx => ⟨q, rfl, taken_le (hbefore _ _ htB) (fun ht x hx => ?_) x hx⟩
    -- the bound of `b` taken now is at `q`
    rw [cutBounds_getElem?_takenCount, Option.map_eq_some_iff] at hx
    obtain ⟨b, hb, rfl⟩ := hx
    exact (hqB b hb).2 ht
  · rw [takenCount_advance]
    rintro p₀ ⟨⟩ x hx
    exact hleftA x ((List.drop_sublist_drop_left _ (Nat.le_add_right _ _)).subset hx)
  · rw [takenCount_advance]
    rintro p₀ ⟨⟩ x hx
    exact hleftB x ((List.drop_sublist_drop_left _ (Nat.le_add_right _ _)).subset hx)
  · -- the piece being built is closed at `q`
    rw [← isSome_inside hra, ← isSome_inside hrb]
    refine hclosed.closeAt hbuild (fun r hr => hdA r (mem_of_mem_inside hr))
      (fun ht r hr => hdB ht r (mem_of_mem_inside hr)) hpq (fun y hpy hyq => ?_) s₁
    obtain ⟨hfA, hfB⟩ := hfilter y hpy hyq
    rw [exists_holds_iff_of_filter hfA, exists_holds_iff_of_filter hfB, dependenceAt, dependenceAt,
      hfA, hfB]
    exact ⟨Iff.rfl, rfl⟩
  · -- and the next one is started there
    rw [inside_after_round, inside_after_round]
    exact building_openAt type _ _ q s₂ _

/-! ## The whole sweep -/

/-- Every round takes at least one bound: `ac` or `bc` holds. -/
theorem one_le_taken (c : Ordering) : 1 ≤ (c != .gt).toNat + (c != .lt).toNat := by
  cases c <;> decide

/-- A list the sweep has not passed the end of has a bound left. -/
theorem takenCount_lt_of_ne {n i : ℕ} {inside : Bool} (hk : takenCount i inside ≤ 2 * n) (h : i ≠ n) :
    takenCount i inside < 2 * n := by
  cases inside <;> simp [takenCount] at hk ⊢ <;> omega

/-- At the end of a list the sweep is inside none of its ranges. -/
theorem inside_eq_false {n : ℕ} {inside : Bool} (hk : takenCount n inside ≤ 2 * n) : inside = false := by
  cases inside
  · rfl
  · simp [takenCount] at hk

/-- Past the last range of both lists every bound is taken, and the output is
the pieces closed. -/
theorem SweepInv.finish {ab bb : Bool} {o : PartitionOutput} {q : Cut Bytes}
    (hinv : SweepInv icomp type A B A.length ab B.length bb o (some q)) :
    Closed icomp type A B o.output (some q) ∧ ∀ x ∈ cutBounds A ++ cutBounds B, Le icomp x q := by
  obtain ⟨hcA, hcB, htA, htB, -, -, done, hclosed, hbuild⟩ := hinv
  cases inside_eq_false hcA
  cases inside_eq_false hcB
  have hall : ∀ l : List RangeWithDepend, (cutBounds l).take (takenCount l.length false) = cutBounds l :=
    fun l => List.take_of_length_le (by simp [takenCount])
  rw [hall] at htA htB
  refine ⟨by simpa [Building] using hbuild ▸ hclosed, fun x hx => ?_⟩
  obtain ⟨p₀, hp, hx⟩ := (List.mem_append.mp hx).elim (htA x) (htB x)
  cases hp
  exact hx

/-- One round of the loop, with the fuel to make it: the step, and then the
next round unless the sweep is past the last range of both lists. -/
theorem partitionLoop_succ {fuel ai bi ai' bi' : ℕ} {ab bb : Bool} {o o' : PartitionOutput} {c : Ordering}
    (hc : partitionCompare icomp A[ai]? B[bi]? ab bb = c)
    (hstep : partitionStep icomp type ai bi A[ai]? B[bi]? ab bb (c != .gt) (c != .lt) o = some o')
    (hai : (if ab && (c != .gt) then ai + 1 else ai) = ai')
    (hbi : (if bb && (c != .lt) then bi + 1 else bi) = bi') :
    partitionLoop icomp type A B (fuel + 1) ai ab bi bb o =
      if ai' ≠ A.length ∨ bi' ≠ B.length then
        partitionLoop icomp type A B fuel ai' (ab != (c != .gt)) bi' (bb != (c != .lt)) o'
      else some o'.output.reverse := by
  subst hc hai hbi
  simp only [partitionLoop, hstep]

/-- The rounds left keep the invariant to the end, where every bound of both
lists is taken and the output is the pieces closed, first first.  By induction
on the fuel, which is at least the number of bounds left. -/
theorem SweepInv.run [Std.TransCmp icomp] (hsA : SortedRanges icomp A) (hsB : SortedRanges icomp B)
    (hdA : ∀ r ∈ A, r.dependence ≠ []) (hdB : type = .kMerge → ∀ r ∈ B, r.dependence ≠ []) :
    ∀ (fuel ai : ℕ) (ab : Bool) (bi : ℕ) (bb : Bool) (o : PartitionOutput) (p : Option (Cut Bytes)),
      SweepInv icomp type A B ai ab bi bb o p →
      (takenCount ai ab < 2 * A.length ∨ takenCount bi bb < 2 * B.length) →
      2 * A.length + 2 * B.length ≤ takenCount ai ab + takenCount bi bb + fuel →
      ∃ done q, partitionLoop icomp type A B fuel ai ab bi bb o = some done.reverse ∧
        Closed icomp type A B done (some q) ∧ ∀ x ∈ cutBounds A ++ cutBounds B, Le icomp x q := by
  intro fuel
  induction fuel with
  | zero =>
      intro ai ab bi bb o p hinv hnext hfuel
      have := hinv.countA
      have := hinv.countB
      omega
  | succ fuel ih =>
      intro ai ab bi bb o p hinv hnext hfuel
      generalize hc : partitionCompare icomp A[ai]? B[bi]? ab bb = c
      obtain ⟨q, o', hstep, hinv'⟩ := hinv.step hsA hsB hdA hdB hnext hc
      generalize hai : (if ab && (c != .gt) then ai + 1 else ai) = ai' at hinv'
      generalize hbi : (if bb && (c != .lt) then bi + 1 else bi) = bi' at hinv'
      have hcount : takenCount ai ab + takenCount bi bb + 1 ≤ takenCount ai' (ab != (c != .gt)) +
          takenCount bi' (bb != (c != .lt)) := by
        have := one_le_taken c
        rw [← hai, ← hbi, takenCount_advance, takenCount_advance]
        omega
      rw [partitionLoop_succ hc hstep hai hbi]
      split_ifs with hmore
      · -- a bound is left: the next round starts from the new position
        refine ih _ _ _ _ _ _ hinv' ?_ (by omega)
        exact hmore.imp (takenCount_lt_of_ne hinv'.countA) (takenCount_lt_of_ne hinv'.countB)
      · -- the sweep is past the last range of both lists
        obtain ⟨hai', hbi'⟩ := not_or.mp hmore
        rw [not_not] at hai' hbi'
        rw [hai', hbi'] at hinv'
        obtain ⟨hclosed, hall⟩ := hinv'.finish
        exact ⟨_, q, by rw [List.reverse_reverse], by rwa [List.reverse_reverse], hall⟩

/-- With every bound at most `q`, the pieces closed at `q` hold exactly the
cuts the partition keeps: above `q` neither they nor any range of the lists
holds one. -/
theorem Closed.holds_iff [Std.TransCmp icomp] {done : List RangeWithDepend} {q : Cut Bytes}
    (h : Closed icomp type A B done (some q)) (hall : ∀ x ∈ cutBounds A ++ cutBounds B, Le icomp x q)
    (y : Cut Bytes) :
    (∃ r ∈ done, r.Holds icomp y) ↔ type.Keeps (∃ r ∈ A, r.Holds icomp y) (∃ r ∈ B, r.Holds icomp y) := by
  rcases (Cut.lt_or_le y q : Lt icomp y q ∨ Le icomp q y) with hyq | hqy
  · exact h.holds y q rfl hyq
  · -- no range of either list reaches past `q`
    have hnone : ∀ l, (∀ x ∈ cutBounds l, Le icomp x q) → ¬ ∃ r ∈ l, r.Holds icomp y :=
      fun l hl ⟨r, hr, hry⟩ => Mem.not_of_le ((hl _ (mem_bounds_of_mem hr).2).trans hqy) hry
    have hA := hnone A fun x hx => hall x (List.mem_append_left _ hx)
    have hB := hnone B fun x hx => hall x (List.mem_append_right _ hx)
    refine iff_of_false (h.not_holds fun p₀ hp => ?_) ?_
    · cases hp
      exact hqy
    · cases type <;> simp [PartitionType.Keeps, hA, hB]

/-- `PartitionRangeWithDepend` on two lists of ranges, each in order, pairwise
disjoint and bounded the right way round, not both empty, and with a
dependence on every range of `ranges_a` (and, for `kMerge`, of `ranges_b`):
it returns a list of ranges in order, pairwise disjoint and each with something
between its bounds, which holds a key exactly when the partition keeps it, and
gives it the dependence of the ranges of the two lists that hold it. -/
theorem PartitionRangeWithDepend_partitions [Std.TransCmp icomp] (hne : A ≠ [] ∨ B ≠ [])
    (hsA : SortedRanges icomp A) (hsB : SortedRanges icomp B)
    (hdA : ∀ r ∈ A, r.dependence ≠ []) (hdB : type = .kMerge → ∀ r ∈ B, r.dependence ≠ []) :
    ∃ out, PartitionRangeWithDepend A B icomp type = some out ∧
      SortedRanges icomp out ∧ (∀ r ∈ out, Lt icomp (r.cut false) (r.cut true)) ∧
      ∀ x : Bytes,
        ((∃ r ∈ out, r.Covers icomp x) ↔
          type.Keeps (∃ r ∈ A, r.Covers icomp x) (∃ r ∈ B, r.Covers icomp x)) ∧
        ∀ r ∈ out, r.Covers icomp x →
          r.dependence = type.dependenceOf (dependenceAt icomp A (before x)) (dependenceAt icomp B (before x)) := by
  have hnext : takenCount 0 false < 2 * A.length ∨ takenCount 0 false < 2 * B.length := by
    simp only [takenCount, Bool.toNat_false, Nat.mul_zero, Nat.add_zero, Nat.ofNat_pos,
      Nat.mul_pos_iff_of_pos_left, List.length_pos_iff]
    exact hne
  obtain ⟨done, q, hrun, hclosed, hall⟩ :=
    SweepInv.run hsA hsB hdA hdB (2 * (A.length + B.length)) 0 false 0 false ⟨[], none⟩ none
      SweepInv.start hnext (by simp [takenCount, Nat.mul_add])
  refine ⟨done.reverse, hrun, hclosed.sorted, fun r hr => hclosed.nonempty r (List.mem_reverse.mp hr),
    fun x => ⟨?_, fun r hr hx => hclosed.dependence _ r (List.mem_reverse.mp hr) (covers_iff_holds.mp hx)⟩⟩
  simp only [covers_iff_holds, List.mem_reverse]
  exact hclosed.holds_iff hall (before x)

/-- Two ranges `[a, c]` and `[b, d]` merged: the pieces are `[a, b)`, `[b, c]`
and `(c, d]`. -/
theorem partition_merge_two_ranges :
    ∃ out, PartitionRangeWithDepend
        [⟨[97], [99], true, true, false, false, false, [⟨1, 10⟩]⟩]
        [⟨[98], [100], true, true, false, false, false, [⟨2, 20⟩]⟩] bytewiseCompare .kMerge = some out ∧
      SortedRanges bytewiseCompare out ∧ (∀ r ∈ out, Lt bytewiseCompare (r.cut false) (r.cut true)) ∧
      ∀ x : Bytes,
        ((∃ r ∈ out, r.Covers bytewiseCompare x) ↔
          PartitionType.kMerge.Keeps
            (∃ r ∈ [(⟨[97], [99], true, true, false, false, false, [⟨1, 10⟩]⟩ : RangeWithDepend)],
              r.Covers bytewiseCompare x)
            (∃ r ∈ [(⟨[98], [100], true, true, false, false, false, [⟨2, 20⟩]⟩ : RangeWithDepend)],
              r.Covers bytewiseCompare x)) ∧
        ∀ r ∈ out, r.Covers bytewiseCompare x →
          r.dependence = PartitionType.kMerge.dependenceOf
            (dependenceAt bytewiseCompare [⟨[97], [99], true, true, false, false, false, [⟨1, 10⟩]⟩] (before x))
            (dependenceAt bytewiseCompare [⟨[98], [100], true, true, false, false, false, [⟨2, 20⟩]⟩]
              (before x)) :=
  PartitionRangeWithDepend_partitions (.inl (by simp)) (by decide) (by decide) (by simp) (fun _ => by simp)

/-- With both lists empty the first round reads `ranges_b[0]`, past the end of
`ranges_b`. -/
theorem partition_of_empty_lists_reads_past_end :
    PartitionRangeWithDepend [] [] bytewiseCompare .kMerge = none := rfl

end HapDB
