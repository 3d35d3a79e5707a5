import HapDB.Db.FileMap

/-!
# `db/map_builder.cc`: partitioning two lists of ranges

`PartitionRangeWithDepend(ranges_a, ranges_b, icomp, type)` sweeps two sorted
lists of disjoint ranges at once, bound by bound.  It keeps, for each list, the
index of the range it is at and whether it is inside it (`ab`, `bb`); in each
round it compares the two next bounds (`CompInclude` breaks ties between a
closed and an open bound at one key) and takes the smaller one, or both when
they coincide.  Every bound it takes ends the piece of output being built and
starts a new one, whose dependence `put_depend` sets from the ranges it is
inside now: for `kMerge` those of both lists, for `kDelete` those of `a`
outside `b`, for `kExtract` those of `a` inside `b`.  `put_right` drops a piece
with no dependence or with nothing between its bounds.

```text
ab bb ac bc   round                                   put
0  0  1  0    enter a                                 left, depend(a, -)
1  0  1  0    leave a                                 right
0  0  0  1    enter b                                 left, depend(-, b)
0  1  0  1    leave b                                 right
1  0  0  1    inside a, enter b                       right, left, depend(a, b)
1  1  0  1    inside both, leave b                    right, left, depend(a, -)
0  1  1  0    inside b, enter a                       right, left, depend(a, b)
1  1  1  0    inside both, leave a                    right, left, depend(-, b)
0  0  1  1    enter both                              left, depend(a, b)
1  1  1  1    leave both                              right
```

The vectors are lists indexed as the source indexes them; `output` is kept
last element first, and the pointers `source` and `r` of `put_left` and
`put_right` are the list (`true` for `ranges_a`) and index of the range they
point to.  A read of `ranges_a[ai]` past the end makes the result `none`, and
the loop is given one round per bound; the asserts are left out.
-/

namespace HapDB

/-- `MapSstElement::LinkTarget`: a file a map element links to, and its size. -/
structure MapSstElement.LinkTarget where
  fileNumber : UInt64
  size : UInt64
  deriving DecidableEq, Repr

/-- `RangeWithDepend`: the internal keys from `point[0]` to `point[1]`, each end
in the range when its `include` flag is set, and the files they depend on.
`default` is the value-initialized range that `output.emplace_back()` adds:
empty points, every flag clear, no dependence. -/
structure RangeWithDepend where
  point0 : Bytes
  point1 : Bytes
  include0 : Bool
  include1 : Bool
  hasDeleteRange : Bool
  markedForCompaction : Bool
  stable : Bool
  dependence : List MapSstElement.LinkTarget
  deriving DecidableEq, Repr, Inhabited

namespace RangeWithDepend

/-- `point[i]`, with `i` read as `0` for `false`. -/
def point (r : RangeWithDepend) (i : Bool) : Bytes := if i then r.point1 else r.point0

/-- `include[i]` (`include` is a keyword here), with `i` read as `0` for `false`. -/
def includes (r : RangeWithDepend) (i : Bool) : Bool := if i then r.include1 else r.include0

end RangeWithDepend

/-- `CompInclude(c, ab, ai, bb, bi)`: the comparison `c` of a bound of `a` and a
bound of `b`, where `ab` and `bb` say which bound (`1` for the right one) and
`ai`, `bi` whether it is included; at one key, the order of the two bounds. -/
def CompInclude (c : Ordering) (ab ai bb bi : Bool) : Ordering :=
  if c ≠ .eq then c
  else
    match ab, ai, bb, bi with
    -- a: [   [   (   )   )   [
    -- b: (   )   ]   ]   (   ]
    | false, true, false, false | false, true, true, false | false, false, true, true
    | true, false, true, true | true, false, false, false | false, true, true, true => .lt
    -- a: (   )   ]   ]   (   ]
    -- b: [   [   (   )   )   [
    | false, false, false, true | true, false, false, true | true, true, false, false
    | true, true, true, false | false, false, true, false | true, true, false, true => .gt
    -- a: [   ]   (   )
    -- b: [   ]   (   )
    | _, _, _, _ => .eq

/-- `PartitionType`. -/
inductive PartitionType where
  | kMerge
  | kDelete
  | kExtract
  deriving DecidableEq, Repr

/-- The fields `put_depend(a, b)` sets on the range being built, `a` and `b`
being the ranges of each list the sweep is inside (`none` for `nullptr`). -/
def dependOn (type : PartitionType) (a b : Option RangeWithDepend) (back : RangeWithDepend) :
    RangeWithDepend :=
  match type, a, b with
  | .kMerge, some a, some b =>
      { back with
        dependence := a.dependence ++ b.dependence, stable := false,
        hasDeleteRange := a.hasDeleteRange || b.hasDeleteRange,
        markedForCompaction := a.markedForCompaction || b.markedForCompaction }
  | .kMerge, some a, none =>
      { back with
        dependence := a.dependence, hasDeleteRange := a.hasDeleteRange,
        markedForCompaction := a.markedForCompaction, stable := a.stable }
  | .kMerge, none, some b =>
      { back with
        dependence := b.dependence, hasDeleteRange := b.hasDeleteRange,
        markedForCompaction := b.markedForCompaction, stable := b.stable }
  | .kDelete, some a, none =>
      { back with
        dependence := a.dependence, hasDeleteRange := a.hasDeleteRange,
        markedForCompaction := a.markedForCompaction, stable := a.stable }
  | .kExtract, some a, some _ =>
      { back with
        dependence := a.dependence, hasDeleteRange := a.hasDeleteRange,
        markedForCompaction := a.markedForCompaction, stable := a.stable }
  -- `kDelete` inside `b`, `kExtract` outside one of them: nothing is set
  | _, _, _ => back

/-- What the lambdas of the sweep share: `output`, last element first, and
`source`, the range the piece being built was started at. -/
structure PartitionOutput where
  output : List RangeWithDepend
  source : Option (Bool × ℕ)

namespace PartitionOutput

/-- `put_left(key, include, r)`: a new piece starting at `key`. -/
def putLeft (o : PartitionOutput) (key : Bytes) (incl : Bool) (r : Option (Bool × ℕ)) :
    PartitionOutput :=
  { output := { (default : RangeWithDepend) with point0 := key, include0 := incl } :: o.output
    source := r }

/-- `put_right(key, include, r)`: the piece being built ends at `key`; it is
dropped when it depends on nothing or has nothing between its bounds, and it
stays stable only when it started and ends at the same range. -/
def putRight (icomp : Comparator) (o : PartitionOutput) (key : Bytes) (incl : Bool)
    (r : Option (Bool × ℕ)) : PartitionOutput :=
  match o.output with
  -- not reached: a piece is open whenever the sweep is inside a range
  | [] => o
  | back :: rest =>
      if back.dependence.isEmpty ∨ (icomp key back.point0 = .eq ∧ (!back.include0 ∨ !incl)) then
        { o with output := rest }
      else
        { o with
          output :=
            { back with
              point1 := key, include1 := incl,
              stable := if o.source.isNone ∨ r.isNone ∨ o.source ≠ r then false else back.stable } ::
              rest }

/-- `put_depend(a, b)` on the piece being built. -/
def putDepend (type : PartitionType) (o : PartitionOutput) (a b : Option RangeWithDepend) :
    PartitionOutput :=
  match o.output with
  | [] => o
  | back :: rest => { o with output := dependOn type a b back :: rest }

end PartitionOutput

open PartitionOutput

/-- One round of `switch (CASE(ab, bb, ac, bc))`, at `ranges_a[ai]` (`ra`) and
`ranges_b[bi]` (`rb`), each `none` past the end of its list. -/
def partitionStep (icomp : Comparator) (type : PartitionType) (ai bi : ℕ)
    (ra rb : Option RangeWithDepend) (ab bb ac bc : Bool) (o : PartitionOutput) :
    Option PartitionOutput :=
  match ab, bb, ac, bc with
  -- out ranges_a , out ranges_b , enter ranges_a
  | false, false, true, false => ra.map fun a =>
      (o.putLeft (a.point ab) (a.includes ab) (some (true, ai))).putDepend type (some a) none
  -- in ranges_a , out ranges_b , leave ranges_a
  | true, false, true, false => ra.map fun a =>
      o.putRight icomp (a.point ab) (a.includes ab) (some (true, ai))
  -- out ranges_a , out ranges_b , enter ranges_b
  | false, false, false, true => rb.map fun b =>
      (o.putLeft (b.point bb) (b.includes bb) (some (false, bi))).putDepend type none (some b)
  -- out ranges_a , in ranges_b , leave ranges_b
  | false, true, false, true => rb.map fun b =>
      o.putRight icomp (b.point bb) (b.includes bb) (some (false, bi))
  -- in ranges_a , out ranges_b , begin ranges_b
  | true, false, false, true => do
      let a ← ra
      let b ← rb
      pure (((o.putRight icomp (b.point bb) (!b.includes bb) none).putLeft (b.point bb)
        (b.includes bb) (some (false, bi))).putDepend type (some a) (some b))
  -- in ranges_a , in ranges_b , leave ranges_b
  | true, true, false, true => do
      let a ← ra
      let b ← rb
      pure (((o.putRight icomp (b.point bb) (b.includes bb) (some (false, bi))).putLeft (b.point bb)
        (!b.includes bb) none).putDepend type (some a) none)
  -- out ranges_a , in ranges_b , begin ranges_a
  | false, true, true, false => do
      let a ← ra
      let b ← rb
      pure (((o.putRight icomp (a.point ab) (!a.includes ab) none).putLeft (a.point ab)
        (a.includes ab) (some (true, ai))).putDepend type (some a) (some b))
  -- in ranges_a , in ranges_b , leave ranges_a
  | true, true, true, false => do
      let a ← ra
      let b ← rb
      pure (((o.putRight icomp (a.point ab) (a.includes ab) (some (true, ai))).putLeft (a.point ab)
        (!a.includes ab) none).putDepend type none (some b))
  -- out ranges_a , out ranges_b , enter ranges_a , enter ranges_b
  | false, false, true, true => do
      let a ← ra
      let b ← rb
      pure ((o.putLeft (a.point ab) (a.includes ab) none).putDepend type (some a) (some b))
  -- in ranges_a , in ranges_b , leave ranges_a , leave ranges_b
  | true, true, true, true => ra.map fun a => o.putRight icomp (a.point ab) (a.includes ab) none
  -- `assert(false)`
  | _, _, _, _ => some o

/-- The comparison the loop makes at `ranges_a[ai]` and `ranges_b[bi]`: `-1`
(`lt`) when only `a` has a range left, `1` (`gt`) when only `b` or neither. -/
def partitionCompare (icomp : Comparator) (ra rb : Option RangeWithDepend) (ab bb : Bool) :
    Ordering :=
  match ra, rb with
  | some a, some b =>
      CompInclude (icomp (a.point ab) (b.point bb)) ab (a.includes ab) bb (b.includes bb)
  | some _, none => .lt
  | none, _ => .gt

/-- The `do { ... } while (ai != ranges_a.size() || bi != ranges_b.size())`
loop from `(ai, ab, bi, bb)`, for at most `fuel` rounds. -/
def partitionLoop (icomp : Comparator) (type : PartitionType) (rangesA rangesB : List RangeWithDepend) :
    ℕ → ℕ → Bool → ℕ → Bool → PartitionOutput → Option (List RangeWithDepend)
  | 0, _, _, _, _, _ => none
  | fuel + 1, ai, ab, bi, bb, o =>
      let c := partitionCompare icomp rangesA[ai]? rangesB[bi]? ab bb
      -- `ac = c <= 0`, `bc = c >= 0`
      let ac := c != .gt
      let bc := c != .lt
      match partitionStep icomp type ai bi rangesA[ai]? rangesB[bi]? ab bb ac bc o with
      | none => none
      | some o =>
          -- `ai += (ab + ac) / 2; ab = (ab + ac) % 2`, and the same for `b`
          let ai' := if ab && ac then ai + 1 else ai
          let bi' := if bb && bc then bi + 1 else bi
          if ai' ≠ rangesA.length ∨ bi' ≠ rangesB.length then
            partitionLoop icomp type rangesA rangesB fuel ai' (ab != ac) bi' (bb != bc) o
          else some o.output.reverse

/-- `PartitionRangeWithDepend(ranges_a, ranges_b, icomp, type)`, with one round
of the loop for each bound of the two lists. -/
def PartitionRangeWithDepend (rangesA rangesB : List RangeWithDepend) (icomp : Comparator)
    (type : PartitionType) : Option (List RangeWithDepend) :=
  partitionLoop icomp type rangesA rangesB (2 * (rangesA.length + rangesB.length)) 0 false 0 false
    ⟨[], none⟩

end HapDB
