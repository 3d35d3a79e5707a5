import HapDB.Table.GetContext

/-!
# `db/version_set.cc`: `Version::Get`

A point lookup in a version asks the `FilePicker` for file after file and
reads each through the table cache, with one `GetContext` for the whole
lookup.  It stops at the first file after which the context has an answer: a
value (`kFound`), a deletion (`NotFound`) or a failed merge (the context's
corruption), and at the first read that fails.  When the files run out while
merge operands are pending, it merges them onto nothing; when nothing was
found, the answer is `NotFound` and `*key_exists` is cleared.

The table cache's `Get` of the file at a level and position is a parameter,
`readFile`, and the version takes part as the context's separate helper by its
`TransToCombined`.  The loop over the files runs on fuel: one round for each
file of the version and one for the picker's final answer, which is what
`Version.Get` gives it.  Left out: statistics, perf counters and the sampling
of file reads.
-/

namespace HapDB

namespace Version

variable (inp : PickerInput) (readFile : ℕ × ℕ → GetContext → Status × GetContext)

/-- The `while (f != nullptr)` loop: whether `Get` returned from inside it, the
status, and the context. -/
def getLoop : ℕ → FilePicker → Status → GetContext → Bool × Status × GetContext
  | 0, _, status, g => (false, status, g)
  | fuel + 1, fp, status, g =>
    match FilePicker.GetNextFile inp fp with
    | (none, _) => (false, status, g)
    | (some f, fp) =>
      -- the remaining files we look at will only contain covered keys
      if g.isFinished then (false, status, g)
      else
        let (status, g) := readFile f g
        if !status.ok then (true, status, g)
        else
          match g.state with
          | .kNotFound | .kMerge => getLoop fuel fp status g
          | .kFound => (true, status, g)
          | .kDeleted => (true, Status.NotFound, g)
          | .kCorrupt => (true, g.corrupt, g)

/-- `Version::Get(read_options, user_key, k, value, status, merge_context,
max_covering_tombstone_seq, value_found, key_exists, seq, callback)`: the
status, the context (whose `lazyVal` is `*value`) and `*key_exists`. -/
def Get (mergeOperator : Option GetMergeOperator) (transToCombined : Bytes → UInt64 → Bytes → Bytes)
    (value : Option Bytes) (status : Status) (mergeContext : Option (List Bytes))
    (maxCoveringTombstoneSeq : Option UInt64) (keyExists : Option Bool) (seq : Option UInt64)
    (callback : Option (UInt64 → Bool)) : Status × GetContext × Option Bool :=
  let keyExists := keyExists.map fun _ => true
  let g := GetContext.new inp.ucmp mergeOperator (if status.ok then .kNotFound else .kMerge)
    inp.userKey value mergeContext (some transToCombined) maxCoveringTombstoneSeq seq callback
  match getLoop inp readFile ((inp.levels.map List.length).sum + 1) (FilePicker.make inp) status g with
  | (true, status, g) => (status, g, keyExists)
  | (false, status, g) =>
    if g.state = .kMerge then
      match mergeOperator with
      | none => (Status.InvalidArgument "merge_operator is not properly initialized.", g, keyExists)
      | some op =>
        -- merge operands are in the context and the history of the key is at its beginning
        match g.lazyVal with
        | none => (status, g, keyExists)
        | some _ =>
          match MergeHelper.TimedFullMerge op.toMergeOperator inp.userKey none g.operands with
          | .ok result => (Status.OK, { g with lazyVal := some result }, keyExists)
          | .error s => (s, g, keyExists)
    else (Status.NotFound, g, keyExists.map fun _ => false)

end Version

end HapDB
