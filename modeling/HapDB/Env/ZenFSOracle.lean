import HapDB.Db.Builder

/-!
# `env/env_zenfs.cc`: `ZenFSOracle`, the set of hot keys

The oracle keeps up to `limit_` keys it has seen often, each with a hint (the
version it was last touched in, how often it occurred, and its hotness), in
two indexes: the key set `key_set_`, and `occurrence_map_`, the keys bucketed
by occurrence in increasing order.  `AddKey` adds a key or adds to its
occurrence, moving it to another bucket; when the set is full it rejects a key
rarer than the rarest one held, and otherwise `Evict`s first.  `Evict` asks
`MakeSpace` for `evict_rate_ * limit_` keys, truncated to an integer.
`MakeSpace(wanted)` erases keys untouched for two versions, bucket by bucket,
and then any keys, until `wanted` is counted down to zero; `UpdateStats`
recomputes the smallest, largest and average occurrence.  `MergeKeys` adds
the most frequent tenth of a batch, at most 2000 keys, from the most frequent
down.

The model runs one call at a time: the locks and the probe counters are left
out.  `double` values are exact rationals: the counts here are integers, and
the average is the exact quotient.  The key set is an association list with
one entry per key, each bucket a list of distinct keys.  Where the source
reaches undefined behaviour (`rbegin()` of an empty map in `UpdateStats`, the
hint of a key the set does not hold, the bucket of an occurrence the map does
not hold) the model returns `none`.
-/

namespace HapDB

/-- `ZenFSOracle::KeyHint`. -/
structure KeyHint where
  key : Bytes
  localVersion : UInt64
  occurrence : UInt64
  hotness : KeyType
  deriving DecidableEq, Repr

/-- `KeyHintSetStats`, with its initial values. -/
structure KeyHintSetStats where
  maxOccurrence : UInt64 := 9
  minOccurrence : UInt64 := 9
  averageOccurrence : ℚ := 9
  deriving DecidableEq, Repr

/-- `OracleAddKeyStatus`. -/
inductive OracleAddKeyStatus where
  | kNewlyAdded
  | kUpdated
  | kRejected
  deriving DecidableEq, Repr

/-- `ZenFSOracle`: the statistics, the global version, the limit, and the two
indexes. -/
structure ZenFSOracle where
  stats : KeyHintSetStats
  globalVersion : UInt64
  limit : UInt64
  keySet : List (Bytes × KeyHint)
  occurrenceMap : List (UInt64 × List Bytes)
  deriving DecidableEq, Repr

namespace ZenFSOracle

/-- `evict_rate_`, set to `0.1` by the constructor and never changed. -/
def evictRate : ℚ := 1 / 10

/-- The constructor `ZenFSOracle(limit)`. -/
def create (limit : UInt64) : ZenFSOracle := ⟨{}, 0, limit, [], []⟩

/-- `key_set_.erase(key)`. -/
def eraseKey (keySet : List (Bytes × KeyHint)) (key : Bytes) : List (Bytes × KeyHint) :=
  keySet.filter fun p => p.1 != key

/-- `occurrence_map_[occurrence].insert(key)`: into the bucket of that
occurrence, made in its place if there is none. -/
def bucketInsert (occurrence : UInt64) (key : Bytes) :
    List (UInt64 × List Bytes) → List (UInt64 × List Bytes)
  | [] => [(occurrence, [key])]
  | (o, ks) :: rest =>
      if o = occurrence then (o, if key ∈ ks then ks else ks ++ [key]) :: rest
      else if occurrence < o then (occurrence, [key]) :: (o, ks) :: rest
      else (o, ks) :: bucketInsert occurrence key rest

/-- `occurrence_map_.find(occurrence)->second.erase(key)`: `none` if the map
has no bucket of that occurrence. -/
def bucketErase (occurrence : UInt64) (key : Bytes) :
    List (UInt64 × List Bytes) → Option (List (UInt64 × List Bytes))
  | [] => none
  | (o, ks) :: rest =>
      if o = occurrence then some ((o, ks.erase key) :: rest)
      else (bucketErase occurrence key rest).map ((o, ks) :: ·)

/-- `UpdateStats()`: empty buckets are erased; with no bucket left the source
reads `rbegin()` of an empty map. -/
def UpdateStats (o : ZenFSOracle) : Option ZenFSOracle :=
  let total : ℚ := (o.occurrenceMap.map fun b => ((b.1 * b.2.length.toUInt64).toNat : ℚ)).sum
  let occurrenceMap := o.occurrenceMap.filter fun b => !b.2.isEmpty
  match occurrenceMap.head?, occurrenceMap.getLast? with
  | some low, some high =>
      some { o with
        occurrenceMap := occurrenceMap
        stats := ⟨high.1, low.1, total / o.keySet.length⟩ }
  | _, _ => none

/-- `ProbeKeyType(key, occurrence)`: a key of the set has its own hotness;
another is warm when it occurs at least as often as the average, or, with room
in the set, when it occurs at all, or, with the set full, at least as often as
the rarest key held. -/
def ProbeKeyType (o : ZenFSOracle) (key : Bytes) (occurrence : UInt64) : KeyType :=
  match o.keySet.lookup key with
  | some hint => hint.hotness
  | none =>
      if o.stats.averageOccurrence ≤ (occurrence.toNat : ℚ) then .warm
      else if o.keySet.length < o.limit.toNat then
        if occurrence ≠ 0 then .warm else .cold
      else if o.stats.minOccurrence ≤ occurrence then .warm
      else .cold

/-- The first loop of `MakeSpace` over one bucket: a key untouched for two
versions is erased, until `wanted` is counted down to zero.  The keys kept,
the key set, what is still wanted, and whether the count reached zero. -/
def makeSpaceAged (globalVersion : UInt64) :
    List Bytes → List (Bytes × KeyHint) → UInt64 →
      Option (List Bytes × List (Bytes × KeyHint) × UInt64 × Bool)
  | [], keySet, wanted => some ([], keySet, wanted, false)
  | k :: ks, keySet, wanted =>
      match keySet.lookup k with
      -- `hint->second` of a key the set does not hold
      | none => none
      | some hint =>
          if 2 ≤ globalVersion - hint.localVersion then
            let keySet := eraseKey keySet k
            if wanted - 1 = 0 then some (ks, keySet, 0, true)
            else makeSpaceAged globalVersion ks keySet (wanted - 1)
          else (makeSpaceAged globalVersion ks keySet wanted).map fun r => (k :: r.1, r.2)

/-- The second loop of `MakeSpace` over one bucket: any key is erased, until
`wanted` is counted down to zero. -/
def makeSpaceAny :
    List Bytes → List (Bytes × KeyHint) → UInt64 → List Bytes × List (Bytes × KeyHint) × UInt64 × Bool
  | [], keySet, wanted => ([], keySet, wanted, false)
  | k :: ks, keySet, wanted =>
      let keySet := eraseKey keySet k
      if wanted - 1 = 0 then (ks, keySet, 0, true)
      else makeSpaceAny ks keySet (wanted - 1)

/-- The first loop of `MakeSpace` over the buckets in increasing occurrence;
the flag is set when the count reached zero (`goto leave`). -/
def makeSpaceAgedLoop (globalVersion : UInt64) :
    List (UInt64 × List Bytes) → List (Bytes × KeyHint) → UInt64 →
      Option (List (UInt64 × List Bytes) × List (Bytes × KeyHint) × UInt64 × Bool)
  | [], keySet, wanted => some ([], keySet, wanted, false)
  | (occ, ks) :: rest, keySet, wanted => do
      let (kept, keySet, wanted, left) ← makeSpaceAged globalVersion ks keySet wanted
      if left then some ((occ, kept) :: rest, keySet, wanted, true)
      else
        let (rest, keySet, wanted, left) ← makeSpaceAgedLoop globalVersion rest keySet wanted
        some ((occ, kept) :: rest, keySet, wanted, left)

/-- The second loop of `MakeSpace` over the buckets. -/
def makeSpaceAnyLoop :
    List (UInt64 × List Bytes) → List (Bytes × KeyHint) → UInt64 →
      List (UInt64 × List Bytes) × List (Bytes × KeyHint) × UInt64
  | [], keySet, wanted => ([], keySet, wanted)
  | (occ, ks) :: rest, keySet, wanted =>
      let (kept, keySet, wanted, left) := makeSpaceAny ks keySet wanted
      if left then ((occ, kept) :: rest, keySet, wanted)
      else
        let (rest, keySet, wanted) := makeSpaceAnyLoop rest keySet wanted
        ((occ, kept) :: rest, keySet, wanted)

/-- The two loops of `MakeSpace(wanted)`, up to the label `leave`. -/
def makeSpaceLoops (o : ZenFSOracle) (wanted : UInt64) : Option ZenFSOracle := do
  let (occurrenceMap, keySet, wanted, left) ←
    makeSpaceAgedLoop o.globalVersion o.occurrenceMap o.keySet wanted
  if left || wanted = 0 then some { o with occurrenceMap, keySet }
  else
    let (occurrenceMap, keySet, _) := makeSpaceAnyLoop occurrenceMap keySet wanted
    some { o with occurrenceMap, keySet }

/-- `MakeSpace(wanted)`: the loops, then `UpdateStats`. -/
def MakeSpace (o : ZenFSOracle) (wanted : UInt64) : Option ZenFSOracle :=
  (o.makeSpaceLoops wanted).bind UpdateStats

/-- `Evict()`: `evict_rate_ * limit_` keys, and the excess over the limit when
the set holds more than that much above it; `MakeSpace` takes the count
truncated to an integer. -/
def Evict (o : ZenFSOracle) : Option ZenFSOracle :=
  let wanted : ℚ := evictRate * o.limit.toNat
  let wanted := if (o.keySet.length : ℚ) - wanted > o.limit.toNat then
      wanted + (o.keySet.length.toUInt64 - o.limit).toNat
    else wanted
  o.MakeSpace (UInt64.ofNat ⌊wanted⌋.toNat)

/-- The tail of `AddKey` once the set has room or the key is known: a new key
gets a hint and goes to the bucket of its occurrence; a known one is touched,
moves to the bucket of its summed occurrence and is probed again. -/
def addKeyInsert (o : ZenFSOracle) (key : Bytes) (occurrence : UInt64) :
    Option (OracleAddKeyStatus × ZenFSOracle) :=
  match o.keySet.lookup key with
  | none =>
      let hint : KeyHint := ⟨key, o.globalVersion, occurrence, o.ProbeKeyType key occurrence⟩
      some (.kNewlyAdded, { o with
        keySet := o.keySet ++ [(key, hint)]
        occurrenceMap := bucketInsert occurrence key o.occurrenceMap })
  | some hint => do
      let occurrenceMap ← bucketErase hint.occurrence key o.occurrenceMap
      let hint := { hint with localVersion := o.globalVersion, occurrence := hint.occurrence + occurrence }
      let o := { o with
        keySet := o.keySet.map fun (p : Bytes × KeyHint) => if p.1 == key then (p.1, hint) else p
        occurrenceMap := bucketInsert hint.occurrence key occurrenceMap }
      -- the key is in the set, so the probe returns the hint's own hotness
      let hotness := o.ProbeKeyType key hint.occurrence
      some (.kUpdated, { o with
        keySet := o.keySet.map fun (p : Bytes × KeyHint) => if p.1 == key then (p.1, { hint with hotness }) else p })

/-- `AddKey(key, occurrence)`. -/
def AddKey (o : ZenFSOracle) (key : Bytes) (occurrence : UInt64) :
    Option (OracleAddKeyStatus × ZenFSOracle) :=
  if o.limit.toNat ≤ o.keySet.length then
    if occurrence < o.stats.minOccurrence then some (.kRejected, o)
    else
      match o.keySet.lookup key with
      | none => do
          let o ← o.Evict
          o.addKeyInsert key occurrence
      | some _ => o.addKeyInsert key occurrence
  else o.addKeyInsert key occurrence

/-- `Aging()`. -/
def Aging (o : ZenFSOracle) : ZenFSOracle := { o with globalVersion := o.globalVersion + 1 }

/-- `sorted[occurrence].push_back(key)`: onto the group of that occurrence,
made in its place if there is none. -/
def pushToGroup (occurrence : UInt64) (key : Bytes) :
    List (UInt64 × List Bytes) → List (UInt64 × List Bytes)
  | [] => [(occurrence, [key])]
  | (o, ks) :: rest =>
      if o = occurrence then (o, ks ++ [key]) :: rest
      else if occurrence < o then (occurrence, [key]) :: (o, ks) :: rest
      else (o, ks) :: pushToGroup occurrence key rest

/-- The batch of `MergeKeys` grouped by occurrence (`sorted`), in increasing
occurrence, each group in the order of the batch. -/
def groupByOccurrence (update : List (Bytes × UInt64)) : List (UInt64 × List Bytes) :=
  update.foldl (fun sorted kv => pushToGroup kv.2 kv.1 sorted) []

/-- The keys of one group, added until `check_key_cnt` keys have been
processed: the count and the oracle after them. -/
def mergeGroup (checkKeyCnt : ℚ) (occurrence : UInt64) :
    List Bytes → ℕ → ZenFSOracle → Option (ℕ × ZenFSOracle)
  | [], i, o => some (i, o)
  | k :: ks, i, o => do
      let (_, o) ← o.AddKey k occurrence
      if checkKeyCnt ≤ ((i + 1 : ℕ) : ℚ) then some (i + 1, o)
      else mergeGroup checkKeyCnt occurrence ks (i + 1) o

/-- The loop of `MergeKeys` over the groups, from the most frequent down. -/
def mergeLoop (checkKeyCnt : ℚ) : List (UInt64 × List Bytes) → ℕ → ZenFSOracle → Option ZenFSOracle
  | [], _, o => some o
  | (occ, ks) :: rest, i, o =>
      if ((i : ℕ) : ℚ) < checkKeyCnt then do
        let (i, o) ← mergeGroup checkKeyCnt occ ks i o
        mergeLoop checkKeyCnt rest i o
      else some o

/-- `MergeKeys(update)`: at most a tenth of the batch, and at most 2000 keys,
from the most frequent down, then `UpdateStats`. -/
def MergeKeys (o : ZenFSOracle) (update : List (Bytes × UInt64)) : Option ZenFSOracle := do
  let checkKeyCnt : ℚ := min (update.length * evictRate) 2000
  let o ← mergeLoop checkKeyCnt (groupByOccurrence update).reverse 0 o
  o.UpdateStats

end ZenFSOracle

end HapDB
