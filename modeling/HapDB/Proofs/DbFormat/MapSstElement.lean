import HapDB.Db.MapSstElement
import HapDB.Proofs.VersionEdit.Fields

/-!
# A map element's value reads back, and nothing may follow it

`Value` writes the flags, the link count, the smallest key, the file numbers
and the sizes, and `Decode` runs the same five reads in the same order; each
read gives back what was written whatever follows it (`Value_eq` lays the
bytes out, the `*_encode*` lemmas of `Util/Coding` read them).  Two side
conditions come from the encoders, not from `Decode`: `PutLengthPrefixedSlice`
casts the key length to 32 bits, and `link.size()` is a 64-bit `size_t`.

Every reader also leaves what follows its input unread (the `*_append` lemmas
of `Util/Coding`), so a value that `Decode` accepts, with any byte after it,
leaves that byte unread at the end, and `Decode` fails (`Decode_append`).
-/

namespace HapDB.MapSstElement

/-- The four flag bits `Value` writes read back as the four booleans. -/
theorem flags_bits (e : MapSstElement) :
    (e.flags &&& kIncludeSmallest != 0) = e.includeSmallest ∧
      (e.flags &&& kIncludeLargest != 0) = e.includeLargest ∧
      (e.flags &&& kHasDeleteRange != 0) = e.hasDeleteRange ∧
      (e.flags &&& kMarkedForCompaction != 0) = e.markedForCompaction := by
  simp only [flags]
  generalize e.includeSmallest = a, e.includeLargest = b, e.hasDeleteRange = c,
    e.markedForCompaction = d
  -- sixteen closed words, one per choice of the four flags
  revert a b c d
  decide

/-- The bytes `Value` writes, in order. -/
theorem Value_eq (e : MapSstElement) :
    e.Value = encodeVarint64 e.flags ++ encodeVarint64 (UInt64.ofNat e.link.length) ++
      putLengthPrefixedSlice [] e.smallestKey ++
      (e.link.map fun l => encodeVarint64 l.fileNumber).flatten ++
      (e.link.map fun l => encodeVarint64 l.size).flatten := by
  simp only [Value, foldl_putVarint64_map, putVarint64Varint64_eq, putLengthPrefixedSlice_eq,
    List.nil_append, List.append_assoc]

/-- The link list is rebuilt from its file numbers and its sizes. -/
theorem zipWith_mk_map (link : List LinkTarget) :
    List.zipWith LinkTarget.mk (link.map LinkTarget.fileNumber) (link.map LinkTarget.size) =
      link := by
  rw [List.zipWith_map, List.zipWith_self]
  simp

/-- `Decode` reads back what `Value` wrote, and fails when anything follows it. -/
theorem Decode_Value_append (e : MapSstElement) (hkey : e.smallestKey.length < 2 ^ 32)
    (hlink : e.link.length < 2 ^ 64) (extra : Bytes) :
    Decode e.Key (e.Value ++ extra) = if extra.isEmpty then some e else none := by
  obtain ⟨hs, hl, hd, hm⟩ := flags_bits e
  have hnumbers := getVarint64s_flatten_map LinkTarget.fileNumber e.link
  have hsizes := getVarint64s_flatten_map LinkTarget.size e.link
  rw [Value_eq]
  simp only [List.append_assoc]
  simp only [Decode, getVarint64_encodeVarint64, getLengthPrefixedSlice_encode _ _ hkey,
    toNat_ofNat_length _ hlink, hnumbers, hsizes, hs, hl, hd, hm, zipWith_mk_map, Key]

/-- A value `Decode` accepts is read to its last byte: with anything after it,
`Decode` fails. -/
theorem Decode_append {ikey value : Bytes} {e : MapSstElement} (h : Decode ikey value = some e)
    {extra : Bytes} (hextra : extra ≠ []) : Decode ikey (value ++ extra) = none := by
  -- follow the five reads of `value`; each reads the same from `value ++ extra`
  simp only [Decode] at h
  split at h
  · cases h
  rename_i flags v₁ h₁
  split at h
  · cases h
  rename_i linkCount v₂ h₂
  split at h
  · cases h
  rename_i smallestKey v₃ h₃
  split at h
  · cases h
  rename_i fileNumbers v₄ h₄
  split at h
  · cases h
  rename_i sizes v₅ h₅
  -- the last read left nothing, so on the longer value it leaves `extra`
  have hempty : v₅ = [] := by
    by_contra hne
    simp [hne] at h
  subst hempty
  simp only [Decode, getVarint64_append h₁, getVarint64_append h₂,
    getLengthPrefixedSlice_append h₃, getVarint64s_append h₄, getVarint64s_append h₅,
    List.nil_append, List.isEmpty_iff, hextra, if_false]

/-- The value codec of a map element: `Decode` restores every field `Value`
wrote, and fails on any value that goes on after what it reads. -/
theorem MapSstElement_value_round_trip :
    (∀ e : MapSstElement, e.smallestKey.length < 2 ^ 32 → e.link.length < 2 ^ 64 →
      Decode e.Key e.Value = some e) ∧
    (∀ (ikey value extra : Bytes) (e : MapSstElement), Decode ikey value = some e →
      extra ≠ [] → Decode ikey (value ++ extra) = none) := by
  refine ⟨?_, ?_⟩
  · intro e hkey hlink
    simpa using Decode_Value_append e hkey hlink []
  · intro ikey value extra e h hextra
    exact Decode_append h hextra

/-- An element with one link, read back, and refused with a byte after it. -/
theorem MapSstElement_value_round_trip_one_link :
    Decode [2] (Value ⟨[1], [2], true, false, true, false, [⟨7, 100⟩]⟩) =
        some ⟨[1], [2], true, false, true, false, [⟨7, 100⟩]⟩ ∧
      Decode [2] (Value ⟨[1], [2], true, false, true, false, [⟨7, 100⟩]⟩ ++ [0]) = none :=
  have hread := MapSstElement_value_round_trip.1 ⟨[1], [2], true, false, true, false, [⟨7, 100⟩]⟩
    (by decide) (by decide)
  ⟨hread, MapSstElement_value_round_trip.2 _ _ [0] _ hread (by decide)⟩

end HapDB.MapSstElement
