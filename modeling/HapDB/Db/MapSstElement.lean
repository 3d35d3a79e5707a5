import HapDB.Db.MapBuilder
import HapDB.Db.VersionEdit

/-!
# `db/dbformat.h`: `MapSstElement`, one entry of a map SST

A map SST maps key ranges to the files that hold them.  Each entry's key is the
range's largest key, and its value holds the range's flags, its smallest key
and the files it links to: `Value` writes them as

  `varint64 flags, varint64 link_count, length-prefixed smallest_key,`
  `link_count varint64 file numbers, link_count varint64 sizes`,

and `Decode` reads them back, in that order, failing when a read fails or
bytes are left over.  The C++ union of four booleans with `union_flags` is the
four `Bool` fields; only the bits `Value` writes are read back.
-/

namespace HapDB

/-- `MapSstElement`. -/
structure MapSstElement where
  smallestKey : Bytes
  largestKey : Bytes
  includeSmallest : Bool
  includeLargest : Bool
  hasDeleteRange : Bool
  markedForCompaction : Bool
  link : List MapSstElement.LinkTarget
  deriving DecidableEq, Repr

namespace MapSstElement

/-- `MapSstElement::Flags`. -/
def kEmpty : UInt64 := 0
def kIncludeSmallest : UInt64 := (1 : UInt64) <<< 0
def kIncludeLargest : UInt64 := (1 : UInt64) <<< 1
def kHasDeleteRange : UInt64 := (1 : UInt64) <<< 2
def kMarkedForCompaction : UInt64 := (1 : UInt64) <<< 3

/-- `MapSstElement::Key()`. -/
def Key (e : MapSstElement) : Bytes := e.largestKey

/-- The `flags` word of `Value`. -/
def flags (e : MapSstElement) : UInt64 :=
  (if e.includeSmallest then kIncludeSmallest else kEmpty) |||
    (if e.includeLargest then kIncludeLargest else kEmpty) |||
    (if e.hasDeleteRange then kHasDeleteRange else kEmpty) |||
    (if e.markedForCompaction then kMarkedForCompaction else kEmpty)

/-- `MapSstElement::Value(&buffer)`: the buffer is cleared first. -/
def Value (e : MapSstElement) : Bytes :=
  let buffer := putVarint64Varint64 [] e.flags (UInt64.ofNat e.link.length)
  let buffer := putLengthPrefixedSlice buffer e.smallestKey
  let buffer := e.link.foldl (fun buffer l => putVarint64 buffer l.fileNumber) buffer
  e.link.foldl (fun buffer l => putVarint64 buffer l.size) buffer

/-- `MapSstElement::Decode(ikey, value)`.  Every field is written before a
`true` return, so a decoded element depends on `ikey` and `value` alone; a
`false` return is `none` (no caller reads the half-written element).  The two
loops over `link` read all file numbers, then all sizes. -/
def Decode (ikey value : Bytes) : Option MapSstElement :=
  match getVarint64 value with
  | none => none
  | some (flags, value) =>
    match getVarint64 value with
    | none => none
    | some (linkCount, value) =>
      match getLengthPrefixedSlice value with
      | none => none
      | some (smallestKey, value) =>
        match getVarint64s linkCount.toNat value with
        | none => none
        | some (fileNumbers, value) =>
          match getVarint64s linkCount.toNat value with
          | none => none
          | some (sizes, value) =>
            if value.isEmpty then
              some { smallestKey, largestKey := ikey,
                     includeSmallest := flags &&& kIncludeSmallest != 0,
                     includeLargest := flags &&& kIncludeLargest != 0,
                     hasDeleteRange := flags &&& kHasDeleteRange != 0,
                     markedForCompaction := flags &&& kMarkedForCompaction != 0,
                     link := List.zipWith LinkTarget.mk fileNumbers sizes }
            else none

end MapSstElement

end HapDB
