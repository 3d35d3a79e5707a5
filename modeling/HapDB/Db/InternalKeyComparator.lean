import HapDB.Db.FilePicker
import HapDB.Db.RangeTombstoneFragmenter

/-!
# `db/dbformat`: writing an internal key, and the sequence-only comparison

`AppendInternalKey` writes a parsed key as its user key followed by the
eight-byte footer `PackSequenceAndType(sequence, type)`; `ParseInternalKey`
(`parseInternalKey`) reads one back.  `InternalKeyComparator` compares two
encoded keys by user key and then by the whole footer, larger first
(`internalKeyCompare`), or, in `CompareKeySeq`, by the footer shifted right by
eight bits, which is the sequence number without the type.
-/

namespace HapDB

/-- `AppendInternalKey(result, key)`. -/
def appendInternalKey (result : Bytes) (key : ParsedInternalKey) : Bytes :=
  result ++ key.userKey ++ encodeFixed64 (PackSequenceAndType key.sequence key.type)

/-- `InternalKeyComparator::CompareKeySeq`: by user key, then the larger
sequence number first; the type byte is shifted out of both footers. -/
def compareKeySeq (ucmp : Comparator) (a b : InternalKey) : Ordering :=
  match ucmp a.userKey b.userKey with
  | .eq =>
      let anum := decodeFixed64 (a.rep.drop (a.rep.length - 8)) >>> 8
      let bnum := decodeFixed64 (b.rep.drop (b.rep.length - 8)) >>> 8
      if anum > bnum then .lt else if anum < bnum then .gt else .eq
  | o => o

end HapDB
