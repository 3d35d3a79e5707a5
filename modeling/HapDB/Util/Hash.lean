import HapDB.Db.VersionEdit

/-!
# `util/hash.cc`: the hash of filters and hash indexes

`Hash` is the murmur-like hash of LevelDB.  It mixes the input four bytes at a
time, each word read little endian.  The one to three bytes left over are
added sign-extended (`charToUInt32`): the source casts each one through
`int8_t` so that its value is the same on every platform.  All arithmetic is
on `uint32_t`, so it wraps; the length enters as `n * m` in `size_t`, which
wraps to the same low 32 bits.
-/

namespace HapDB

/-- The four-byte loop of `Hash`: `h += w; h *= m; h ^= (h >> 16)` for each
word `w`, then the bytes left over. -/
def hashWords (m h : UInt32) : Bytes → UInt32 × Bytes
  | a :: b :: c :: d :: rest =>
    let h := (h + decodeFixed32 [a, b, c, d]) * m
    hashWords m (h ^^^ (h >>> 16)) rest
  | rest => (h, rest)

/-- `Hash(data, n, seed)`. -/
def Hash (data : Bytes) (seed : UInt32) : UInt32 :=
  let m : UInt32 := 0xc6a4a793
  let r : UInt32 := 24
  let h := seed ^^^ (UInt32.ofNat data.length * m)
  -- the `switch` on the number of bytes left, with its fall-throughs
  match hashWords m h data with
  | (h, [d0, d1, d2]) =>
    let h := h + (charToUInt32 d2 <<< 16) + (charToUInt32 d1 <<< 8) + charToUInt32 d0
    let h := h * m
    h ^^^ (h >>> r)
  | (h, [d0, d1]) =>
    let h := h + (charToUInt32 d1 <<< 8) + charToUInt32 d0
    let h := h * m
    h ^^^ (h >>> r)
  | (h, [d0]) =>
    let h := (h + charToUInt32 d0) * m
    h ^^^ (h >>> r)
  | (h, _) => h

-- values of `hash_test.cc`: a sign-extended byte, three bytes, a word and a byte
example : Hash [0x9a] 0xbc9f1d34 = 3195034349 := by decide
example : Hash [0x56, 0xdc, 0xd6] 0xbc9f1d34 = 2157698265 := by decide
example : Hash [0xd0, 0x7a, 0x6e, 0xea, 0x56] 0xbc9f1d34 = 4255445370 := by decide

/-- `BloomHash(key)`. -/
def BloomHash (key : Bytes) : UInt32 := Hash key 0xbc9f1d34

/-- `GetSliceHash(s)`. -/
def GetSliceHash (s : Bytes) : UInt32 := Hash s 397

end HapDB
