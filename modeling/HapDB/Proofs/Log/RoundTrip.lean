import HapDB.Proofs.Log.LogNumber

/-!
# The log round trip

Every record that `log::Writer::AddRecord` writes is read back by
`log::Reader::ReadRecord`, in order, and then the reader reports the end of the
log, with no corruption reported on the way (`log_records_read_back`).  This
holds for both header formats, in every recovery mode, with or without
checksums, as long as a recycled log's number fits in the 32 bits the writer
stores (`LogNumber.lean` shows what happens otherwise).

## The file the writer leaves

Each turn of the loop of `AddRecord` (a `Turn`) closes the block with zeros
when fewer than a header's bytes are left in it (`padLength`), and then emits
one physical record that lies inside the block (`recordStart`).  A record is
one turn, or a first turn and more that each fill the rest of their block
(`RecordFramed`); the log is its records one after the other (`LogFramed`).

## How the reader goes over it

`ReadMore` reads the file one block at a time, so the reader's buffer is
always what is left of the block it is in, or empty at a block's start
(`Reader.At`).  A turn then reads as:

* its physical record, parsed at the front of the buffer (`readPhysicalRecord_phys`),
  after a refill when the buffer is empty or holds a trailer shorter than a
  legacy header (`readPhysicalRecord_of_short`);
* before that, a `kBadRecord` for a trailer of seven to ten zeros, which only a
  recycled log leaves; `ReadRecord` skips it, since it only comes between
  records (`readRecordLoop_badRecord`).

`readRecordLoop_record` puts the turns of a record back together, and
`readRecords_log` goes over the records.
-/

namespace HapDB.Log

/-! ## The turns of the writer -/

/-- The header size of a writer's record types. -/
def recordHeaderSize (recycle : Bool) : ℕ := if recycle then kRecyclableHeaderSize else kHeaderSize

/-- `buf[7..10]` of a header: the low 32 bits of the log number, in the
recyclable types only. -/
def logNumberBytes (logNumber : UInt64) (t : RecordType) : Bytes :=
  if t.toNat < RecordType.kRecyclableFullType.toNat then [] else encodeFixed32 logNumber.toUInt32

/-- The checksum field of a header: over the type byte, the log number bytes and the payload. -/
def physChecksum (crc : Crc32c) (logNumber : UInt64) (t : RecordType) (payload : Bytes) : UInt32 :=
  crc.mask (crc.extend (crc.extend (crc.value [UInt8.ofNat t.toNat]) (logNumberBytes logNumber t)) payload)

/-- The bytes `EmitPhysicalRecord` appends to the file: the header and the payload. -/
def physBytes (crc : Crc32c) (logNumber : UInt64) (t : RecordType) (payload : Bytes) : Bytes :=
  encodeFixed32 (physChecksum crc logNumber t payload) ++
    UInt8.ofNat payload.length :: UInt8.ofNat (payload.length >>> 8) :: UInt8.ofNat t.toNat ::
      (logNumberBytes logNumber t ++ payload)

/-- One turn of the loop of `AddRecord`: the zeros that close a block too
short for a header, and a physical record. -/
structure Turn where
  pad : ℕ
  type : RecordType
  payload : Bytes

def Turn.bytes (crc : Crc32c) (logNumber : UInt64) (u : Turn) : Bytes :=
  List.replicate u.pad 0 ++ physBytes crc logNumber u.type u.payload

/-- Where a writer at offset `o` of a block emits its next physical record: at
`o`, or at the start of the next block when fewer than `hs` bytes are left. -/
def recordStart (hs o : ℕ) : ℕ := if kBlockSize - o < hs then 0 else o

/-- The zeros that close the block before that. -/
def padLength (hs o : ℕ) : ℕ := if kBlockSize - o < hs then kBlockSize - o else 0

/-- The turns of one record, written from offset `o` of a block and ending at
offset `o'`: the last turn holds what is left of the record, and every turn
before it fills its block. -/
inductive RecordFramed (recycle : Bool) : Bool → ℕ → Bytes → List Turn → ℕ → Prop
  | last {begin : Bool} {o : ℕ} {left : Bytes} :
      recordStart (recordHeaderSize recycle) o + recordHeaderSize recycle + left.length ≤ kBlockSize →
      RecordFramed recycle begin o left
        [⟨padLength (recordHeaderSize recycle) o, Writer.fragmentType recycle begin true, left⟩]
        (recordStart (recordHeaderSize recycle) o + recordHeaderSize recycle + left.length)
  | more {begin : Bool} {o o' : ℕ} {p rest : Bytes} {us : List Turn} :
      recordStart (recordHeaderSize recycle) o + recordHeaderSize recycle + p.length = kBlockSize →
      RecordFramed recycle false kBlockSize rest us o' →
      RecordFramed recycle begin o (p ++ rest)
        (⟨padLength (recordHeaderSize recycle) o, Writer.fragmentType recycle begin false, p⟩ :: us) o'

/-- The turns of a sequence of records. -/
inductive LogFramed (recycle : Bool) : ℕ → List Bytes → List Turn → ℕ → Prop
  | nil {o : ℕ} : LogFramed recycle o [] [] o
  | cons {o o' o'' : ℕ} {s : Bytes} {ss : List Bytes} {us vs : List Turn} :
      RecordFramed recycle true o s us o' → LogFramed recycle o' ss vs o'' →
      LogFramed recycle o (s :: ss) (us ++ vs) o''

/-! ## The writer -/

namespace Writer

variable (crc : Crc32c)

theorem headerSize_eq (w : Writer) : w.headerSize = recordHeaderSize w.recycleLogFiles := rfl

theorem dest_emitPhysicalRecord (w : Writer) (t : RecordType) (p : Bytes) :
    (w.emitPhysicalRecord crc t p).dest = w.dest ++ physBytes crc w.logNumber t p := by
  simp [emitPhysicalRecord, physBytes, physChecksum, logNumberBytes]

theorem switchBlock_eq (w : Writer) :
    w.switchBlock = { w with
      dest := w.dest ++ List.replicate (padLength w.headerSize w.blockOffset) 0
      blockOffset := recordStart w.headerSize w.blockOffset } := by
  unfold switchBlock padLength recordStart
  split <;> simp

@[simp] theorem logNumber_switchBlock (w : Writer) : w.switchBlock.logNumber = w.logNumber := by
  rw [switchBlock_eq]

@[simp] theorem recycleLogFiles_switchBlock (w : Writer) :
    w.switchBlock.recycleLogFiles = w.recycleLogFiles := by
  rw [switchBlock_eq]

@[simp] theorem logNumber_emitPhysicalRecord (w : Writer) (t : RecordType) (p : Bytes) :
    (w.emitPhysicalRecord crc t p).logNumber = w.logNumber := rfl

@[simp] theorem recycleLogFiles_emitPhysicalRecord (w : Writer) (t : RecordType) (p : Bytes) :
    (w.emitPhysicalRecord crc t p).recycleLogFiles = w.recycleLogFiles := rfl

theorem recordStart_add_le {hs : ℕ} (o : ℕ) (hpos : 0 < hs) (hhs : hs ≤ kBlockSize) :
    recordStart hs o + hs ≤ kBlockSize := by
  unfold recordStart
  split <;> omega

theorem headerSize_le (w : Writer) : w.headerSize ≤ kBlockSize := by
  have := (headerSize_bounds w).2
  unfold kRecyclableHeaderSize at this
  unfold kBlockSize
  omega

/-- A turn of `AddRecord` appends a `Turn`. -/
theorem dest_turn (w : Writer) (t : RecordType) (p : Bytes) :
    (w.switchBlock.emitPhysicalRecord crc t p).dest =
      w.dest ++ Turn.bytes crc w.logNumber ⟨padLength w.headerSize w.blockOffset, t, p⟩ := by
  rw [dest_emitPhysicalRecord, switchBlock_eq, Turn.bytes, List.append_assoc]

theorem blockOffset_turn (w : Writer) (begin end_ : Bool) (p : Bytes) :
    (w.switchBlock.emitPhysicalRecord crc (fragmentType w.switchBlock.recycleLogFiles begin end_) p).blockOffset =
      recordStart w.headerSize w.blockOffset + w.headerSize + p.length := by
  rw [blockOffset_emitPhysicalRecord, headerSize_switchBlock, switchBlock_eq]

theorem fragmentLength_eq (w : Writer) (left : Bytes) :
    w.fragmentLength left =
      min left.length (kBlockSize - recordStart w.headerSize w.blockOffset - w.headerSize) := by
  rw [fragmentLength, switchBlock_eq]

/-- The loop of `AddRecord` appends the turns of one record. -/
theorem addRecordLoop_framed (w : Writer) (begin : Bool) (left : Bytes) :
    ∃ us, (w.addRecordLoop crc begin left).dest = w.dest ++ us.flatMap (Turn.bytes crc w.logNumber) ∧
      RecordFramed w.recycleLogFiles begin w.blockOffset left us (w.addRecordLoop crc begin left).blockOffset ∧
      (w.addRecordLoop crc begin left).logNumber = w.logNumber ∧
      (w.addRecordLoop crc begin left).recycleLogFiles = w.recycleLogFiles := by
  induction w, begin, left using addRecordLoop.induct crc with
  | case1 w begin left w' hmore ih =>
    -- a fragment that fills the rest of the block; the record goes on in the next one
    have hstart := recordStart_add_le w.blockOffset (headerSize_bounds w).1 (headerSize_le w)
    have hlen := fragmentLength_eq w left
    have hstep : w.addRecordLoop crc begin left =
        w'.addRecordLoop crc false (left.drop (w.fragmentLength left)) := by
      rw [addRecordLoop]
      exact if_pos hmore
    have hend : (left.length == w.fragmentLength left) = false := by
      rw [beq_eq_false_iff_ne]
      omega
    have hoff : w'.blockOffset = kBlockSize := by
      rw [blockOffset_turn, List.length_take]
      omega
    have hw'log : w'.logNumber = w.logNumber := by simp [w']
    have hw'rec : w'.recycleLogFiles = w.recycleLogFiles := by simp [w']
    have hw'dest : w'.dest = w.dest ++ Turn.bytes crc w.logNumber
        ⟨padLength w.headerSize w.blockOffset, fragmentType w.recycleLogFiles begin false,
          left.take (w.fragmentLength left)⟩ := by
      simp only [w', recycleLogFiles_switchBlock, hend]
      exact dest_turn crc w _ _
    obtain ⟨us, hdest, hframed, hlog, hrec⟩ := ih
    rw [hoff, hw'rec] at hframed
    have hfill : recordStart (recordHeaderSize w.recycleLogFiles) w.blockOffset +
        recordHeaderSize w.recycleLogFiles + (left.take (w.fragmentLength left)).length = kBlockSize := by
      rw [List.length_take, ← headerSize_eq]
      omega
    have hfr : RecordFramed w.recycleLogFiles begin w.blockOffset (_ ++ _) (_ :: us) _ :=
      RecordFramed.more hfill hframed
    rw [List.take_append_drop] at hfr
    rw [hstep]
    refine ⟨_ :: us, ?_, hfr, hlog.trans hw'log, hrec.trans hw'rec⟩
    rw [hdest, hw'dest, hw'log, List.flatMap_cons, List.append_assoc]
    rfl
  | case2 w begin left hdone =>
    -- the last fragment: what is left fits the block
    have hstart := recordStart_add_le w.blockOffset (headerSize_bounds w).1 (headerSize_le w)
    have hlen := fragmentLength_eq w left
    have hstep : w.addRecordLoop crc begin left =
        w.switchBlock.emitPhysicalRecord crc
          (fragmentType w.switchBlock.recycleLogFiles begin (left.length == w.fragmentLength left))
          (left.take (w.fragmentLength left)) := by
      rw [addRecordLoop]
      exact if_neg hdone
    have hend : (left.length == w.fragmentLength left) = true := by
      rw [beq_iff_eq]
      omega
    have htake : left.take (w.fragmentLength left) = left := List.take_of_length_le (by omega)
    have hfits : recordStart (recordHeaderSize w.recycleLogFiles) w.blockOffset +
        recordHeaderSize w.recycleLogFiles + left.length ≤ kBlockSize := by
      rw [← headerSize_eq]
      omega
    rw [hstep, hend, htake]
    refine ⟨[⟨padLength w.headerSize w.blockOffset, fragmentType w.recycleLogFiles begin true, left⟩],
      ?_, ?_, by simp, by simp⟩
    · rw [dest_turn, recycleLogFiles_switchBlock, List.flatMap_singleton]
    · rw [blockOffset_turn]
      exact RecordFramed.last hfits

/-- `AddRecord` over a sequence of records appends the turns of each. -/
theorem foldl_addRecord_framed (records : List Bytes) : ∀ w : Writer,
    ∃ us, (records.foldl (addRecord crc) w).dest = w.dest ++ us.flatMap (Turn.bytes crc w.logNumber) ∧
      LogFramed w.recycleLogFiles w.blockOffset records us (records.foldl (addRecord crc) w).blockOffset ∧
      (records.foldl (addRecord crc) w).logNumber = w.logNumber ∧
      (records.foldl (addRecord crc) w).recycleLogFiles = w.recycleLogFiles := by
  induction records with
  | nil => intro w; exact ⟨[], by simp, .nil, rfl, rfl⟩
  | cons s ss ih =>
    intro w
    obtain ⟨us, hdest, hframed, hlog, hrec⟩ := addRecordLoop_framed crc w true s
    obtain ⟨vs, hdest', hframed', hlog', hrec'⟩ := ih (w.addRecord crc s)
    rw [addRecord, hrec] at hframed'
    refine ⟨us ++ vs, ?_, .cons hframed hframed', hlog'.trans hlog, hrec'.trans hrec⟩
    rw [List.foldl_cons, hdest', addRecord, hdest, hlog, List.flatMap_append, List.append_assoc]

end Writer

/-! ## The reader -/

namespace Reader

variable {crc : Crc32c} {logNumber : UInt64}

/-! ### The header of a physical record -/

theorem length_logNumberBytes (logNumber : UInt64) (t : RecordType) :
    (logNumberBytes logNumber t).length =
      if t.toNat < RecordType.kRecyclableFullType.toNat then 0 else 4 := by
  unfold logNumberBytes
  split <;> simp

theorem length_physBytes (crc : Crc32c) (logNumber : UInt64) (t : RecordType) (p : Bytes) :
    (physBytes crc logNumber t p).length = 7 + (logNumberBytes logNumber t).length + p.length := by
  simp [physBytes]
  omega

theorem getD_physBytes (crc : Crc32c) (logNumber : UInt64) (t : RecordType) (p rest : Bytes) :
    (physBytes crc logNumber t p ++ rest).getD 4 0 = UInt8.ofNat p.length ∧
      (physBytes crc logNumber t p ++ rest).getD 5 0 = UInt8.ofNat (p.length >>> 8) ∧
      (physBytes crc logNumber t p ++ rest).getD 6 0 = UInt8.ofNat t.toNat := by
  simp [physBytes, List.getD_eq_getElem?_getD, List.getElem?_append_right]

theorem drop_six_physBytes (crc : Crc32c) (logNumber : UInt64) (t : RecordType) (p rest : Bytes) :
    (physBytes crc logNumber t p ++ rest).drop 6 =
      UInt8.ofNat t.toNat :: (logNumberBytes logNumber t ++ p ++ rest) := by
  rw [physBytes, List.append_assoc, List.drop_append, length_encodeFixed32,
    List.drop_eq_nil_of_le (by simp)]
  simp

theorem drop_seven_physBytes (crc : Crc32c) (logNumber : UInt64) (t : RecordType) (p rest : Bytes) :
    (physBytes crc logNumber t p ++ rest).drop 7 = logNumberBytes logNumber t ++ p ++ rest := by
  rw [physBytes, List.append_assoc, List.drop_append, length_encodeFixed32,
    List.drop_eq_nil_of_le (by simp)]
  simp

theorem drop_header_physBytes (crc : Crc32c) (logNumber : UInt64) (t : RecordType) (p rest : Bytes) :
    (physBytes crc logNumber t p ++ rest).drop (7 + (logNumberBytes logNumber t).length) = p ++ rest := by
  rw [← List.drop_drop, drop_seven_physBytes, List.append_assoc, List.drop_left' rfl]

theorem decodeFixed32_physBytes (crc : Crc32c) (logNumber : UInt64) (t : RecordType) (p rest : Bytes) :
    decodeFixed32 (physBytes crc logNumber t p ++ rest) = physChecksum crc logNumber t p := by
  rw [physBytes, List.append_assoc]
  exact decodeFixed32_encodeFixed32 _ _

theorem toUInt64_toUInt32_of_lt {x : UInt64} (h : x.toNat < 2 ^ 32) : x.toUInt32.toUInt64 = x := by
  apply UInt64.toNat_inj.mp
  simpa using h

theorem RecordType.toNat_le (t : RecordType) : t.toNat ≤ 8 := by
  cases t <;> decide

/-- The header of a physical record, as `ReadPhysicalRecord` parses it. -/
theorem readPhysicalRecord_phys (hcrc : crc.Lawful) {R : Reader} {t : RecordType} {p rest : Bytes}
    (hbuf : R.buffer = physBytes crc logNumber t p ++ rest) (ht : t ≠ .kZeroType)
    (hp : p.length < 2 ^ 16) (hln : R.logNumber = logNumber)
    (hrec : RecordType.kRecyclableFullType.toNat ≤ t.toNat → logNumber.toNat < 2 ^ 32) :
    ∃ b, ∀ n, R.readPhysicalRecord crc (n + 1) =
      some (⟨t.toNat, p, 0⟩, { R with buffer := rest, recycled := b }) := by
  have htype : headerType (UInt8.ofNat t.toNat) = t.toNat := by
    cases t <;> rfl
  have hlength : (UInt8.ofNat p.length).toNat + (UInt8.ofNat (p.length >>> 8)).toNat * 256 = p.length := by
    simp only [UInt8.toNat_ofNat', Nat.shiftRight_eq_div_pow]
    omega
  obtain ⟨h4, h5, h6⟩ := getD_physBytes crc logNumber t p rest
  have hdec := decodeFixed32_physBytes crc logNumber t p rest
  have h6drop := drop_six_physBytes crc logNumber t p rest
  have h7drop := drop_seven_physBytes crc logNumber t p rest
  have hhead := drop_header_physBytes crc logNumber t p rest
  rw [← hbuf] at h4 h5 h6 hdec h6drop h7drop hhead
  have hfrag : (R.buffer.drop (7 + (logNumberBytes logNumber t).length)).take p.length = p := by
    rw [hhead, List.take_left' rfl]
  have hrest : R.buffer.drop (7 + (logNumberBytes logNumber t).length + p.length) = rest := by
    rw [← List.drop_drop, hhead, List.drop_left' rfl]
  have hblen : R.buffer.length = 7 + (logNumberBytes logNumber t).length + p.length + rest.length := by
    rw [hbuf, List.length_append, length_physBytes]
  -- the reader recomputes the checksum the writer stored
  have hsum : crc.unmask (physChecksum crc logNumber t p) =
      crc.value (UInt8.ofNat t.toNat :: (logNumberBytes logNumber t ++ p)) := by
    rw [physChecksum, hcrc.unmask_mask, hcrc.extend_value, hcrc.extend_value]
    rfl
  have htne : t.toNat ≠ 0 := by
    cases t <;> simp_all [RecordType.toNat]
  by_cases hr : t.toNat < RecordType.kRecyclableFullType.toNat
  · -- a legacy header: seven bytes, no log number
    have hlnb : logNumberBytes logNumber t = [] := if_pos hr
    rw [hlnb] at hblen h6drop hsum hfrag hrest
    have htake : (UInt8.ofNat t.toNat :: (p ++ rest)).take (p.length + kHeaderSize - 6) =
        UInt8.ofNat t.toNat :: p := by
      rw [show p.length + kHeaderSize - 6 = p.length + 1 by rfl, List.take_succ_cons, List.take_left' rfl]
    refine ⟨R.recycled, fun n => ?_⟩
    rw [readPhysicalRecord]
    simp only [h4, h5, h6, htype, hlength, hblen, Nat.not_le.mpr hr, decide_false, Bool.false_and,
      Bool.false_eq_true, if_false, hdec, hsum, h6drop, List.length_nil, List.nil_append, Nat.add_zero]
    rw [if_neg (by unfold kHeaderSize; omega), if_neg (by unfold kHeaderSize; omega), htake]
    simp only [List.length_nil, Nat.add_zero] at hfrag hrest
    simp [htne, show RecordType.kZeroType.toNat = 0 from rfl, kHeaderSize, hfrag, hrest]
  · -- a recyclable header: eleven bytes, with the low 32 bits of the log number
    have hlnb : logNumberBytes logNumber t = encodeFixed32 logNumber.toUInt32 := if_neg hr
    have hle : RecordType.kRecyclableFullType.toNat ≤ t.toNat := Nat.le_of_not_lt hr
    have hlog : (decodeFixed32 (R.buffer.drop 7)).toUInt64 = R.logNumber := by
      rw [h7drop, hlnb, List.append_assoc, decodeFixed32_encodeFixed32, hln]
      exact toUInt64_toUInt32_of_lt (hrec hle)
    rw [hlnb] at hblen h6drop hsum hfrag hrest
    simp only [length_encodeFixed32] at hblen hfrag hrest
    have htake : (encodeFixed32 logNumber.toUInt32 ++ (p ++ rest)).take (p.length + 4) =
        encodeFixed32 logNumber.toUInt32 ++ p := by
      rw [← List.append_assoc, List.take_left' (by simp; omega)]
    have hlast : t.toNat ≤ RecordType.kRecyclableLastType.toNat := RecordType.toNat_le t
    have hshort : ¬R.buffer.length < 7 := by omega
    have hshort' : ¬R.buffer.length < 11 := by omega
    have hshort'' : ¬R.buffer.length < 11 + p.length := by omega
    refine ⟨if R.endOfBufferOffset - R.buffer.length = 0 then true else R.recycled, fun n => ?_⟩
    rw [readPhysicalRecord]
    simp only [h4, h5, h6, htype, hlength, hle, hlast, decide_true, Bool.true_and, Bool.and_true]
    -- a record at the start of the file marks it as recycled
    by_cases hz : R.endOfBufferOffset - R.buffer.length = 0 <;>
      simp [hz, hshort, hshort', hshort'', hlog, hdec, hsum, h6drop, htake, htne,
        show RecordType.kZeroType.toNat = 0 from rfl, kHeaderSize, kRecyclableHeaderSize, hfrag, hrest]

/-- Seven to ten zeros that close a block parse as a record of type zero and
length zero: `kBadRecord`, and the buffer is dropped. -/
theorem readPhysicalRecord_zeros {R : Reader} {m : ℕ} (hbuf : R.buffer = List.replicate m 0)
    (hm : kHeaderSize ≤ m) (n : ℕ) :
    R.readPhysicalRecord crc (n + 1) = some (⟨kBadRecord, [], 0⟩, { R with buffer := [] }) := by
  have hget : ∀ i, R.buffer.getD i 0 = 0 := by
    intro i
    rw [hbuf, List.getD_eq_getElem?_getD, List.getElem?_replicate]
    split <;> rfl
  have hlen : R.buffer.length = m := by rw [hbuf, List.length_replicate]
  have hzero : headerType 0 = 0 := rfl
  unfold kHeaderSize at hm
  rw [readPhysicalRecord]
  simp only [hget, hzero, hlen]
  simp [hlen, kHeaderSize, RecordType.toNat, show ¬m < 7 by omega]

/-! ### Where the reader is -/

/-- The reader's buffer holds what is left of the block it is at offset `o`
of, and its file the blocks after that one. -/
def Buffered (R : Reader) (o : ℕ) (data : Bytes) : Prop :=
  R.buffer = data.take (kBlockSize - o) ∧ R.file = data.drop (kBlockSize - o) ∧ (R.eof = true → R.file = [])

/-- The reader is at the start of a block it has not read yet. -/
def Unbuffered (R : Reader) (data : Bytes) : Prop := R.buffer = [] ∧ R.file = data ∧ R.eof = false

/-- What reading a log never changes: the reader's settings and its reports. -/
structure Keeps (R R' : Reader) : Prop where
  logNumber : R'.logNumber = R.logNumber
  retryAfterEof : R'.retryAfterEof = R.retryAfterEof
  reports : R'.reports = R.reports

/-- The reader of the log `logNumber` is at offset `o` of a block, with `data`
left to read, and has reported nothing. -/
structure At (logNumber : UInt64) (R : Reader) (o : ℕ) (data : Bytes) : Prop where
  le : o ≤ kBlockSize
  logNumber : R.logNumber = logNumber
  retryAfterEof : R.retryAfterEof = false
  reports : R.reports = []
  pos : Buffered R o data ∨ (o = 0 ∧ Unbuffered R data)

theorem At.keeps {R R' : Reader} {o o' : ℕ} {data data' : Bytes} (h : At logNumber R o data)
    (hk : Keeps R R') (hle : o' ≤ kBlockSize) (hpos : Buffered R' o' data' ∨ (o' = 0 ∧ Unbuffered R' data')) :
    At logNumber R' o' data' :=
  ⟨hle, hk.logNumber.trans h.logNumber, hk.retryAfterEof.trans h.retryAfterEof, hk.reports.trans h.reports,
    hpos⟩

/-- `ReadMore` before the end of the file reads the next block. -/
theorem readMore_refill {R : Reader} (heof : R.eof = false) :
    ∃ R', R.readMore = (.refilled, R') ∧ Keeps R R' ∧ Buffered R' 0 R.file := by
  have hfst : R.readMore.1 = .refilled := by
    simp only [readMore, heof, Bool.not_false, if_true]
    split <;> rfl
  refine ⟨R.readMore.2, by rw [← hfst], ?_, ?_⟩
  · simp only [readMore, heof, Bool.not_false, if_true]
    split <;> exact ⟨rfl, rfl, rfl⟩
  · simp only [readMore, heof, Bool.not_false, if_true]
    split
    · next hshort =>
      refine ⟨by simp, by simp, fun _ => ?_⟩
      simp only [List.drop_eq_nil_iff]
      simp only [List.length_take] at hshort
      omega
    · exact ⟨by simp, by simp, fun h => absurd h (by simp)⟩

/-- A buffer too short for a header is dropped and the buffer refilled. -/
theorem readPhysicalRecord_of_short {R R' : Reader} (hshort : R.buffer.length < kHeaderSize)
    (hmore : R.readMore = (.refilled, R')) (n : ℕ) :
    R.readPhysicalRecord crc (n + 1) = R'.readPhysicalRecord crc n := by
  rw [readPhysicalRecord, if_pos hshort, hmore]

/-! ### Reading the turns of the writer -/

section Turns

variable (hcrc : crc.Lawful) {t : RecordType} {p rest : Bytes}
  (ht : t ≠ .kZeroType) (hp : p.length < 2 ^ 16)
  (hrec : RecordType.kRecyclableFullType.toNat ≤ t.toNat → logNumber.toNat < 2 ^ 32)
include hcrc ht hp hrec

/-- A physical record that the rest of the buffered block starts with. -/
theorem read_phys_buffered {R : Reader} {o : ℕ} (hB : Buffered R o (physBytes crc logNumber t p ++ rest))
    (hfit : o + (physBytes crc logNumber t p).length ≤ kBlockSize) (hln : R.logNumber = logNumber) :
    ∃ R', (∀ n, R.readPhysicalRecord crc (n + 1) = some (⟨t.toNat, p, 0⟩, R')) ∧ Keeps R R' ∧
      Buffered R' (o + (physBytes crc logNumber t p).length) rest := by
  obtain ⟨hbuf, hfile, heof⟩ := hB
  have hsplit : kBlockSize - o = (physBytes crc logNumber t p).length +
      (kBlockSize - (o + (physBytes crc logNumber t p).length)) := by omega
  rw [hsplit, List.take_length_add_append] at hbuf
  rw [hsplit, List.drop_length_add_append] at hfile
  obtain ⟨b, hread⟩ := readPhysicalRecord_phys hcrc hbuf ht hp hln hrec
  exact ⟨_, hread, ⟨rfl, rfl, rfl⟩, rfl, hfile, heof⟩

/-- A physical record at offset `o` of the reader's block. -/
theorem At.read_phys {R : Reader} {o : ℕ} (hR : At logNumber R o (physBytes crc logNumber t p ++ rest))
    (hfit : o + (physBytes crc logNumber t p).length ≤ kBlockSize) :
    ∃ R', (∀ n, R.readPhysicalRecord crc (n + 2) = some (⟨t.toNat, p, 0⟩, R')) ∧
      At logNumber R' (o + (physBytes crc logNumber t p).length) rest := by
  rcases hR.pos with hB | ⟨rfl, hbuf, hfile, heof⟩
  · obtain ⟨R', hread, hk, hB'⟩ := read_phys_buffered hcrc ht hp hrec hB hfit hR.logNumber
    exact ⟨R', fun n => hread (n + 1), hR.keeps hk hfit (.inl hB')⟩
  · -- the block is not read yet: `ReadMore` first
    obtain ⟨R1, hmore, hk1, hB1⟩ := readMore_refill heof
    rw [hfile] at hB1
    obtain ⟨R', hread, hk, hB'⟩ :=
      read_phys_buffered hcrc ht hp hrec hB1 hfit (hk1.logNumber.trans hR.logNumber)
    refine ⟨R', fun n => ?_, (hR.keeps hk1 (Nat.zero_le _) (.inl hB1)).keeps hk hfit (.inl hB')⟩
    rw [readPhysicalRecord_of_short (by rw [hbuf]; decide) hmore]
    exact hread n

/-- A trailer shorter than a legacy header, then a physical record at the
start of the next block. -/
theorem At.read_phys_next {R : Reader} {o m : ℕ}
    (hR : At logNumber R o (List.replicate m 0 ++ (physBytes crc logNumber t p ++ rest)))
    (hm : m = kBlockSize - o) (hshort : m < kHeaderSize)
    (hfit : (physBytes crc logNumber t p).length ≤ kBlockSize) :
    ∃ R', (∀ n, R.readPhysicalRecord crc (n + 2) = some (⟨t.toNat, p, 0⟩, R')) ∧
      At logNumber R' (physBytes crc logNumber t p).length rest := by
  rcases hR.pos with ⟨hbuf, hfile, heof⟩ | ⟨rfl, -⟩
  · rw [← hm, List.take_left' (List.length_replicate ..)] at hbuf
    rw [← hm, List.drop_left' (List.length_replicate ..)] at hfile
    -- bytes follow the trailer, so the file has not ended
    have heof' : R.eof = false := by
      cases h : R.eof
      · rfl
      · have := heof h
        rw [hfile] at this
        simp [physBytes] at this
    obtain ⟨R1, hmore, hk1, hB1⟩ := readMore_refill heof'
    rw [hfile] at hB1
    obtain ⟨R', hread, hk, hB'⟩ :=
      read_phys_buffered hcrc ht hp hrec hB1 (by omega) (hk1.logNumber.trans hR.logNumber)
    rw [Nat.zero_add] at hB'
    refine ⟨R', fun n => ?_, (hR.keeps hk1 (Nat.zero_le _) (.inl hB1)).keeps hk hfit (.inl hB')⟩
    rw [readPhysicalRecord_of_short (by rw [hbuf, List.length_replicate]; exact hshort) hmore]
    exact hread n
  · unfold kHeaderSize kBlockSize at *
    omega

end Turns

/-- A trailer of seven to ten zeros reads as a `kBadRecord`, after which the
reader is at the start of the next block. -/
theorem At.read_pad {R : Reader} {o m : ℕ} {data : Bytes}
    (hR : At logNumber R o (List.replicate m 0 ++ data)) (hdata : data ≠ [])
    (hm : m = kBlockSize - o) (hlong : kHeaderSize ≤ m) (hlt : m < kRecyclableHeaderSize) :
    (∀ n, R.readPhysicalRecord crc (n + 1) = some (⟨kBadRecord, [], 0⟩, { R with buffer := [] })) ∧
      At logNumber { R with buffer := [] } 0 data := by
  rcases hR.pos with ⟨hbuf, hfile, heof⟩ | ⟨rfl, -⟩
  · rw [← hm, List.take_left' (List.length_replicate ..)] at hbuf
    rw [← hm, List.drop_left' (List.length_replicate ..)] at hfile
    have heof' : R.eof = false := by
      cases h : R.eof
      · rfl
      · exact absurd ((heof h).symm.trans hfile).symm hdata
    exact ⟨readPhysicalRecord_zeros hbuf hlong, (Nat.zero_le _), hR.logNumber, hR.retryAfterEof,
      hR.reports, .inr ⟨rfl, rfl, hfile, heof'⟩⟩
  · unfold kRecyclableHeaderSize kBlockSize at *
    omega

/-- With the buffer and the file read, `ReadPhysicalRecord` reports the end of the file. -/
theorem readPhysicalRecord_eof {R : Reader} (hbuf : R.buffer = []) (heof : R.eof = true)
    (hretry : R.retryAfterEof = false) (n : ℕ) :
    R.readPhysicalRecord crc (n + 1) = some (⟨kEof, [], 0⟩, { R with buffer := [] }) := by
  rw [readPhysicalRecord, if_pos (by simp [hbuf, kHeaderSize])]
  simp [readMore, heof, hretry, hbuf]

/-- At the end of the log the reader reports the end of the file. -/
theorem At.read_end {R : Reader} {o : ℕ} (hR : At logNumber R o []) :
    ∃ R', (∀ n, R.readPhysicalRecord crc (n + 2) = some (⟨kEof, [], 0⟩, R')) ∧ R'.reports = [] := by
  have hrest : ∀ R1 : Reader, R1.buffer = [] → R1.file = [] → R1.retryAfterEof = false →
      R1.reports = [] →
      ∃ R', (∀ n, R1.readPhysicalRecord crc (n + 2) = some (⟨kEof, [], 0⟩, R')) ∧ R'.reports = [] := by
    intro R1 hbuf hfile hretry hrep
    cases heof : R1.eof
    · -- the last `ReadMore` finds nothing and marks the end of the file
      refine ⟨{ R1.readMore.2 with buffer := [] }, fun n => ?_,
        by simp [readMore, heof, hfile, hrep, kBlockSize]⟩
      have hmore : R1.readMore = (.refilled, R1.readMore.2) := by simp [readMore, heof, hfile, kBlockSize]
      rw [readPhysicalRecord_of_short (by simp [hbuf, kHeaderSize]) hmore]
      exact readPhysicalRecord_eof (by simp [readMore, heof, hfile, kBlockSize])
        (by simp [readMore, heof, hfile, kBlockSize]) (by simp [readMore, heof, hfile, hretry, kBlockSize]) n
    · exact ⟨_, fun n => readPhysicalRecord_eof hbuf heof hretry (n + 1), hrep⟩
  rcases hR.pos with ⟨hbuf, hfile, -⟩ | ⟨-, hbuf, hfile, -⟩
  · exact hrest R (by simp [hbuf]) (by simp [hfile]) hR.retryAfterEof hR.reports
  · exact hrest R hbuf hfile hR.retryAfterEof hR.reports

/-! ### The loop of `ReadRecord` on the events of a log -/

variable (mode : WALRecoveryMode)

/-- A `kBadRecord` outside a fragmented record is skipped. -/
theorem readRecordLoop_badRecord {fuel : ℕ} {ls : ReadRecordState} {r r' : Reader}
    (h : r.readPhysicalRecord crc (fuel + 1) = some (⟨kBadRecord, [], 0⟩, r'))
    (hls : ls.inFragmentedRecord = false) :
    r.readRecordLoop crc mode (fuel + 1) ls = r'.readRecordLoop crc mode fuel ls := by
  rw [readRecordLoop, h]
  simp [kBadRecord, kBadHeader, kEof, kOldRecord, kMaxRecordType, RecordType.toNat, hls]

/-- The end of the file ends the log, and nothing is reported outside a
fragmented record. -/
theorem readRecordLoop_eof {fuel : ℕ} {ls : ReadRecordState} {r r' : Reader}
    (h : r.readPhysicalRecord crc (fuel + 1) = some (⟨kEof, [], 0⟩, r'))
    (hls : ls.inFragmentedRecord = false) :
    r.readRecordLoop crc mode (fuel + 1) ls = some (none, r') := by
  rw [readRecordLoop, h]
  simp [kBadHeader, kEof, kMaxRecordType, RecordType.toNat, hls]

/-- A fragment of a record: the first one starts the record, the last one
returns it. -/
theorem readRecordLoop_fragment {recycle begin end_ : Bool} {fuel : ℕ} {ls : ReadRecordState}
    {r r' : Reader} {p : Bytes}
    (h : r.readPhysicalRecord crc (fuel + 1) =
      some (⟨(Writer.fragmentType recycle begin end_).toNat, p, 0⟩, r'))
    (hls : ls.inFragmentedRecord = !begin) :
    ∃ off, r.readRecordLoop crc mode (fuel + 1) ls =
      if end_ then some (some ((if begin then [] else ls.scratch) ++ p), { r' with lastRecordOffset := off })
      else r'.readRecordLoop crc mode fuel ⟨(if begin then [] else ls.scratch) ++ p, true, off⟩ := by
  rw [readRecordLoop, h]
  cases begin <;> cases end_
  · -- a middle fragment
    refine ⟨ls.prospectiveRecordOffset, ?_⟩
    cases recycle <;> simp [Writer.fragmentType, RecordType.toNat, hls]
  · -- the last fragment
    refine ⟨ls.prospectiveRecordOffset, ?_⟩
    cases recycle <;> simp [Writer.fragmentType, RecordType.toNat, hls]
  · -- the first fragment
    refine ⟨r.endOfBufferOffset - r.buffer.length, ?_⟩
    cases recycle <;> simp [Writer.fragmentType, RecordType.toNat, hls]
  · -- a record in one fragment
    refine ⟨r.endOfBufferOffset - r.buffer.length, ?_⟩
    cases recycle <;> simp [Writer.fragmentType, RecordType.toNat, hls]

/-! ### A record read back -/

theorem fragmentType_ne_zero (recycle begin end_ : Bool) :
    Writer.fragmentType recycle begin end_ ≠ .kZeroType := by
  cases recycle <;> cases begin <;> cases end_ <;> decide

theorem recycle_of_fragmentType {recycle begin end_ : Bool}
    (h : RecordType.kRecyclableFullType.toNat ≤ (Writer.fragmentType recycle begin end_).toNat) :
    recycle = true := by
  revert h
  cases recycle <;> cases begin <;> cases end_ <;> decide

theorem length_physBytes_fragmentType (crc : Crc32c) (logNumber : UInt64) (recycle begin end_ : Bool)
    (p : Bytes) :
    (physBytes crc logNumber (Writer.fragmentType recycle begin end_) p).length =
      recordHeaderSize recycle + p.length := by
  rw [length_physBytes, length_logNumberBytes]
  cases recycle <;> cases begin <;> cases end_ <;> rfl

theorem padLength_eq_zero {hs o : ℕ} (h : ¬kBlockSize - o < hs) : padLength hs o = 0 := if_neg h

theorem recordStart_eq_self {hs o : ℕ} (h : ¬kBlockSize - o < hs) : recordStart hs o = o := if_neg h

theorem padLength_eq_sub {hs o : ℕ} (h : kBlockSize - o < hs) : padLength hs o = kBlockSize - o := if_pos h

theorem recordStart_eq_zero {hs o : ℕ} (h : kBlockSize - o < hs) : recordStart hs o = 0 := if_pos h

section Records

variable (hcrc : crc.Lawful) {recycle : Bool} (hlog : recycle = true → logNumber.toNat < 2 ^ 32)
include hcrc hlog

/-- One turn of the writer, read by the loop of `ReadRecord`: a long trailer
is skipped, then the fragment is read. -/
theorem readRecordLoop_turn {begin end_ : Bool} {o : ℕ} {p rest : Bytes} {R : Reader}
    {ls : ReadRecordState} {fuel : ℕ}
    (hR : At logNumber R o (Turn.bytes crc logNumber
      ⟨padLength (recordHeaderSize recycle) o, Writer.fragmentType recycle begin end_, p⟩ ++ rest))
    (hfit : recordStart (recordHeaderSize recycle) o + recordHeaderSize recycle + p.length ≤ kBlockSize)
    (hbegin : begin = false → o = kBlockSize) (hls : ls.inFragmentedRecord = !begin) (hfuel : 3 ≤ fuel) :
    ∃ R' off fuel', fuel - 2 ≤ fuel' ∧ fuel' < fuel ∧
      R.readRecordLoop crc mode fuel ls =
        (if end_ then some (some ((if begin then [] else ls.scratch) ++ p), { R' with lastRecordOffset := off })
        else R'.readRecordLoop crc mode fuel' ⟨(if begin then [] else ls.scratch) ++ p, true, off⟩) ∧
      At logNumber R' (recordStart (recordHeaderSize recycle) o + recordHeaderSize recycle + p.length) rest := by
  have hphys := length_physBytes_fragmentType crc logNumber recycle begin end_ p
  have ht := fragmentType_ne_zero recycle begin end_
  have hp : p.length < 2 ^ 16 := by
    unfold kBlockSize at hfit
    omega
  have hrec : RecordType.kRecyclableFullType.toNat ≤ (Writer.fragmentType recycle begin end_).toNat →
      logNumber.toNat < 2 ^ 32 := fun h => hlog (recycle_of_fragmentType h)
  have hhs : recordHeaderSize recycle ≤ kRecyclableHeaderSize := by
    unfold recordHeaderSize kHeaderSize kRecyclableHeaderSize
    split <;> omega
  rw [Turn.bytes, List.append_assoc] at hR
  dsimp only at hR
  obtain ⟨g, rfl⟩ : ∃ g, fuel = g + 2 := ⟨fuel - 2, by omega⟩
  by_cases hnear : kBlockSize - o < recordHeaderSize recycle
  · -- too few bytes are left: a trailer closes the block, the fragment starts the next
    rw [padLength_eq_sub hnear] at hR
    rw [recordStart_eq_zero hnear, Nat.zero_add]
    by_cases hlong : kHeaderSize ≤ kBlockSize - o
    · -- seven to ten zeros, which only come between records: a `kBadRecord` first
      have hb : begin = true := by
        cases begin
        · rw [hbegin rfl, Nat.sub_self] at hlong
          exact absurd hlong (by decide)
        · rfl
      obtain ⟨hbad, hR1⟩ := hR.read_pad (by simp [physBytes]) rfl hlong (by omega)
      obtain ⟨R2, hread, hR2⟩ := hR1.read_phys hcrc ht hp hrec (by omega)
      rw [Nat.zero_add, hphys] at hR2
      obtain ⟨g', rfl⟩ : ∃ g', g = g' + 1 := ⟨g - 1, by omega⟩
      rw [readRecordLoop_badRecord mode (hbad (g' + 2)) (by rw [hls, hb]; rfl)]
      obtain ⟨off, hloop⟩ := readRecordLoop_fragment mode (hread g') hls
      exact ⟨R2, off, g' + 1, by omega, by omega, hloop, hR2⟩
    · obtain ⟨R2, hread, hR2⟩ := hR.read_phys_next hcrc ht hp hrec rfl (Nat.lt_of_not_le hlong) (by omega)
      rw [hphys] at hR2
      obtain ⟨off, hloop⟩ := readRecordLoop_fragment mode (hread g) hls
      exact ⟨R2, off, g + 1, by omega, by omega, hloop, hR2⟩
  · -- the fragment follows in the same block
    rw [padLength_eq_zero hnear, List.replicate_zero, List.nil_append] at hR
    rw [recordStart_eq_self hnear] at hfit ⊢
    obtain ⟨R2, hread, hR2⟩ := hR.read_phys hcrc ht hp hrec (by omega)
    rw [hphys, ← Nat.add_assoc] at hR2
    obtain ⟨off, hloop⟩ := readRecordLoop_fragment mode (hread g) hls
    exact ⟨R2, off, g + 1, by omega, by omega, hloop, hR2⟩

/-- The turns of one record read back as the record, with nothing reported. -/
theorem readRecordLoop_record {begin : Bool} {o o' : ℕ} {left : Bytes} {us : List Turn}
    (hframed : RecordFramed recycle begin o left us o') :
    ∀ (R : Reader) (ls : ReadRecordState) (rest : Bytes) (fuel : ℕ),
      At logNumber R o (us.flatMap (Turn.bytes crc logNumber) ++ rest) →
      (begin = false → o = kBlockSize) → ls.inFragmentedRecord = !begin → 2 * us.length + 1 ≤ fuel →
      ∃ R', R.readRecordLoop crc mode fuel ls = some (some ((if begin then [] else ls.scratch) ++ left), R') ∧
        At logNumber R' o' rest := by
  induction hframed with
  | last hfit =>
    intro R ls rest fuel hR hbegin hls hfuel
    rw [List.flatMap_singleton] at hR
    obtain ⟨R', off, fuel', -, -, hloop, hR'⟩ :=
      readRecordLoop_turn mode hcrc hlog hR hfit hbegin hls
        (show 3 ≤ fuel by simp at hfuel; omega)
    rw [if_pos rfl] at hloop
    exact ⟨_, hloop, ⟨hR'.1, hR'.2, hR'.3, hR'.4, hR'.5⟩⟩
  | more hfill _ ih =>
    intro R ls rest fuel hR hbegin hls hfuel
    rw [List.flatMap_cons, List.append_assoc] at hR
    obtain ⟨R1, off, fuel', hf1, -, hloop, hR1⟩ :=
      readRecordLoop_turn mode hcrc hlog hR hfill.le hbegin hls
        (show 3 ≤ fuel by simp at hfuel; omega)
    rw [if_neg Bool.false_ne_true] at hloop
    rw [hfill] at hR1
    -- the rest of the record follows from the start of the next block
    obtain ⟨R', hloop', hR'⟩ := ih R1 ⟨_, true, off⟩ rest fuel' hR1 (fun _ => rfl) rfl
      (by simp at hfuel; omega)
    refine ⟨R', ?_, hR'⟩
    rw [hloop, hloop']
    simp

end Records

/-- The turns of a sequence of records read back as the records, then the end
of the log, with nothing reported. -/
theorem readRecords_log (hcrc : crc.Lawful) {recycle : Bool} (hlog : recycle = true → logNumber.toNat < 2 ^ 32)
    {o o' : ℕ} {records : List Bytes} {us : List Turn} (hframed : LogFramed recycle o records us o') :
    ∀ (R : Reader) (fuel : ℕ), At logNumber R o (us.flatMap (Turn.bytes crc logNumber)) →
      2 * us.length + 2 ≤ fuel →
      ∃ R', R.readRecords crc mode fuel (records.length + 1) = some (records, R') ∧ R'.reports = [] := by
  induction hframed with
  | nil =>
    intro R fuel hR hfuel
    obtain ⟨R', hread, hrep⟩ : ∃ R', (∀ n, R.readPhysicalRecord crc (n + 2) = some (⟨kEof, [], 0⟩, R')) ∧
        R'.reports = [] := hR.read_end
    obtain ⟨f, rfl⟩ : ∃ f, fuel = f + 2 := ⟨fuel - 2, by omega⟩
    refine ⟨R', ?_, hrep⟩
    rw [List.length_nil, readRecords, readRecord, readRecordLoop_eof mode (hread f) rfl]
  | cons hrecord _ ih =>
    intro R fuel hR hfuel
    rw [List.flatMap_append] at hR
    simp only [List.length_append] at hfuel
    obtain ⟨R1, hloop, hR1⟩ := readRecordLoop_record mode hcrc hlog hrecord R ⟨[], false, 0⟩ _ fuel
      hR (by simp) rfl (by omega)
    obtain ⟨R', hrest, hrep⟩ := ih R1 fuel hR1 (by omega)
    refine ⟨R', ?_, hrep⟩
    rw [List.length_cons, readRecords, readRecord, hloop]
    simp [hrest]

end Reader

theorem two_mul_length_le_flatMap (crc : Crc32c) (logNumber : UInt64) (us : List Turn) :
    2 * us.length ≤ (us.flatMap (Turn.bytes crc logNumber)).length := by
  induction us with
  | nil => simp
  | cons u us ih =>
    have hu : 2 ≤ (Turn.bytes crc logNumber u).length := by
      simp [Turn.bytes, Reader.length_physBytes]
      omega
    rw [List.flatMap_cons, List.length_append, List.length_cons]
    omega

/-- **The log round trip.**  The records that `AddRecord` writes to a new log
are read back by a new reader of the file, in order, by as many calls of
`ReadRecord`, and the next call returns `false`; nothing is reported on the
way.  This holds in every recovery mode, with or without checksums, for
legacy and recyclable logs, when the checksum functions are lawful and a
recyclable log's number fits the 32 bits the writer stores; the reader is
given enough fuel for its loops. -/
theorem log_records_read_back (crc : Crc32c) (hcrc : crc.Lawful) (mode : WALRecoveryMode)
    (logNumber : UInt64) (recycle : Bool) (hlog : recycle = true → logNumber.toNat < 2 ^ 32)
    (checksum : Bool) (records : List Bytes) (fuel : ℕ)
    (hfuel : (records.foldl (Writer.addRecord crc) (Writer.new logNumber recycle)).dest.length + 2 ≤ fuel) :
    ∃ R, (Reader.new (records.foldl (Writer.addRecord crc) (Writer.new logNumber recycle)).dest checksum
        logNumber false).readRecords crc mode fuel (records.length + 1) = some (records, R) ∧
      R.reports = [] := by
  obtain ⟨us, hdest, hframed, -, -⟩ := Writer.foldl_addRecord_framed crc records (Writer.new logNumber recycle)
  rw [show (Writer.new logNumber recycle).dest = [] from rfl, List.nil_append,
    show (Writer.new logNumber recycle).logNumber = logNumber from rfl] at hdest
  have hframed : LogFramed recycle 0 records us _ := hframed
  have hlen := two_mul_length_le_flatMap crc logNumber us
  rw [hdest] at hfuel ⊢
  -- a new reader is at the start of the first block, which it has not read
  have hR : Reader.At logNumber (Reader.new (us.flatMap (Turn.bytes crc logNumber)) checksum logNumber false) 0
      (us.flatMap (Turn.bytes crc logNumber)) :=
    ⟨Nat.zero_le _, rfl, rfl, rfl, .inr ⟨rfl, rfl, rfl, rfl⟩⟩
  exact Reader.readRecords_log mode hcrc hlog hframed _ fuel hR (by omega)

/-- A checksum that is always zero: lawful, which is all the round trip asks. -/
def zeroCrc : Crc32c := ⟨fun _ => 0, fun _ _ => 0, id, id⟩

theorem zeroCrc_lawful : zeroCrc.Lawful := ⟨fun _ _ => rfl, fun _ => rfl⟩

theorem length_addRecord_97 :
    (([[97]] : List Bytes).foldl (Writer.addRecord zeroCrc) (Writer.new 7 true)).dest.length = 12 := by
  rw [List.foldl_cons, List.foldl_nil, Writer.addRecord_of_fits _ _ _ rfl (by decide)]
  rfl

/-- The one-byte record `"a"` in a recyclable log numbered `7`, read back in
`kAbsoluteConsistency` with checksums. -/
theorem log_records_read_back_97 :
    zeroCrc.Lawful ∧ (true = true → (7 : UInt64).toNat < 2 ^ 32) ∧
      (([[97]] : List Bytes).foldl (Writer.addRecord zeroCrc) (Writer.new 7 true)).dest.length + 2 ≤ 14 ∧
      ∃ R, (Reader.new (([[97]] : List Bytes).foldl (Writer.addRecord zeroCrc) (Writer.new 7 true)).dest true
          7 false).readRecords zeroCrc .kAbsoluteConsistency 14 (([[97]] : List Bytes).length + 1) =
            some ([[97]], R) ∧ R.reports = [] :=
  ⟨zeroCrc_lawful, by decide, by rw [length_addRecord_97],
    log_records_read_back zeroCrc zeroCrc_lawful .kAbsoluteConsistency 7 true (by decide) true [[97]] 14
      (by rw [length_addRecord_97])⟩

end HapDB.Log
